import Transceiver.Proofs.Deadline

/-!
The longest packet stands for all.

A receive does not know how long the packet will be that it gets, and neither does a detection that
turns into one. Their watchdogs leave room for the longest payload. This is enough if no other
packet can take more room, and the room is counted in ticks, after two conversions and a stretch.

Time on air grows with every parameter of the packet and of the modulation, so the longest payload
takes the longest. The order survives on the way to ticks because nothing is cut off there, up to
one tick every 200 nanoseconds. With a faster clock a long packet may wrap where a short one does
not.
-/

namespace Transceiver

namespace Modulation

variable {rate : UInt32} {m m' : Modulation} {p p' : Packet}

/-- The ticks for which a watchdog waits on account of a packet. -/
def reservedTicks (m : Modulation) (rate : UInt32) (p : Packet) : Ticks :=
  (Ticks.ofMicros rate (m.airtime p)).withMargin

theorem toNat_reservedTicks (hrate : rate.toNat ≤ 5000000) (m : Modulation) (p : Packet) :
    (m.reservedTicks rate p).toNat = (m.airtime p).toNat * rate.toNat / 1000000 * 110 / 100 :=
  Ticks.toNat_withMargin_ofMicros hrate (m.toNat_airtime_le_longest p)

theorem reservedTicks_le (hrate : rate.toNat ≤ 5000000) (h : Outlasted m p m' p') :
    m.reservedTicks rate p ≤ m'.reservedTicks rate p' := by
  have hmicros : (m.airtime p).toNat * rate.toNat ≤ (m'.airtime p').toNat * rate.toNat :=
    Nat.mul_le_mul_right _ (airtime_le h)
  rw [UInt32.le_iff_toNat_le, toNat_reservedTicks hrate, toNat_reservedTicks hrate]
  omega

end Modulation

namespace System

variable {σ ε : Type}

/-- A packet that is larger in no respect is on the air no longer. So the ticks that are reserved
for the longest payload cover every packet of the same modulation, and it is these ticks for which
the watchdog of a receive or of a detection waits. -/
theorem longest_payload_covers (rate : UInt32) :
    (∀ {m m' : Modulation} {p p' : Packet}, Outlasted m p m' p' → m.airtime p ≤ m'.airtime p') ∧
      (rate.toNat ≤ 5000000 → ∀ (m : Modulation) (preamble length : UInt8),
        m.reservedTicks rate (.headed preamble length) ≤
          m.reservedTicks rate (.headed preamble 255)) ∧
      ∀ (s : System σ) (d : Driver σ ε) (mode : Mode), mode = .receive ∨ mode = .detect →
        s.clock.rate = rate → d.RegularAirtime → (s.perform d mode).2 = .ok () →
        ∃ w, mode.window? s.clock.now s.exchange.operation = some w ∧
          (s.perform d mode).1.deferral.held = some (.watchdog
            (w.opens + Ticks.ofMillis rate w.guardMillis +
              s.exchange.operation.channel.modulation.reservedTicks rate
                (.headed d.preamble 255))) := by
  refine ⟨fun h => UInt32.le_iff_toNat_le.mpr (Modulation.airtime_le h), ?_, ?_⟩
  · intro hrate m preamble length
    exact Modulation.reservedTicks_le hrate
      (m.outlasted_headed preamble (UInt8.le_iff_toNat_le.mpr (Nat.le_of_lt_succ length.toNat_lt)))
  · rintro s d mode hmode rfl hairtime hok
    obtain ⟨w, hwindow, hlength⟩ :
        ∃ w, mode.window? s.clock.now s.exchange.operation = some w ∧ w.length = 255 := by
      rcases hmode with rfl | rfl
      · exact ⟨_, rfl, rfl⟩
      · exact ⟨_, rfl, rfl⟩
    obtain ⟨chip, hheld⟩ := held_perform hwindow hok
    rw [hairtime, hlength] at hheld
    exact ⟨w, hwindow, hheld⟩

/-- A detection is asked for six ticks before the clock wraps. Its watchdog waits for 27755 ticks
beyond the guard, and for no packet would more be reserved. -/
theorem detection_covers_every_packet :
    let d := (Device.programmed 12).driver
    let s := (bench []).setClock 4294967290
    let m := s.exchange.operation.channel.modulation
    m.airtime (.headed 8 13) ≤ (Modulation.slowest .sf7).airtime (.headed 12 255) ∧
      (s.perform d .detect).1.deferral.held = some (.watchdog (s.clock.now + 625 + 27755)) ∧
      ∀ length, m.reservedTicks s.clock.rate (.headed 12 length) ≤ 27755 := by
  intro d s m
  obtain ⟨hmonotone, hcovers, hwatched⟩ := longest_payload_covers (σ := Script) (ε := String)
    s.clock.rate
  have houtlasted : Outlasted m (.headed 8 13) (Modulation.slowest .sf7) (.headed 12 255) :=
    { spreading := rfl, bandwidth := by decide, coding := by decide, lowRate := fun _ => rfl,
      preamble := by decide, header := id, length := by decide }
  obtain ⟨w, hwindow, hheld⟩ :=
    hwatched s d .detect (.inr rfl) rfl (Device.driver_regularAirtime 12) rfl
  cases hwindow
  have hlongest : m.reservedTicks s.clock.rate (.headed 12 255) = 27755 := by decide
  have hguard : Ticks.ofMillis s.clock.rate 10 = 625 := by decide
  have hdeadline : s.clock.now + Ticks.ofMillis s.clock.rate 10 +
      m.reservedTicks s.clock.rate (.headed 12 255) = s.clock.now + 625 + 27755 := by
    rw [hguard, hlongest]
  refine ⟨hmonotone houtlasted, ?_, ?_⟩
  · exact hheld.trans (congrArg (fun t => some (Deferred.watchdog t)) hdeadline)
  · intro length
    exact hlongest ▸ hcovers (by decide) m 12 length

end System

end Transceiver
