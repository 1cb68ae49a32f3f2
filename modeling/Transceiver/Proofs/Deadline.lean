import Mathlib.Tactic.Linarith
import Mathlib.Tactic.Qify
import Transceiver.Proofs.Airtime
import Transceiver.Proofs.Grant

/-!
The watchdog leaves an operation the time that it needs.

Between a window and its deadline lie three roundings down, each with a conversion to a word, and
additions that wrap. For the clocks that a board can have, from 200 ticks per second to one tick
every 200 nanoseconds, none of the conversions cuts anything off, because no packet is on the air
for six minutes. What is left is the sum of the roundings, of which the guard pays for the only one
that could hurt: the deadline is early by less than four ticks, and never earlier than the end of
the packet.

A window opens at any moment of the circle and the deadline lies less than half a circle after it,
so it does not matter whether the clock wraps in between.
-/

namespace Transceiver

namespace Mode

variable {mode : Mode} {now : Ticks} {op : Operation} {w : Window}

theorem ne_calibrate_of_window (h : mode.window? now op = some w) : mode ≠ .calibrate := by
  rintro rfl
  cases h

theorem guard_of_window (h : mode.window? now op = some w) :
    5 ≤ w.guardMillis.toNat ∧ w.guardMillis.toNat ≤ 20 := by
  cases mode <;> simp only [window?, Option.some.injEq, reduceCtorEq] at h <;> subst h <;>
    simp only [UInt32.reduceToNat, Nat.reduceLeDiff, and_self]

end Mode

/-- Microseconds on the air of a packet with a header, by its preamble and its length. -/
def Modulation.packetMicros (m : Modulation) (preamble length : UInt8) : UInt32 :=
  m.airtime (.headed preamble length)

/-- The airtime that the driver states is that of the packets it sends. -/
def Driver.RegularAirtime {σ ε : Type} (d : Driver σ ε) : Prop :=
  ∀ chip m length, d.airtime chip m length = m.packetMicros d.preamble length

theorem Device.driver_regularAirtime (preamble : UInt8) :
    (Device.programmed preamble).driver.RegularAirtime :=
  fun _ _ _ => rfl

namespace Modulation

theorem outlasted_headed (m : Modulation) (preamble : UInt8) {length length' : UInt8}
    (h : length ≤ length') :
    Outlasted m (.headed preamble length) m (.headed preamble length') where
  spreading := rfl
  bandwidth := Nat.le_refl _
  coding := Nat.le_refl _
  lowRate := id
  preamble := Nat.le_refl _
  header := id
  length := h

theorem packetMicros_le (m : Modulation) (preamble : UInt8) {length length' : UInt8}
    (h : length ≤ length') :
    (m.packetMicros preamble length).toNat ≤ (m.packetMicros preamble length').toNat :=
  airtime_le (m.outlasted_headed preamble h)

end Modulation

/-- For no packet and none of these clocks is anything cut off on the way to ticks. -/
theorem Ticks.toNat_withMargin_ofMicros {rate micros : UInt32} (hrate : rate.toNat ≤ 5000000)
    (hmicros : micros.toNat ≤ 354138797) :
    (ofMicros rate micros).withMargin.toNat = micros.toNat * rate.toNat / 1000000 * 110 / 100 := by
  have hflown : micros.toNat * rate.toNat ≤ 354138797 * 5000000 := Nat.mul_le_mul hmicros hrate
  have hticks : (ofMicros rate micros).toNat = micros.toNat * rate.toNat / 1000000 := by
    rw [toNat_ofMicros]
    omega
  rw [toNat_withMargin, hticks]
  omega

namespace Window

/-- A deadline that does justice to the window, for a clock of this rate and packets whose
microseconds on the air go by their length. -/
structure Room (w : Window) (rate : UInt32) (micros : UInt8 → UInt32) (deadline : Ticks) :
    Prop where
  ahead : (deadline - w.opens).toNat < 2 ^ 31
  /-- Nothing is lost but by rounding down. -/
  ticks : (deadline - w.opens).toNat =
    w.guardMillis.toNat * rate.toNat / 1000 +
      (micros w.length).toNat * rate.toNat / 1000000 * 110 / 100
  /-- Every packet for which there is room has time to end. -/
  covers : ∀ length ≤ w.length,
    (micros length).toNat * rate.toNat ≤ (deadline - w.opens).toNat * 1000000
  le_exact : ((deadline - w.opens).toNat : ℚ) ≤
    w.guardMillis.toNat * rate.toNat / 1000 +
      11 / 10 * (micros w.length).toNat * rate.toNat / 1000000
  exact_lt : (w.guardMillis.toNat * rate.toNat / 1000 +
      11 / 10 * (micros w.length).toNat * rate.toNat / 1000000 : ℚ) <
    (deadline - w.opens).toNat + 4
  early : ∀ k < deadline - w.opens,
    (Entry.guardedAt deadline .watchdog).due (w.opens + k) = false
  late : (Entry.guardedAt deadline .watchdog).due (w.opens + (deadline - w.opens)) = true

theorem deadline_sub_opens (w : Window) (rate micros : UInt32) :
    w.deadline rate micros - w.opens =
      Ticks.ofMillis rate w.guardMillis + (Ticks.ofMicros rate micros).withMargin := by
  rw [deadline]
  grind

/-- The conversions behind a deadline are exact but for the rounding, and so is their sum. -/
theorem toNat_deadline_sub_opens {w : Window} {rate micros : UInt32}
    (hguard : w.guardMillis.toNat ≤ 20) (hrate : rate.toNat ≤ 5000000)
    (hmicros : micros.toNat ≤ 354138797) :
    (w.deadline rate micros - w.opens).toNat =
        w.guardMillis.toNat * rate.toNat / 1000 +
          micros.toNat * rate.toNat / 1000000 * 110 / 100 ∧
      (w.deadline rate micros - w.opens).toNat < 2 ^ 31 := by
  have hguarded : w.guardMillis.toNat * rate.toNat ≤ 20 * 5000000 := Nat.mul_le_mul hguard hrate
  have hflown : micros.toNat * rate.toNat ≤ 354138797 * 5000000 := Nat.mul_le_mul hmicros hrate
  have hmillis : (Ticks.ofMillis rate w.guardMillis).toNat =
      w.guardMillis.toNat * rate.toNat / 1000 := by
    rw [Ticks.toNat_ofMillis]
    omega
  have hmargin := Ticks.toNat_withMargin_ofMicros hrate hmicros
  have hroom : w.guardMillis.toNat * rate.toNat / 1000 +
      micros.toNat * rate.toNat / 1000000 * 110 / 100 < 2 ^ 31 := by
    omega
  rw [deadline_sub_opens, UInt32.toNat_add, hmillis, hmargin, Nat.mod_eq_of_lt (by omega)]
  exact ⟨rfl, hroom⟩

/-- The roundings of a deadline, for a guard and a packet given as products of a duration and a
rate. A guard of at least one tick makes up for the rounding of the packet. -/
theorem roundings {guarded : Nat} (flown : Nat) (hguard : 1000 ≤ guarded) :
    let ticks := guarded / 1000 + flown / 1000000 * 110 / 100
    flown ≤ ticks * 1000000 ∧ 10000000 * ticks ≤ 10000 * guarded + 11 * flown ∧
      10000 * guarded + 11 * flown < 10000000 * (ticks + 4) := by
  omega

theorem room_deadline {w : Window} {rate : UInt32} (m : Modulation) (preamble : UInt8)
    (hguard : 5 ≤ w.guardMillis.toNat) (hguard' : w.guardMillis.toNat ≤ 20)
    (hrate : 200 ≤ rate.toNat) (hrate' : rate.toNat ≤ 5000000) :
    w.Room rate (m.packetMicros preamble) (w.deadline rate (m.packetMicros preamble w.length)) := by
  have hlongest : (m.packetMicros preamble w.length).toNat ≤ 354138797 :=
    m.toNat_airtime_le_longest _
  obtain ⟨hticks, hahead⟩ := toNat_deadline_sub_opens hguard' hrate' hlongest
  obtain ⟨hcovers, hle, hlt⟩ := hticks ▸
    roundings ((m.packetMicros preamble w.length).toNat * rate.toNat) (Nat.mul_le_mul hguard hrate)
  qify at hle hlt
  constructor
  case ahead => exact hahead
  case ticks => exact hticks
  case covers =>
    intro length hlength
    exact Nat.le_trans (Nat.mul_le_mul_right _ (m.packetMicros_le preamble hlength)) hcovers
  case le_exact => linarith only [hle]
  case exact_lt => linarith only [hlt]
  case early => exact fun k => Ticks.not_reached_of_lt hahead
  case late => exact Ticks.reached_deadline _ _

end Window

namespace System

variable {σ ε : Type}

/-- A request that is granted leaves the watchdog of its window. The driver states the airtime in
the state of the chip that it has been brought to. -/
theorem held_perform {s : System σ} {d : Driver σ ε} {mode : Mode} {w : Window}
    (hwindow : mode.window? s.clock.now s.exchange.operation = some w)
    (hok : (s.perform d mode).2 = .ok ()) :
    ∃ chip, (s.perform d mode).1.deferral.held =
      some (.watchdog (w.deadline s.clock.rate
        (d.airtime chip s.exchange.operation.channel.modulation w.length))) := by
  have hmode := Mode.ne_calibrate_of_window hwindow
  obtain ⟨calls, heq⟩ := perform_of_granted hmode ((perform_spec s d hmode).1.symm.trans hok)
  rw [heq, hwindow]
  exact ⟨_, rfl⟩

/-- An operation that is granted with a window has a watchdog that leaves it room, whatever the
clock shows and whatever the modulation is. -/
theorem watchdog_leaves_room (s : System σ) {d : Driver σ ε} {mode : Mode} {w : Window}
    (hairtime : d.RegularAirtime)
    (hwindow : mode.window? s.clock.now s.exchange.operation = some w)
    (hrate : 200 ≤ s.clock.rate.toNat) (hrate' : s.clock.rate.toNat ≤ 5000000)
    (hok : (s.perform d mode).2 = .ok ()) :
    ∃ deadline, (s.perform d mode).1.deferral.deadline? = some deadline ∧
      (s.perform d mode).1.scheduled = some (.guardedAt deadline .watchdog) ∧
      w.Room s.clock.rate
        (s.exchange.operation.channel.modulation.packetMicros d.preamble) deadline := by
  obtain ⟨hguard, hguard'⟩ := Mode.guard_of_window hwindow
  obtain ⟨chip, hheld⟩ := held_perform hwindow hok
  rw [hairtime] at hheld
  refine ⟨_, ?_, ?_, Window.room_deadline _ d.preamble hguard hguard' hrate hrate'⟩
  case refine_1 => simp only [Deferral.deadline?, hheld]
  case refine_2 =>
    rw [(s.perform_spec d (Mode.ne_calibrate_of_window hwindow)).2.scheduled, hheld]
    rfl

/-- A frame goes out six ticks before the clock wraps, and the watchdog waits for it. -/
theorem watchdog_beyond_wrap :
    let d := (Device.programmed 8).driver
    let s := (bench []).setClock 4294967290
    let deadline : Ticks := 3021
    (s.perform d .transmit).1.deferral.deadline? = some deadline ∧
      ∀ k < deadline - s.clock.now,
        (Entry.guardedAt deadline .watchdog).due (s.clock.now + k) = false := by
  intro d s deadline
  have hok : (s.perform d .transmit).2 = .ok () := rfl
  obtain ⟨limit, hlimit, -, hroom⟩ :=
    watchdog_leaves_room s (Device.driver_regularAirtime 8) rfl (by decide) (by decide) hok
  have hdeadline : (s.perform d .transmit).1.deferral.deadline? = some deadline := by decide
  cases hlimit.symm.trans hdeadline
  exact ⟨hdeadline, hroom.early⟩

end System

end Transceiver
