import Transceiver.Proofs.Abreast

/-!
Rest forgets.

Every request but a calibration first brings the radio to rest, and rest wipes out whatever an
earlier operation has left: an interrupt that waits, a deferred job and its entry with the
scheduler, the lines that are unmasked, the antenna and the oscillator. So two radios that agree on
what outlasts a rest cannot be told apart by what the next request does. A stop is the special case
of a radio and the same radio at rest: it is absorbed by the request behind it.

What outlasts a rest on the side of the chip is a relation again. A scripted chip may have used up
one of the sleeps that it is to fail, and that is all.
-/

namespace Transceiver

/-- Scripts that differ at most in the sleeps that are to fail. -/
def Script.EqualButSleep (a b : Script) : Prop := ∃ sleep, b = { a with sleep }

theorem Script.equalButSleep_trySleep (a : Script) : EqualButSleep a a.trySleep.1 := ⟨_, rfl⟩

/-- No routine of a scripted chip looks at the sleeps that are to fail, sleep excepted. -/
theorem Device.driver_alike (device : Device) :
    device.driver.Alike Script.EqualButSleep device.driver := by
  have hsleep : ∀ {a b : Script}, a.EqualButSleep b → a.trySleep.1.EqualButSleep b.trySleep.1 := by
    rintro a _ ⟨sleep, rfl⟩
    exact ⟨_, rfl⟩
  have hreset : ∀ {a b : Script}, a.EqualButSleep b →
      a.tryReset.chip.EqualButSleep b.tryReset.chip ∧ b.tryReset.orders = a.tryReset.orders := by
    rintro a _ ⟨sleep, rfl⟩
    exact ⟨⟨sleep, rfl⟩, rfl⟩
  have hstart : ∀ {a b : Script}, a.EqualButSleep b → ∀ activity,
      (a.tryStart activity).chip.EqualButSleep (b.tryStart activity).chip ∧
        (b.tryStart activity).orders = (a.tryStart activity).orders ∧
        (b.tryStart activity).outcome = (a.tryStart activity).outcome := by
    rintro a _ ⟨sleep, rfl⟩ activity
    exact ⟨⟨sleep, rfl⟩, rfl, rfl⟩
  have hrespond : ∀ {a b : Script}, a.EqualButSleep b →
      a.respond.chip.EqualButSleep b.respond.chip ∧ b.respond.acts = a.respond.acts ∧
        b.respond.status = a.respond.status := by
    rintro ⟨_, _, _, responses, _⟩ _ ⟨sleep, rfl⟩
    cases responses <;> exact ⟨⟨sleep, rfl⟩, rfl, rfl⟩
  have hairtime : ∀ {a b : Script}, a.EqualButSleep b → b.airtime = a.airtime := by
    rintro a _ ⟨sleep, rfl⟩
    rfl
  cases device with
  | programmed preamble =>
      exact ⟨hsleep, fun h _ _ => hreset h, fun h activity _ => hstart h activity,
        fun h _ _ _ => hrespond h, fun _ _ _ => rfl⟩
  | stated =>
      exact ⟨hsleep, fun h _ _ => hreset h, fun h activity _ => hstart h activity,
        fun h _ _ _ => hrespond h, fun h _ _ => hairtime h⟩

namespace System

variable {σ ε : Type} {R : σ → σ → Prop} {d d' : Driver σ ε} {s t : System σ}

/-- Systems that agree on what outlasts a rest. Nothing is said of a pending interrupt, the cell,
the scheduler's entry, the unmasked lines, the antenna and the oscillator. -/
structure AgreeBeyondRest (R : σ → σ → Prop) (s t : System σ) : Prop where
  chip : R s.chip t.chip
  depth : t.board.depth = s.board.depth
  capturedAt : t.control.capturedAt = s.control.capturedAt
  sending : t.control.sending = s.control.sending
  clock : t.clock = s.clock
  mac : t.deferral.agenda.mac = s.deferral.agenda.mac
  completions : t.completions = s.completions
  exchange : t.exchange = s.exchange

theorem AgreeBeyondRest.quiesce (h : AgreeBeyondRest R s t) (hd : d.Alike R d') :
    Abreast R s.trace t.trace (s.quiesce d) (t.quiesce d') := by
  have hclock : t.deferral.agenda.clock = s.deferral.agenda.clock := h.clock
  have hcompletions : t.deferral.agenda.completions = s.deferral.agenda.completions :=
    h.completions
  rw [quiesce_eq, quiesce_eq]
  constructor
  case chip => exact hd.sleep h.chip
  case board => simp [Board.rested, h.depth]
  case control => simp [h.capturedAt, h.sending]
  case deferral =>
      simp [Deferral.write, Deferral.request, AgendaCall.apply, hclock, h.mac, hcompletions]
  case exchange => exact h.exchange
  case trace => exact ⟨_, rfl, rfl⟩

/-- A rest changes nothing of what outlasts it. -/
theorem agreeBeyondRest_quiesce (s : System σ) (d : Driver σ ε)
    (h : R s.chip (d.sleep s.chip).1) : AgreeBeyondRest R s (s.quiesce d) := by
  rw [quiesce_eq]
  constructor
  case chip => exact h
  all_goals simp [Board.rested, System.clock, System.completions]

/-- A request that is no calibration does the same to all radios that agree on what outlasts a
rest, and gives them the same answer. In particular a stop before it makes no difference, and a
second stop none to the first. -/
theorem rest_forgets (device : Device) {mode : Mode} (hmode : mode ≠ .calibrate) :
    let d := device.driver
    let R := Script.EqualButSleep
    (∀ s t : System Script, AgreeBeyondRest R s t →
      Abreast R s.trace t.trace (s.perform d mode).1 (t.perform d mode).1 ∧
        (t.perform d mode).2 = (s.perform d mode).2) ∧
      ∀ s : System Script,
        let t := (s.perform d .stop).1
        Abreast R s.trace t.trace (s.perform d mode).1 (t.perform d mode).1 ∧
          (t.perform d mode).2 = (s.perform d mode).2 := by
  intro d R
  have hd : d.Alike R d := device.driver_alike
  have hforget : ∀ s t : System Script, AgreeBeyondRest R s t →
      Abreast R s.trace t.trace (s.perform d mode).1 (t.perform d mode).1 ∧
        (t.perform d mode).2 = (s.perform d mode).2 :=
    fun s t h => Abreast.perform_of_quiesce hd hmode (h.quiesce hd)
  refine ⟨hforget, fun s => hforget s _ (agreeBeyondRest_quiesce s d ?_)⟩
  cases device <;> exact s.chip.equalButSleep_trySleep

/-- A receive is under way, an interrupt waits and the chip will fail its next sleeps. The
transmission that is asked for now goes on as it would on a new radio. -/
theorem transmission_after_interrupted_receive :
    let d := Device.stated.driver
    let s := bench []
    let t : System Script :=
      { (s.run d [.perform .receive, .capture 1 (some 0)]) with chip := { sleep := ⟨3, "busy"⟩ } }
    Abreast Script.EqualButSleep s.trace t.trace (s.perform d .transmit).1
        (t.perform d .transmit).1 ∧
      (t.perform d .transmit).2 = (s.perform d .transmit).2 ∧
      s.quiescent = true ∧ t.control.pending = some 1 ∧ t.deferral.holdsInterrupt = true := by
  intro d s t
  have hagree : AgreeBeyondRest Script.EqualButSleep s t := by
    constructor
    case chip => exact ⟨⟨3, "busy"⟩, rfl⟩
    all_goals rfl
  have hmode : Mode.transmit ≠ .calibrate := by decide
  obtain ⟨hnext, hresult⟩ := (rest_forgets .stated hmode).1 s t hagree
  exact ⟨hnext, hresult, rfl, rfl, rfl⟩

end System

end Transceiver
