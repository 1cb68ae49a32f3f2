import Transceiver.Proofs.Shielding

/-!
A request that the driver turns down leaves a radio at rest.

The modes order their effects differently around the driver's answer: a detection is given its
watchdog before it starts, a scan and a detection note before it that nothing is sent, a
transmission and a receive do all that after it. A driver may have unmasked lines and switched the
antenna before it finds that it cannot start, and what the last operation deferred or left pending
may still be there. `perform_of_refused` gives the one system in which all of this ends: only the
note about sending tells how far the request came.

A calibration is a bare call of the driver, so what it leaves behind is what the driver did.
-/

namespace Transceiver

/-- A board differs from an earlier one only in parts that some order addresses. -/
structure Board.Spared (orders : List BoardCall) (b b' : Board) : Prop where
  depth : (∀ c ∈ orders, c ≠ .disable ∧ c ≠ .enable) → b'.depth = b.depth
  mask : (∀ lines, .unmask lines ∉ orders) → b'.mask = b.mask
  antenna : (∀ position, .antenna position ∉ orders) → b'.antenna = b.antenna
  oscillator : (∀ on, .oscillator on ∉ orders) → b'.oscillator = b.oscillator

theorem Board.spared_after (b : Board) (orders : List BoardCall) :
    Spared orders b (b.after orders) where
  depth h := depth_after_of_forall b h
  mask h := by
    refine after_preserves mask (fun c hc b => ?_) b
    cases c with
    | unmask lines => exact absurd hc (h lines)
    | _ => rfl
  antenna h := by
    refine after_preserves antenna (fun c hc b => ?_) b
    cases c with
    | antenna position => exact absurd hc (h position)
    | _ => rfl
  oscillator h := by
    refine after_preserves oscillator (fun c hc b => ?_) b
    cases c with
    | oscillator on => exact absurd hc (h on)
    | _ => rfl

/-- Whether a request notes that nothing is sent before the driver is asked. -/
def Mode.notesAhead : Mode → Bool
  | scan | detect => true
  | _ => false

/-- What the driver answers to a request. It finds the chip as it is if it is to calibrate it, and
asleep otherwise. -/
def Driver.answer {σ ε : Type} (d : Driver σ ε) (mode : Mode) (x : Exchange) (chip : σ) :
    Reply σ ε :=
  match mode with
  | .calibrate => d.reset true x chip
  | mode => d.attempt mode x (d.sleep chip).1

theorem Driver.answer_of_ne {σ ε : Type} (d : Driver σ ε) {mode : Mode} (h : mode ≠ .calibrate)
    (x : Exchange) (chip : σ) : d.answer mode x chip = d.attempt mode x (d.sleep chip).1 := by
  cases mode with
  | calibrate => exact absurd rfl h
  | _ => rfl

namespace System

variable {σ ε : Type}

theorem perform_eq_answer (s : System σ) (d : Driver σ ε) (mode : Mode) :
    (s.perform d mode).2 = (d.answer mode s.exchange s.chip).outcome := by
  by_cases h : mode = .calibrate
  · subst h
    rfl
  · rw [d.answer_of_ne h]
    exact (perform_spec s d h).1

/-- What is left of a request that is turned down. The radio is brought to rest twice: the second
time it undoes what the driver did to the board, and the watchdog of a detection. -/
theorem perform_of_refused {s : System σ} {d : Driver σ ε} {mode : Mode} {e : ε}
    (hmode : mode ≠ .calibrate)
    (h : (d.attempt mode s.exchange (d.sleep s.chip).1).outcome = .error e) :
    let reply := d.attempt mode s.exchange (d.sleep s.chip).1
    ∃ calls, (s.perform d mode).1 =
      { s with
        chip := (d.sleep reply.chip).1
        board := (s.board.rested.after reply.orders).rested
        control := { s.control with
          pending := none
          sending := if mode.notesAhead then false else s.control.sending }
        deferral := s.deferral.write none
        trace := s.trace ++ calls } := by
  intro reply
  cases mode
  case calibrate => exact absurd rfl hmode
  case stop => cases h
  all_goals
    simp only [Driver.attempt, Mode.activity?] at h
    rw [perform, launch_of_error
      (by simpa [quiesce_eq, noteSending, watch_eq, arm_eq, log] using h)]
    simp only [started_eq, quiesce_eq, noteSending, watch_eq, arm_eq, log, List.append_assoc,
      Deferral.write_write, Mode.notesAhead, reply, Driver.attempt, Mode.activity?]
    exact ⟨_, rfl⟩

/-- The radio is at rest after a request that was turned down, and all that does not belong to an
operation is as it was before. -/
structure RolledBack (s : System σ) (mode : Mode) (t : System σ) : Prop where
  pending : t.control.pending = none
  held : t.deferral.held = none
  scheduled : t.scheduled = none
  mask : t.board.mask = 0
  antenna : t.board.antenna = .off
  oscillator : t.board.oscillator = false
  capturedAt : t.control.capturedAt = s.control.capturedAt
  sending : t.control.sending = if mode.notesAhead then false else s.control.sending
  exchange : t.exchange = s.exchange
  clock : t.clock = s.clock
  mac : t.deferral.agenda.mac = s.deferral.agenda.mac
  completions : t.completions = s.completions

theorem rolledBack_of_refused {s : System σ} {d : Driver σ ε} {mode : Mode} {e : ε}
    (hmode : mode ≠ .calibrate)
    (h : (d.attempt mode s.exchange (d.sleep s.chip).1).outcome = .error e) :
    RolledBack s mode (s.perform d mode).1 := by
  obtain ⟨calls, heq⟩ := perform_of_refused hmode h
  rw [heq]
  constructor <;> simp [Board.rested, scheduled, System.clock, System.completions]

/-- A driver that ends its orders at the depth at which it began them passes the depth on. -/
theorem depth_of_refused {s : System σ} {d : Driver σ ε} {mode : Mode} {e : ε}
    (hmode : mode ≠ .calibrate)
    (h : (d.attempt mode s.exchange (d.sleep s.chip).1).outcome = .error e)
    (hneutral : ∀ b : Board,
      (b.after (d.attempt mode s.exchange (d.sleep s.chip).1).orders).depth = b.depth) :
    (s.perform d mode).1.board.depth = s.board.depth := by
  obtain ⟨calls, heq⟩ := perform_of_refused hmode h
  rw [heq]
  exact hneutral s.board.rested

/-- A request fails exactly when the driver turns it down, with the driver's error, and never
because the chip cannot be put to sleep. It then leaves a radio at rest, or, if it was to
calibrate the chip, all but what the driver touched. -/
theorem refusal_rolls_back (s : System σ) (d : Driver σ ε) (mode : Mode) :
    let reply := d.answer mode s.exchange s.chip
    let t := (s.perform d mode).1
    (∀ e, (s.perform d mode).2 = .error e ↔ reply.outcome = .error e) ∧
      (∀ report : σ → Except ε Unit,
        s.perform { d with sleep := fun chip => ((d.sleep chip).1, report chip) } mode =
          s.perform d mode) ∧
      ∀ e, (s.perform d mode).2 = .error e →
        (mode ≠ .calibrate →
          RolledBack s mode t ∧ ((∀ b : Board, (b.after reply.orders).depth = b.depth) →
            t.board.depth = s.board.depth)) ∧
        (mode = .calibrate → t.control = s.control ∧ t.deferral = s.deferral ∧
          t.exchange = s.exchange ∧ Board.Spared reply.orders s.board t.board) := by
  intro reply t
  have houtcome : (s.perform d mode).2 = reply.outcome := perform_eq_answer s d mode
  refine ⟨fun e => by rw [houtcome], fun report => ?_, fun e he => ⟨fun hmode => ?_, ?_⟩⟩
  · -- No routine looks at the outcome of putting the chip to sleep.
    cases mode <;> rfl
  · rw [houtcome] at he
    simp only [reply, d.answer_of_ne hmode] at he ⊢
    exact ⟨rolledBack_of_refused hmode he, depth_of_refused hmode he⟩
  · rintro rfl
    have ht : t = (s.restart d).1 := rfl
    rw [restart_eq] at ht
    rw [ht]
    exact ⟨rfl, rfl, rfl, s.board.spared_after _⟩

/-- A detection is asked for while a transmission is under way and an interrupt waits. The driver
unmasks lines and switches the antenna before it finds that it cannot start. -/
theorem refused_detection_rests :
    let d : Driver Script String :=
      { Device.stated.driver with
        start := fun _ _ chip =>
          { chip, orders := [.unmask 7, .antenna .transmit], outcome := .error "no lock" } }
    let s := (bench []).run Device.stated.driver [.perform .transmit, .capture 1 none]
    let t := (s.perform d .detect).1
    (s.perform d .detect).2 = .error "no lock" ∧ RolledBack s .detect t ∧
      t.board.depth = s.board.depth ∧ s.control.sending = true ∧ t.control.sending = false := by
  intro d s t
  obtain ⟨houtcome, -, hrest⟩ := refusal_rolls_back s d .detect
  have herror : (s.perform d .detect).2 = .error "no lock" := (houtcome _).mpr rfl
  obtain ⟨hback, hdepth⟩ := (hrest _ herror).1 (by decide)
  exact ⟨herror, hback, hdepth fun _ => rfl, rfl, hback.sending⟩

end System

end Transceiver
