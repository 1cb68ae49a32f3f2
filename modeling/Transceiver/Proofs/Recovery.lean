import Transceiver.Proofs.Capture
import Transceiver.Proofs.FrameLength
import Transceiver.Proofs.Grant

/-!
Recovery: what becomes of an operation that is overdue.

A recovery resets the chip if the radio was sending, and for that it relies on a note which some
requests write before the driver has agreed to them, some after it, and some not at all. For the
four modes that end with a completion the note is right once the request is granted. From then on
nobody touches it: a calibration, an interrupt, a job, stale or in its place, and a watchdog armed
anew leave it as it is. So whatever happens between a request and the moment at which its watchdog
is run, the chip is reset if and only if the request was for a transmission.

A recovery cannot fail. It goes through the same stages whether or not the chip can be put to sleep
and be reset, since no stage looks at the outcome of the one before.
-/

namespace Transceiver

/-- Of the modes that end with a completion, only one sends. -/
theorem Mode.notes?_of_completes {mode : Mode} (h : mode.completes = true) :
    mode.notes? = some (decide (mode = .transmit)) := by
  cases mode <;> first | rfl | cases h

namespace System

variable {σ ε : Type} {d : Driver σ ε}

/-! ### The note about sending -/

theorem sending_of_granted {s : System σ} {mode : Mode} (hmode : mode.completes = true)
    (hok : (s.perform d mode).2 = .ok ()) :
    (s.perform d mode).1.control.sending = decide (mode = .transmit) := by
  have hne : mode ≠ .calibrate := by
    rintro rfl
    cases hmode
  obtain ⟨calls, heq⟩ := perform_of_granted hne ((perform_spec s d hne).1.symm.trans hok)
  rw [heq, Mode.notes?_of_completes hmode]
  rfl

theorem sending_step (s : System σ) (d : Driver σ ε) {step : Step σ}
    (h : ∀ mode, step = .perform mode → mode = .calibrate) :
    (s.step d step).1.control.sending = s.control.sending := by
  by_cases hcapture : ∃ lines time, step = .capture lines time
  · obtain ⟨lines, time, rfl⟩ := hcapture
    cases hp : s.control.pending with
    | some waiting => rw [step_capture_of_pending hp]
    | none => rw [step_capture_of_none hp]
  · have hforgets := onlyForgets_step s d h fun lines time heq => hcapture ⟨lines, time, heq⟩
    rcases hforgets with heq | heq <;> rw [heq]

/-- The note lasts until the next request. -/
theorem sending_run (s : System σ) (d : Driver σ ε) {steps : List (Step σ)}
    (h : ∀ mode, .perform mode ∈ steps → mode = .calibrate) :
    (s.run d steps).control.sending = s.control.sending := by
  have hallowed : Admissible d (fun _ step => ∀ mode, step = .perform mode → mode = .calibrate)
      s steps :=
    admissible_of_forall_mem fun step hstep _ mode heq => h mode (heq ▸ hstep)
  exact run_related (R := fun s t => t.control.sending = s.control.sending) (fun _ => rfl)
    (fun hst htu => htu.trans hst) (fun s _ hstep => sending_step s d hstep) hallowed

/-! ### The stages of a recovery -/

/-- The calls by which an operation of the mode is given up: the radio is brought to rest, and reset
if it was sending, before the interrupts are enabled. -/
def releaseCalls (s : System σ) (d : Driver σ ε) (mode : Mode) : List Call :=
  shieldCalls ++ quiesceCalls ++
    (if mode = .transmit then
      routineCalls (.reset true s.exchange) (d.reset true s.exchange (d.sleep s.chip).1).acts
    else []) ++
    [.board .enable]

/-- An operation of the mode has been given up. -/
structure Recovered (s : System σ) (d : Driver σ ε) (mode : Mode) (t : System σ) : Prop where
  /-- Once the interrupts are enabled, and not before, the frame is emptied and the completion
  posted. -/
  stages : ∃ released : System σ, Logged s (s.releaseCalls d mode) released ∧
    released.exchange = s.exchange ∧ released.completions = s.completions ∧
    t = (released.editFrame (.setLength 0)).complete
  /-- The calls from beginning to end. -/
  log : Logged s (s.releaseCalls d mode ++ reportCalls s.exchange.completion) t
  resets : (callsSince s t).filterMap Call.reset? = if mode = .transmit then [true] else []
  posts : (callsSince s t).filterMap Call.completion? = [s.exchange.completion]
  concluded : Concluded s t
  mac : t.deferral.agenda.mac = some s.exchange.completion
  board : (mode = .transmit → (d.reset true s.exchange (d.sleep s.chip).1).orders = []) →
    t.board = { s.board.rested with depth := s.board.depth - 1 }
  size : t.exchange.frame.size = 0
  operation : t.exchange.operation = s.exchange.operation
  capturedAt : t.control.capturedAt = s.control.capturedAt
  sending : t.control.sending = s.control.sending

theorem releaseCalls_eq {s : System σ} {mode : Mode}
    (h : s.control.sending = decide (mode = .transmit)) (d : Driver σ ε) :
    s.releaseCalls d mode = shieldCalls ++ (s.recoverCalls d ++ [.board .enable]) := by
  simp [releaseCalls, recoverCalls, h]

theorem resets_recoverCalls (s : System σ) (d : Driver σ ε) :
    (s.recoverCalls d).filterMap Call.reset? = if s.control.sending then [true] else [] := by
  rw [filterMap_recoverCalls Act.reset?_call]
  rfl

theorem posts_recoverCalls (s : System σ) (d : Driver σ ε) :
    (s.recoverCalls d).filterMap Call.completion? = [] := by
  rw [filterMap_recoverCalls Act.completion?_call]
  split <;> rfl

theorem mac_dispatch_watchdog {s : System σ} (hholds : s.deferral.holds .watchdog = true)
    (d : Driver σ ε) :
    (s.dispatch d .watchdog).deferral.agenda.mac = some s.exchange.completion := by
  rw [dispatch_watchdog hholds, recover_eq_report, released_eq, shielded_take_eq]
  rfl

theorem recovered_dispatch {s : System σ} {mode : Mode}
    (hsending : s.control.sending = decide (mode = .transmit))
    (hholds : s.deferral.holds .watchdog = true) :
    Recovered s d mode (s.dispatch d .watchdog) := by
  have hlog := logged_dispatch_watchdog hholds d
  have hexchange : (s.dispatch d .watchdog).exchange = s.exchange.edits [.setLength 0] := by
    rw [exchange_dispatch, jobEdits, if_pos hholds]
  have hend : s.dispatch d .watchdog =
      (((s.shielded (·.take .watchdog)).released d).editFrame (.setLength 0)).complete := by
    rw [dispatch_watchdog hholds, recover_eq_report]
  -- Taking the job out of the cell hides nothing from the recovery.
  have hcalls : (s.shielded (·.take .watchdog)).recoverCalls d = s.recoverCalls d := by
    simp [recoverCalls, shielded_take_eq]
  constructor
  case stages =>
      refine ⟨(s.shielded (·.take .watchdog)).released d, ?_, ?_, ?_, hend⟩
      · have hreleased := (logged_shielded_take s .watchdog).trans (logged_released _ d)
        rwa [hcalls, ← releaseCalls_eq hsending] at hreleased
      · rw [released_eq, shielded_take_eq]
      · simp [released_eq, shielded_take_eq, completions]
  case log => simpa [releaseCalls_eq hsending] using hlog
  case resets =>
      rw [callsSince_eq hlog.trace, List.filterMap_append, List.filterMap_append,
        resets_recoverCalls, hsending]
      by_cases hmode : mode = .transmit
      · subst hmode
        rfl
      · simp only [hmode, decide_false]
        rfl
  case posts =>
      rw [callsSince_eq hlog.trace, List.filterMap_append, List.filterMap_append,
        posts_recoverCalls]
      rfl
  case concluded =>
      rw [hend, released_eq, shielded_take_eq]
      constructor <;> simp [editFrame, complete, AgendaCall.apply, scheduled, System.completions]
  case mac => exact mac_dispatch_watchdog hholds d
  case board =>
      intro hquiet
      have horders : (if s.control.sending then
          (d.reset true s.exchange (d.sleep s.chip).1).orders else []) = [] := by
        by_cases hmode : mode = .transmit <;> simp [hsending, hmode, hquiet]
      rw [hend, released_eq, shielded_take_eq]
      simp only [editFrame, complete, horders]
      rfl
  case size =>
      rw [hexchange, Exchange.size_edits]
      simp [FrameEdit.length]
  case operation => rw [hexchange, Exchange.operation_edits]
  case capturedAt => rw [control_dispatch]
  case sending => rw [control_dispatch]

/-- A watchdog that is run after any number of interrupts, jobs, re-armings and calibrations gives
up the operation that was requested before them, in order and to the end. -/
theorem overdue_recovered {s : System σ} {before after : List (Step σ)} {mode : Mode}
    (hmode : mode.completes = true) (hok : ((s.run d before).perform d mode).2 = .ok ())
    (hafter : ∀ later, .perform later ∈ after → later = .calibrate)
    (hholds : (s.run d (before ++ .perform mode :: after)).deferral.holds .watchdog = true) :
    Recovered (s.run d (before ++ .perform mode :: after)) d mode
      ((s.run d (before ++ .perform mode :: after)).dispatch d .watchdog) := by
  refine recovered_dispatch ?_ hholds
  rw [run_append, run_cons, sending_run _ d hafter, step_perform]
  exact sending_of_granted hmode hok

/-- A transmission takes an interrupt and waits on, while the chip stops obeying and the MAC layer
registers another job. Its watchdog is taken out at last, and that job is told that nothing came. -/
theorem stuck_transmission_recovered :
    let d := Device.stated.driver
    let after : List (Step Script) :=
      [.adjust fun chip => { chip with sleep := ⟨9, "busy"⟩, reset := ⟨9, "no answer"⟩ },
        .capture 1 none, .dispatch .watchdog true, .dispatch .interrupt false,
        .perform .calibrate, .update (.register 7), .setClock 6000, .dequeue, .order .disable]
    let s := (bench [{ status := .pending (some 5000) }]).run d
      ([.update (.load [1, 2, 3]), .perform .receive] ++ .perform .transmit :: after)
    let t := s.dispatch d .watchdog
    s.exchange.frame.size = 3 ∧ Recovered s d .transmit t ∧
      (callsSince s t).filterMap Call.reset? = [true] ∧
      (callsSince s t).filterMap Call.completion? = [7] ∧
      t.board = { depth := 0, mask := 0, antenna := .off, oscillator := false } ∧
      t.exchange.frame.size = 0 := by
  intro d after s t
  have hafter : ∀ later, .perform later ∈ after → later = .calibrate := by simp [after]
  have hrecovered : Recovered s d .transmit t := overdue_recovered rfl rfl hafter (by decide)
  have hcompletion : s.exchange.completion = 7 := by decide
  have hdepth : s.board.depth = 1 := by decide
  have hquiet : ∀ x chip, (d.reset true x chip).orders = [] := fun _ _ => rfl
  refine ⟨by decide, hrecovered, hrecovered.resets, ?_, ?_, hrecovered.size⟩
  · rw [hrecovered.posts, hcompletion]
  · rw [hrecovered.board fun _ => hquiet _ _, hdepth]
    rfl

end System

end Transceiver
