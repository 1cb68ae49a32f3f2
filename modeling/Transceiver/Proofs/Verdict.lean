import Transceiver.Proofs.FrameLength
import Transceiver.Proofs.Interpretation

/-!
The verdict of the driver on an interrupt, and what the controller makes of it.

The driver is handed the interrupt that was accepted last, time and lines. It may change what it
likes of the chip, the board and the frame, and then it says whether the operation is over. If it
is, the radio is brought to rest whatever the driver has done to the board, and the completion is
posted after that. If more interrupts are to come, the board is left to the driver, and all that the
controller adds is the watchdog that the driver asks for. The frame is touched in neither case, and
in both of them the next interrupt can be captured.
-/

namespace Transceiver.System

variable {σ ε : Type} {d : Driver σ ε}

/-! ### The last capture -/

/-- The capture that is noted in the control record. -/
def noted (s : System σ) : Option (Ticks × UInt8) :=
  s.control.pending.map (s.control.capturedAt, ·)

theorem noted_of_pending_none {s : System σ} (h : s.control.pending = none) : s.noted = none := by
  rw [noted, h]
  rfl

/-- What is noted after some captures is the last of them, or what was noted before if there is
none, unless it has been forgotten. -/
def NotesLast (s : System σ) (captures : List (Ticks × UInt8)) (t : System σ) : Prop :=
  t.noted = none ∨ t.noted = captures.getLast?.or s.noted

theorem NotesLast.trans {s t u : System σ} {front back : List (Ticks × UInt8)}
    (hst : NotesLast s front t) (htu : NotesLast t back u) : NotesLast s (front ++ back) u := by
  rcases htu with hnone | hlast
  · exact .inl hnone
  rw [NotesLast, List.getLast?_append]
  cases hback : back.getLast? with
  | some capture =>
      rw [hback] at hlast
      exact .inr hlast
  | none =>
      rw [hback] at hlast
      rcases hst with hnone | hfront
      · exact .inl (hlast.trans hnone)
      · exact .inr (hlast.trans hfront)

theorem notesLast_step (s : System σ) (d : Driver σ ε) (step : Step σ) :
    NotesLast s (captured d s step) (s.step d step).1 := by
  have hother : (∀ mode, step = .perform mode → mode = .calibrate) →
      (∀ lines time, step ≠ .capture lines time) → captured d s step = [] →
      NotesLast s (captured d s step) (s.step d step).1 := by
    intro hrequest hcapture hnone
    rw [hnone]
    rcases onlyForgets_step s d hrequest hcapture with hsame | hforgotten
    · exact .inr (by rw [noted, hsame]; rfl)
    · exact .inl (noted_of_pending_none (by rw [hforgotten]))
  cases step with
  | perform mode =>
      by_cases hmode : mode = .calibrate
      · exact hother (by simp [hmode]) (by simp) rfl
      · rw [step_perform]
        exact .inl (noted_of_pending_none (perform_spec s d hmode).2.pending)
  | capture lines time =>
      cases hp : s.control.pending with
      | none =>
          rw [captured_of_done (capture_done_iff.mpr hp), step_capture_of_none hp]
          exact .inr rfl
      | some waiting =>
          rw [captured_of_overrun (capture_overrun_iff.mpr ⟨waiting, hp, rfl⟩),
            step_capture_of_pending hp]
          exact .inr rfl
  | _ => exact hother (by simp) (by simp) rfl

/-- Lines that are pending are those of the last interrupt that was accepted, and so is the time. -/
theorem getLast?_accepted {s : System σ} (hnew : s.control.pending = none) {steps : List (Step σ)}
    {lines : UInt8} (h : (s.run d steps).control.pending = some lines) :
    (accepted d s steps).getLast? = some ((s.run d steps).control.capturedAt, lines) := by
  have hlast : NotesLast s (accepted d s steps) (s.run d steps) :=
    run_yielded (fun _ => .inr rfl) .trans (fun s step => notesLast_step s d step) s steps
  rw [NotesLast, noted_of_pending_none hnew, noted, h, Option.or_none] at hlast
  rcases hlast with hnone | hlast
  · cases hnone
  · exact hlast.symm

/-! ### Verdicts -/

/-- The operation is over: its completion is posted and the radio is at rest, also on a board on
which the driver has unmasked lines. -/
structure Ended (s : System σ) (d : Driver σ ε) (found : Interpretation σ) (t : System σ) :
    Prop where
  concluded : Concluded s t
  mac : t.deferral.agenda.mac = some s.exchange.completion
  chip : t.chip = (d.sleep found.chip).1
  board : t.board = (s.board.after found.orders).rested

/-- The operation goes on as the driver has left it, under a new watchdog or none. -/
structure Continued (s : System σ) (found : Interpretation σ) (rearm : Option Ticks)
    (t : System σ) : Prop where
  waiting : Waiting s rearm t
  mac : t.deferral.agenda.mac = s.deferral.agenda.mac
  chip : t.chip = found.chip
  board : t.board = s.board.after found.orders
  agenda : rearm = none → t.deferral.agenda = s.deferral.agenda

/-- What was captured at `time` on `lines` has been interpreted, and the verdict on it is carried
out. -/
structure Interpreted (s : System σ) (d : Driver σ ε) (time : Ticks) (lines : UInt8)
    (found : Interpretation σ) (t : System σ) : Prop where
  log : Logged s
    (shieldCalls ++ (routineCalls (.interpret time lines) found.acts ++
      (verdictCalls s.exchange.completion found.status ++ shieldCalls))) t
  once : interpretedSince s t = [(time, lines)]
  resets : (callsSince s t).filterMap Call.reset? = []
  posts : (callsSince s t).filterMap Call.completion? =
    if found.status = .complete then [s.exchange.completion] else []
  exchange : t.exchange = s.exchange.edits found.edits
  control : t.control = { s.control with pending := none }
  reopened : ∀ later stated, (t.step d (.capture later stated)).2 = .done
  verdict :
    match found.status with
    | .complete => Ended s d found t
    | .pending rearm => Continued s found rearm t

theorem resets_verdictCalls (completion : CompletionId) (status : Status) :
    (verdictCalls completion status).filterMap Call.reset? = [] := by
  rcases status with _ | _ | deadline <;> rfl

theorem posts_verdictCalls (completion : CompletionId) (status : Status) :
    (verdictCalls completion status).filterMap Call.completion? =
      if status = .complete then [completion] else [] := by
  rcases status with _ | _ | deadline <;> rfl

theorem found_shielded_take (s : System σ) (d : Driver σ ε) (job : RadioJob) :
    (s.shielded (·.take job)).found d = s.found d := by
  rw [shielded_take_eq]
  rfl

/-- An interrupt job in its place concludes the operation or waits, as the driver answers. -/
theorem concluded_or_waiting {s : System σ} (hholds : s.deferral.holds .interrupt = true) :
    match (s.found d).status with
    | .complete => Concluded s (s.dispatch d .interrupt)
    | .pending rearm => Waiting s rearm (s.dispatch d .interrupt) := by
  have hspec := dispatch_spec s d .interrupt
  generalize s.dispatch d .interrupt = t at hspec ⊢
  cases hspec with
  | stale hstale => cases hholds.symm.trans hstale
  | completed _ hstatus hend _ => rwa [hstatus]
  | waits _ hstatus hwaiting => rwa [hstatus]

theorem dispatch_of_complete {s : System σ} (hholds : s.deferral.holds .interrupt = true)
    (hstatus : (s.found d).status = .complete) :
    s.dispatch d .interrupt =
      (((s.shielded (·.take .interrupt)).heard d).quiesce d).complete.shielded
        (·.notePending none) := by
  rw [dispatch_interrupt hholds, interpret_eq, found_shielded_take, hstatus]

theorem dispatch_of_pending {s : System σ} {rearm : Option Ticks}
    (hholds : s.deferral.holds .interrupt = true) (hstatus : (s.found d).status = .pending rearm) :
    s.dispatch d .interrupt =
      (rearm.elim ((s.shielded (·.take .interrupt)).heard d)
        ((s.shielded (·.take .interrupt)).heard d).arm).shielded (·.notePending none) := by
  rw [dispatch_interrupt hholds, interpret_eq, found_shielded_take, hstatus]
  cases rearm <;> rfl

theorem ended_of_complete {s : System σ} (hholds : s.deferral.holds .interrupt = true)
    (hstatus : (s.found d).status = .complete) :
    Ended s d (s.found d) (s.dispatch d .interrupt) := by
  have hconcluded := concluded_or_waiting (d := d) hholds
  rw [hstatus] at hconcluded
  have heq := dispatch_of_complete hholds hstatus
  rw [shielded_take_eq, heard_eq, quiesce_eq, shielded_notePending_eq] at heq
  constructor
  case concluded => exact hconcluded
  all_goals rw [heq]
  case mac => exact congrArg some (Exchange.completion_edits _ _)
  case chip => rfl
  case board => rfl

theorem continued_of_pending {s : System σ} {rearm : Option Ticks}
    (hholds : s.deferral.holds .interrupt = true) (hstatus : (s.found d).status = .pending rearm) :
    Continued s (s.found d) rearm (s.dispatch d .interrupt) := by
  have hwaiting := concluded_or_waiting (d := d) hholds
  rw [hstatus] at hwaiting
  have heq := dispatch_of_pending hholds hstatus
  rw [shielded_take_eq, heard_eq, shielded_notePending_eq] at heq
  have hagenda : (s.deferral.take .interrupt).agenda = s.deferral.agenda := Deferral.take_agenda _ _
  cases rearm with
  | none =>
      constructor
      case waiting => exact hwaiting
      all_goals rw [heq]
      case mac => exact congrArg Agenda.mac hagenda
      case chip => rfl
      case board => rfl
      case agenda => exact fun _ => hagenda
  | some deadline =>
      rw [Option.elim_some, arm_eq] at heq
      constructor
      case waiting => exact hwaiting
      case agenda => exact nofun
      all_goals rw [heq]
      case mac => exact (Deferral.write_mac _ _).trans (congrArg Agenda.mac hagenda)
      case chip => rfl
      case board => rfl

theorem interpreted_dispatch {s : System σ} {lines : UInt8}
    (hlines : s.control.pending = some lines) (hholds : s.deferral.holds .interrupt = true) :
    Interpreted s d s.control.capturedAt lines
      (d.interpret s.control.capturedAt lines s.exchange s.chip) (s.dispatch d .interrupt) := by
  have hfound : d.interpret s.control.capturedAt lines s.exchange s.chip = s.found d := by
    rw [found, hlines]
    rfl
  have hcompletion : (s.heard d).exchange.completion = s.exchange.completion := by
    rw [heard_eq]
    exact Exchange.completion_edits _ _
  have hlog := logged_dispatch_interrupt hholds d
  rw [hfound]
  constructor
  case log =>
      rw [interpretCalls, hcompletion, hlines] at hlog
      exact hlog
  case once =>
      rw [interpretedSince_eq hlog.trace, interpretations_append, interpretations_interpretCalls,
        hlines]
      rfl
  case resets =>
      rw [callsSince_eq hlog.trace, List.filterMap_append,
        filterMap_interpretCalls Act.reset?_call, resets_verdictCalls]
      rfl
  case posts =>
      rw [callsSince_eq hlog.trace, List.filterMap_append,
        filterMap_interpretCalls Act.completion?_call, posts_verdictCalls, hcompletion]
      rfl
  case exchange => rw [exchange_dispatch, jobEdits, if_pos hholds]
  case control => rw [control_dispatch, if_pos hholds]
  case reopened =>
      intro later stated
      rw [capture_done_iff, pending_dispatch, if_pos hholds]
  case verdict =>
      cases hstatus : (s.found d).status with
      | complete => exact ended_of_complete hholds hstatus
      | pending rearm => exact continued_of_pending hholds hstatus

/-- Whenever the cell of a controller holds the interrupt job, running the job has the driver
interpret the interrupt that was accepted last, once, and carries out the verdict. -/
theorem verdict_carried_out {s₀ : System σ} (hcontrol : s₀.control = {})
    (hheld : s₀.deferral.held = none) {steps : List (Step σ)}
    (hholds : (s₀.run d steps).deferral.holds .interrupt = true) :
    let s := s₀.run d steps
    ∃ lines, s.control.pending = some lines ∧
      (accepted d s₀ steps).getLast? = some (s.control.capturedAt, lines) ∧
      Interpreted s d s.control.capturedAt lines
        (d.interpret s.control.capturedAt lines s.exchange s.chip) (s.dispatch d .interrupt) := by
  intro s
  have hpaired : Paired s := paired_run (paired_of_new hcontrol hheld) d steps
  obtain ⟨lines, hlines, -⟩ := waiting_of_holds hpaired hholds
  have hnew : s₀.control.pending = none := by rw [hcontrol]
  exact ⟨lines, hlines, getLast?_accepted hnew hlines, interpreted_dispatch hlines hholds⟩

/-- A preamble is heard and a frame follows. As the driver hands over the frame it unmasks all
lines, and yet they are masked in the end. -/
theorem frame_after_preamble :
    let d := Device.stated.driver
    let s₀ := bench [{ status := .pending (some 400) },
      { status := .complete, received := some [9, 8], length := some 2, lines := some 7 }]
    let steps : List (Step Script) := [.perform .receive, .capture 1 (some 10),
      .dispatch .interrupt false, .capture 4 (some 20)]
    let s := s₀.run d steps
    let found := d.interpret 20 4 s.exchange s.chip
    let t := s.dispatch d .interrupt
    found.orders = [.unmask 7] ∧ Interpreted s d 20 4 found t ∧ Ended s d found t ∧
      t.board.mask = 0 ∧ t.exchange.frame.size = 2 := by
  intro d s₀ steps s found t
  have hholds : s.deferral.holds .interrupt = true := by decide
  have hpending : s.control.pending = some 4 := by decide
  have hcaptured : s.control.capturedAt = 20 := by decide
  obtain ⟨lines, hlines, -, hinterpreted⟩ := verdict_carried_out rfl rfl hholds
  cases hpending.symm.trans hlines
  rw [hcaptured] at hinterpreted
  have hended : Ended s d found t := hinterpreted.verdict
  refine ⟨by decide, hinterpreted, hended, ?_, ?_⟩
  · rw [hended.board]
    rfl
  · rw [hinterpreted.exchange, Exchange.size_edits]
    decide

end Transceiver.System
