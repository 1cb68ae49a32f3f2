import Transceiver.Proofs.Capture

/-!
Overruns: when an interrupt is refused.

An interrupt that comes while another waits for its interpretation cannot be noted, and there is
nobody to whom that could be reported. So it matters that a capture does not outlive the operation
it belongs to. The note of a capture is read off the history of a run: it is made by an accepted
interrupt, and it is undone by a request, a calibration excepted, and by any job that finds its
place. Nothing else touches it. A stale job leaves it, and so does a watchdog that is armed over the
interrupt job, since the watchdog will find its place later.
-/

namespace Transceiver.System

variable {σ ε : Type}

/-- Steps after which no interrupt is refused: a request that is no calibration, and a job that
finds its place in the cell. -/
def Reopens (s : System σ) : Step σ → Prop
  | .perform mode => mode ≠ .calibrate
  | .dispatch job _ => s.deferral.holds job = true
  | _ => False

/-- Lines that wait for their interpretation were captured by the step, or they waited before it and
the step has not reopened the radio. -/
theorem pending_step_iff {d : Driver σ ε} {s : System σ} {step : Step σ} (hstep : step ≠ .drain)
    (waiting : UInt8) :
    (s.step d step).1.control.pending = some waiting ↔
      (s.control.pending = none ∧ ∃ time, step = .capture waiting time) ∨
        s.control.pending = some waiting ∧ ¬ Reopens s step := by
  cases step with
  | drain => exact absurd rfl hstep
  | perform mode =>
      rw [step_perform]
      by_cases hmode : mode = .calibrate
      · subst hmode
        simp [perform, restart_eq, Reopens]
      · have hclear := (perform_spec s d hmode).2.pending
        simp [hclear, Reopens, hmode]
  | capture lines time =>
      cases hp : s.control.pending with
      | none => simp [step_capture_of_none hp, Reopens]
      | some before => simp [step_capture_of_pending hp, hp, Reopens]
  | dispatch job guarded =>
      show ((if guarded then s.order .disable else s).dispatch d job).control.pending = _ ↔ _
      rw [pending_dispatch]
      cases guarded <;> by_cases hholds : s.deferral.holds job = true <;>
        simp [Reopens, order, hholds]
  | dequeue =>
      rcases step_dequeue s d with h | h <;> simp [h, Reopens, unschedule]
  | arm deadline => simp [step, arm_eq, Reopens]
  | order c | advance ticks | setClock now | update u | adjust f =>
      simp [step, Reopens, order, setClock]

/-- In every run of a new controller, the interrupt job has a capture to interpret, and a capture
that waits has a job in the cell that will make room for the next one. An interrupt is refused if
and only if an earlier one was accepted and the radio has not been reopened since, and then the
refusal changes nothing. A drain is given as the jobs that it consists of. -/
theorem overrun_iff_not_reopened {d : Driver σ ε} {s : System σ} (hcontrol : s.control = {})
    (hheld : s.deferral.held = none) {steps : List (Step σ)} (hsteps : .drain ∉ steps) :
    let t := s.run d steps
    Paired t ∧
      (t.control.pending ≠ none → ∃ job, t.deferral.holds job = true ∧
        (t.dispatch d job).control.pending = none) ∧
      ∀ lines time,
        ((∃ o, (t.step d (.capture lines time)).2 = .overrun o) ↔
          ∃ before waiting moment after, steps = before ++ .capture waiting moment :: after ∧
            ((s.run d before).step d (.capture waiting moment)).2 = .done ∧
            Admissible d (fun s step => ¬ Reopens s step)
              ((s.run d before).step d (.capture waiting moment)).1 after) ∧
        ∀ o, (t.step d (.capture lines time)).2 = .overrun o →
          (t.step d (.capture lines time)).1 = t := by
  intro t
  have hpaired : Paired t := paired_run (paired_of_new hcontrol hheld) d steps
  refine ⟨hpaired, fun hwaits => ?_, fun lines time => ⟨?_, fun o hover => ?_⟩⟩
  · obtain ⟨a, ha⟩ := Option.ne_none_iff_exists'.mp (hpaired.held hwaits)
    have hholds : t.deferral.holds a.kind = true := by simp [Deferral.holds, ha]
    exact ⟨a.kind, hholds, by simp [pending_dispatch, hholds]⟩
  · have hjobs : Admissible d (fun _ step => step ≠ .drain) s steps :=
      admissible_of_forall_mem fun step hstep _ heq => hsteps (heq ▸ hstep)
    have hsince := fun waiting =>
      run_since_iff (P := fun s => s.control.pending = some waiting)
        (fun _ _ hstep => pending_step_iff hstep waiting) hjobs
    have hnew : ∀ waiting, s.control.pending ≠ some waiting := by simp [hcontrol]
    simp only [capture_overrun_iff, capture_done_iff]
    constructor
    · rintro ⟨-, waiting, hp, -⟩
      rcases (hsince waiting).mp hp with
        ⟨hs, -⟩ | ⟨before, _, after, rfl, ⟨hnone, moment, rfl⟩, hrest⟩
      · exact absurd hs (hnew waiting)
      · exact ⟨before, waiting, moment, after, rfl, hnone, hrest⟩
    · rintro ⟨before, waiting, moment, after, rfl, hnone, hrest⟩
      have hp := (hsince waiting).mpr (.inr ⟨before, _, after, rfl, ⟨hnone, moment, rfl⟩, hrest⟩)
      exact ⟨_, waiting, hp, rfl⟩
  · obtain ⟨waiting, hp, -⟩ := capture_overrun_iff.mp hover
    exact step_capture_of_pending hp d lines time

/-- A watchdog is armed over the interrupt job, and neither the stale job nor a calibration makes
room: the next interrupt is refused and leaves everything as it is. -/
theorem second_interrupt_refused :
    let d := Device.stated.driver
    let t := (bench []).run d [.perform .receive, .capture 1 none, .arm 9000,
      .dispatch .interrupt false, .perform .calibrate]
    (∃ o, (t.step d (.capture 4 none)).2 = .overrun o) ∧ (t.step d (.capture 4 none)).1 = t ∧
      ∃ job, t.deferral.holds job = true ∧ (t.dispatch d job).control.pending = none := by
  intro d t
  have hsteps : .drain ∉ [.perform .receive, .capture 1 none, .arm 9000,
      .dispatch .interrupt false, (.perform .calibrate : Step Script)] := by simp
  obtain ⟨-, hroom, hoverrun⟩ :=
    overrun_iff_not_reopened (d := d) (s := bench []) rfl rfl hsteps
  obtain ⟨hiff, hkept⟩ := hoverrun 4 none
  have hstale : ¬ ((bench []).run d [.perform .receive, .capture 1 none, .arm 9000]).deferral.holds
      .interrupt = true := by decide
  have hrefused : ∃ o, (t.step d (.capture 4 none)).2 = .overrun o :=
    hiff.mpr ⟨[.perform .receive], 1, none, _, rfl, rfl, id, hstale, fun hne => hne rfl, trivial⟩
  obtain ⟨o, ho⟩ := hrefused
  exact ⟨⟨o, ho⟩, hkept o ho, hroom (by decide)⟩

end Transceiver.System
