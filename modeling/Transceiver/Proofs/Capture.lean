import Transceiver.Proofs.Routines
import Transceiver.Proofs.Run

/-!
Captures: an interrupt that was accepted waits together with a job.

The lines of an interrupt are noted when it is captured and forgotten when it has been interpreted,
and as long as they are noted no other interrupt is accepted. `Paired` ties the note to the cell.
The interrupt job is never deferred without lines to interpret. A note is never left behind in a
radio that has nothing deferred either, so whatever the cell holds will make room for the next
interrupt when it is run. Every step keeps both, whatever the driver answers.
-/

namespace Transceiver.System

variable {σ ε : Type}

/-- A capture that waits for its interpretation keeps the cell from being empty, and the interrupt
job in the cell has a capture to interpret. -/
structure Paired (s : System σ) : Prop where
  pending : s.deferral.held = some .interrupt → s.control.pending ≠ none
  held : s.control.pending ≠ none → s.deferral.held ≠ none

theorem Paired.of_same {s t : System σ} (h : Paired s)
    (hheld : t.deferral.held = s.deferral.held) (hpending : t.control.pending = s.control.pending) :
    Paired t := by
  constructor
  · rw [hheld, hpending]
    exact h.pending
  · rw [hheld, hpending]
    exact h.held

theorem Paired.of_clear {s : System σ} (hheld : s.deferral.held ≠ some .interrupt)
    (hpending : s.control.pending = none) : Paired s :=
  ⟨fun h => absurd h hheld, fun h => absurd hpending h⟩

theorem Concluded.paired {s t : System σ} (h : Concluded s t) : Paired t :=
  .of_clear (by simp [h.held]) h.pending

theorem Performed.paired {s t : System σ} {mode : Mode} {reply : Reply σ ε}
    (h : Performed s mode reply t) : Paired t := by
  refine .of_clear (fun hheld => ?_) h.pending
  cases hout : reply.outcome with
  | error e =>
      rw [h.held_of_error e hout] at hheld
      cases hheld
  | ok =>
      have hkind := h.held_of_ok hout
      rw [hheld] at hkind
      split at hkind <;> cases hkind

theorem paired_perform {d : Driver σ ε} {s : System σ} (h : Paired s) (mode : Mode) :
    Paired (s.perform d mode).1 := by
  by_cases hmode : mode = .calibrate
  · subst hmode
    rw [perform, restart_eq]
    exact h.of_same rfl rfl
  · exact (perform_spec s d hmode).2.paired

theorem paired_dispatch {d : Driver σ ε} {s : System σ} (h : Paired s) (job : RadioJob) :
    Paired (s.dispatch d job) := by
  have hspec := dispatch_spec s d job
  generalize s.dispatch d job = t at hspec ⊢
  cases hspec with
  | stale _ => cases job <;> exact h.of_same rfl rfl
  | completed _ _ hend _ => exact hend.paired
  | waits _ _ hwait =>
      refine .of_clear ?_ hwait.pending
      rw [hwait.held]
      simp
  | recovered _ hend => exact hend.paired

theorem control_interpret (s : System σ) (d : Driver σ ε) :
    (s.interpret d).control = { s.control with pending := none } := by
  rw [interpret_eq, shielded_notePending_eq]
  rcases (s.found d).status with _ | _ | deadline <;>
    simp [quiesce_eq, arm_eq, complete, heard_eq]

theorem control_recover (s : System σ) (d : Driver σ ε) :
    (s.recover d).control = { s.control with pending := none } := by
  rw [recover_eq]
  split <;> simp [quiesce_eq, restart_eq, order, editFrame, complete]

/-- All that a job changes in the control record is that nothing is pending any more. -/
theorem control_dispatch (s : System σ) (d : Driver σ ε) (job : RadioJob) :
    (s.dispatch d job).control =
      { s.control with
        pending := if s.deferral.holds job then none else s.control.pending } := by
  cases h : s.deferral.holds job with
  | false =>
      rw [dispatch_of_stale h]
      cases job <;> rfl
  | true =>
      cases job with
      | interrupt =>
          rw [dispatch_interrupt h, control_interpret, shielded_take_eq]
          rfl
      | watchdog =>
          rw [dispatch_watchdog h, control_recover, shielded_take_eq]
          rfl

theorem pending_dispatch (s : System σ) (d : Driver σ ε) (job : RadioJob) :
    (s.dispatch d job).control.pending =
      if s.deferral.holds job then none else s.control.pending := by
  rw [control_dispatch]

theorem paired_capture {s : System σ} (h : Paired s) (d : Driver σ ε) (lines : UInt8)
    (time : Option Ticks) : Paired (s.step d (.capture lines time)).1 := by
  cases hp : s.control.pending with
  | some waiting => rwa [step_capture_of_pending hp]
  | none =>
      rw [step_capture_of_none hp]
      constructor <;> simp

theorem paired_enter {d : Driver σ ε} {s : System σ} (h : Paired s) (job : RadioJob)
    (guarded : Bool) : Paired ((if guarded then s.order .disable else s).dispatch d job) := by
  cases guarded with
  | false => exact paired_dispatch h job
  | true =>
      have hdisable : Paired (s.order .disable) := h.of_same rfl rfl
      exact paired_dispatch hdisable job

theorem paired_step {d : Driver σ ε} {s : System σ} (h : Paired s) (step : Step σ) :
    Paired (s.step d step).1 := by
  cases step with
  | perform mode =>
      rw [step_perform]
      exact paired_perform h mode
  | capture lines time => exact paired_capture h d lines time
  | dispatch job guarded => exact paired_enter h job guarded
  | drain =>
      have hdrain : Paired (s.drain d).2 :=
        drain_invariant (I := Paired) (fun _ hs => hs.of_same rfl rfl)
          (fun _ entry hs => paired_enter hs entry.job entry.guarded) h
      exact hdrain.of_same rfl rfl
  | dequeue =>
      rcases step_dequeue s d with heq | heq <;> rw [heq]
      · exact h
      · exact h.of_same rfl rfl
  | arm deadline =>
      refine ⟨fun hheld => ?_, fun _ => ?_⟩ <;> simp_all [step, arm_eq]
  | order c | advance ticks | setClock now | update u | adjust f => exact h.of_same rfl rfl

theorem paired_run {s : System σ} (h : Paired s) (d : Driver σ ε) (steps : List (Step σ)) :
    Paired (s.run d steps) :=
  run_invariant (I := Paired) (fun _ step h _ => paired_step h step) (admissible_true d s steps) h

/-! ### What else the control record says

The time of the last capture and the note about sending are written by interrupts and by requests.
Everything else may at most forget that lines are pending. -/

/-- The control record is the same, unless pending lines have been forgotten. -/
def OnlyForgets (s t : System σ) : Prop :=
  t.control = s.control ∨ t.control = { s.control with pending := none }

theorem OnlyForgets.trans {s t u : System σ} (hst : OnlyForgets s t) (htu : OnlyForgets t u) :
    OnlyForgets s u := by
  rcases htu with htu | htu <;> rcases hst with hst | hst
  · exact .inl (htu.trans hst)
  · exact .inr (htu.trans hst)
  · exact .inr (by rw [htu, hst])
  · exact .inr (by rw [htu, hst])

theorem onlyForgets_enter (s : System σ) (d : Driver σ ε) (job : RadioJob) (guarded : Bool) :
    OnlyForgets s ((if guarded then s.order .disable else s).dispatch d job) := by
  have hdispatch : ∀ t : System σ, OnlyForgets t (t.dispatch d job) := by
    intro t
    rw [OnlyForgets, control_dispatch]
    cases t.deferral.holds job with
    | false => exact .inl rfl
    | true => exact .inr rfl
  cases guarded with
  | false => exact hdispatch s
  | true => exact hdispatch (s.order .disable)

theorem onlyForgets_drain (s : System σ) (d : Driver σ ε) : OnlyForgets s (s.drain d).2 :=
  drain_related (fun _ => .inl rfl) .trans (fun _ => .inl rfl)
    (fun s entry => onlyForgets_enter s d entry.job entry.guarded) s

/-- Steps that are neither a request, unless it is a calibration, nor an interrupt. -/
theorem onlyForgets_step (s : System σ) (d : Driver σ ε) {step : Step σ}
    (hrequest : ∀ mode, step = .perform mode → mode = .calibrate)
    (hcapture : ∀ lines time, step ≠ .capture lines time) :
    OnlyForgets s (s.step d step).1 := by
  cases step with
  | perform mode =>
      obtain rfl := hrequest mode rfl
      refine .inl ?_
      rw [step_perform, perform, restart_eq]
  | capture lines time => exact absurd rfl (hcapture lines time)
  | dispatch job guarded => exact onlyForgets_enter s d job guarded
  | drain => exact onlyForgets_drain s d
  | dequeue => rcases step_dequeue s d with heq | heq <;> rw [heq] <;> exact .inl rfl
  | arm deadline => exact .inl (by simp [step, arm_eq])
  | order c | advance ticks | setClock now | update u | adjust f => exact .inl rfl

theorem paired_of_new {s : System σ} (hcontrol : s.control = {})
    (hheld : s.deferral.held = none) : Paired s :=
  .of_clear (by simp [hheld]) (by simp [hcontrol])

end Transceiver.System
