import Transceiver.Proofs.Capture
import Transceiver.Proofs.Postings

/-!
Coherence: what is deferred is kept twice, and the two copies never drift apart.

The cell says what the controller has put off and the scheduler holds an entry for it. Every write
goes to both, so between two services they agree. The scheduler forgets an entry when it takes it
out, though, and the cell is told only when the job is run. In that window an interrupt can come: if
it is accepted it takes the cell over and the scheduler gets a new entry, and the job that was taken
out is stale.

`Phase` says where a run stands, `Reachable` which systems it can be in there, and `Coherent` is the
invariant, with one rule for each phase. That an accepted interrupt can only take the place of a
watchdog is not obvious from the cell and the scheduler. It needs the capture as a third party: a
cell with the interrupt job comes with a pending capture, and while one is pending none is accepted.
-/

namespace Transceiver

theorem Deferred.entry_job (a : Deferred) : a.entry.job = a.kind := by
  cases a <;> rfl

/-- Where a run stands. A job is served from the moment at which its entry is taken out until it is
run, and it may be superseded in between. -/
inductive Phase
  | outside
  | serving (entry : Entry) (time : Ticks) (superseded : Bool)

/-- An interrupt supersedes the job that is served if it is accepted. -/
def Phase.interrupted (accepted : Bool) : Phase → Phase
  | outside => outside
  | serving entry time superseded => serving entry time (superseded || accepted)

/-- Steps that are neither a request nor an interrupt nor the scheduler's. -/
def Step.passive {σ : Type} : Step σ → Bool
  | advance _ | setClock _ | update _ | adjust _ | order _ => true
  | _ => false

namespace System

variable {σ ε : Type}

/-- The runs of a new controller under a scheduler that serves one entry at a time. While a job is
served, interrupts come and time passes, but no request is made. -/
inductive Reachable (d : Driver σ ε) : Phase → System σ → Prop
  | fresh {s : System σ} : s.control = {} → s.deferral.held = none → s.scheduled = none →
      Reachable d .outside s
  | request {s : System σ} (mode : Mode) : Reachable d .outside s →
      Reachable d .outside (s.step d (.perform mode)).1
  | rearm {s : System σ} (deadline : Ticks) : Reachable d .outside s →
      Reachable d .outside (s.step d (.arm deadline)).1
  | interrupt {phase : Phase} {s : System σ} (lines : UInt8) (time : Option Ticks) :
      Reachable d phase s →
      Reachable d (phase.interrupted s.control.pending.isNone) (s.step d (.capture lines time)).1
  | other {phase : Phase} {s : System σ} {step : Step σ} : step.passive = true →
      Reachable d phase s → Reachable d phase (s.step d step).1
  | handOver {phase : Phase} {s : System σ} : Reachable d phase s → Reachable d phase s.handOver
  | takeOut {s t : System σ} {entry : Entry} : Reachable d .outside s →
      s.dequeue? = some (entry, t) →
      Reachable d (.serving entry s.clock.now false) (if entry.guarded then t.order .disable else t)
  | finish {entry : Entry} {time : Ticks} {superseded : Bool} {s : System σ} :
      Reachable d (.serving entry time superseded) s → Reachable d .outside (s.dispatch d entry.job)

/-- The scheduler holds the entry that the content of the cell calls for. -/
structure InStep (s : System σ) : Prop where
  absent : s.scheduled = none ↔ s.deferral.isEmpty = true
  interrupt : s.scheduled = some (.soon .interrupt) ↔ s.deferral.holdsInterrupt = true
  watchdog : ∀ deadline, s.scheduled = some (.guardedAt deadline .watchdog) ↔
    s.deferral.deadline? = some deadline

/-- The scheduler has let go of an entry whose job is still in the cell. -/
structure Ahead (entry : Entry) (s : System σ) : Prop where
  absent : s.scheduled = none
  held : s.deferral.held.map Deferred.entry = some entry

theorem inStep_of_eq {s : System σ} (h : s.scheduled = s.deferral.held.map Deferred.entry) :
    InStep s := by
  have hheld : ∀ content, s.deferral.held = content → InStep s := by
    intro content hc
    rw [hc] at h
    rcases content with _ | _ | deadline <;> constructor <;>
      simp_all [Deferral.isEmpty, Deferral.holdsInterrupt, Deferral.holds, Deferral.deadline?,
        Deferred.entry, Deferred.kind]
  exact hheld _ rfl

/-- The invariant, by phases. -/
inductive Coherent : Phase → System σ → Prop
  | outside {s : System σ} : s.scheduled = s.deferral.held.map Deferred.entry →
      Coherent .outside s
  | ahead {entry : Entry} {time : Ticks} {s : System σ} : entry.due time = true →
      Ahead entry s → Coherent (.serving entry time false) s
  | superseded {entry : Entry} {time : Ticks} {s : System σ} : entry.job = .watchdog →
      s.deferral.held = some .interrupt → s.scheduled = some (.soon .interrupt) →
      Coherent (.serving entry time true) s

theorem Coherent.of_same {phase : Phase} {s t : System σ} (h : Coherent phase s)
    (hheld : t.deferral.held = s.deferral.held) (hsched : t.scheduled = s.scheduled) :
    Coherent phase t := by
  cases h with
  | outside heq => exact .outside (by rw [hsched, hheld, heq])
  | ahead hdue hahead =>
      exact .ahead hdue ⟨hsched.trans hahead.absent, by rw [hheld, hahead.held]⟩
  | superseded hjob hint hsoon =>
      exact .superseded hjob (hheld.trans hint) (hsched.trans hsoon)

theorem coherent_perform {d : Driver σ ε} {s : System σ} (h : Coherent .outside s) (mode : Mode) :
    Coherent .outside (s.perform d mode).1 := by
  by_cases hmode : mode = .calibrate
  · subst hmode
    rw [perform, restart_eq]
    exact h.of_same rfl rfl
  · exact .outside (perform_spec s d hmode).2.scheduled

/-- No accepted interrupt finds its own job in the cell, so the job that it supersedes is a
watchdog. -/
theorem coherent_capture {d : Driver σ ε} {phase : Phase} {s : System σ} (h : Coherent phase s)
    (hs : Paired s) (lines : UInt8) (time : Option Ticks) :
    Coherent (phase.interrupted s.control.pending.isNone) (s.step d (.capture lines time)).1 := by
  cases hp : s.control.pending with
  | some waiting =>
      rw [step_capture_of_pending hp]
      cases phase with
      | outside => exact h
      | serving entry time' superseded => simpa [Phase.interrupted] using h
  | none =>
      rw [step_capture_of_none hp]
      have hnot : s.deferral.held ≠ some .interrupt := fun hheld => hs.pending hheld hp
      cases h with
      | outside heq => exact .outside (Deferral.write_radio _ _)
      | superseded _ hint _ => exact absurd hint hnot
      | ahead hdue hahead =>
          -- The cell holds the job that is served, and it is not the interrupt job.
          obtain ⟨a, ha, rfl⟩ := Option.map_eq_some_iff.mp hahead.held
          refine .superseded ?_ rfl (Deferral.write_radio _ _)
          cases a with
          | interrupt => exact absurd ha hnot
          | watchdog deadline => rfl

/-- Once the job has been run the two copies agree again: it takes itself out of the cell if it is
there, and leaves what has superseded it alone. -/
theorem coherent_dispatch {d : Driver σ ε} {entry : Entry} {time : Ticks} {superseded : Bool}
    {s : System σ} (h : Coherent (.serving entry time superseded) s) :
    Coherent .outside (s.dispatch d entry.job) := by
  cases h with
  | superseded hjob hint hsoon =>
      have hstale : s.deferral.holds .watchdog = false := by
        simp [Deferral.holds, hint, Deferred.kind]
      rw [hjob, dispatch_of_stale hstale]
      refine .outside ?_
      show s.scheduled = s.deferral.held.map Deferred.entry
      rw [hsoon, hint]
      rfl
  | ahead hdue hahead =>
      -- The scheduler has no entry, so all that it has afterwards comes from the job itself.
      obtain ⟨a, ha, rfl⟩ := Option.map_eq_some_iff.mp hahead.held
      have hspec := dispatch_spec s d a.entry.job
      generalize s.dispatch d a.entry.job = t at hspec ⊢
      have hholds : s.deferral.holds a.entry.job = true := by
        simp [Deferral.holds, ha, Deferred.entry_job]
      generalize a.entry.job = job at hspec hholds
      cases hspec with
      | stale hstale =>
          rw [hstale] at hholds
          cases hholds
      | completed _ _ hend _ => exact .outside (by rw [hend.scheduled, hend.held]; rfl)
      | recovered _ hend => exact .outside (by rw [hend.scheduled, hend.held]; rfl)
      | waits _ _ hwait =>
          refine .outside ?_
          rw [hwait.scheduled, hwait.held, hahead.absent, Option.or_none, Option.map_map]
          rfl

theorem coherent_takeOut {s t : System σ} {entry : Entry} (h : Coherent .outside s)
    (hs : s.dequeue? = some (entry, t)) : Coherent (.serving entry s.clock.now false) t := by
  obtain ⟨hsched, hdue, rfl⟩ := dequeue?_eq_some_iff.mp hs
  cases h with
  | outside heq => exact .ahead hdue ⟨rfl, by rw [← hsched, heq]; rfl⟩

theorem coherent_passive {d : Driver σ ε} {phase : Phase} {s : System σ} (h : Coherent phase s)
    {step : Step σ} (hstep : step.passive = true) : Coherent phase (s.step d step).1 := by
  cases step with
  | advance ticks | setClock now | update u | adjust f | order c => exact h.of_same rfl rfl
  | _ => cases hstep

/-! ### Reachable systems -/

theorem Reachable.paired {d : Driver σ ε} {phase : Phase} {s : System σ}
    (h : Reachable d phase s) : Paired s := by
  induction h with
  | fresh hcontrol hheld _ => exact .of_clear (by simp [hheld]) (by simp [hcontrol])
  | request mode _ ih => exact paired_step ih (.perform mode)
  | rearm deadline _ ih => exact paired_step ih (.arm deadline)
  | interrupt lines time _ ih => exact paired_step ih (.capture lines time)
  | other _ _ ih => exact paired_step ih _
  | handOver _ ih => exact ih.of_same rfl rfl
  | takeOut _ hs ih =>
      rw [dequeue?_eq_unschedule hs]
      split <;> exact ih.of_same rfl rfl
  | finish _ ih => exact paired_dispatch ih _

theorem Reachable.coherent {d : Driver σ ε} {phase : Phase} {s : System σ}
    (h : Reachable d phase s) : Coherent phase s := by
  induction h with
  | fresh _ hheld hsched => exact .outside (by rw [hheld, hsched]; rfl)
  | request mode _ ih =>
      rw [step_perform]
      exact coherent_perform ih mode
  | rearm deadline _ ih => exact .outside (scheduled_arm _ deadline)
  | interrupt lines time h ih => exact coherent_capture ih h.paired lines time
  | other hstep _ ih => exact coherent_passive ih hstep
  | handOver _ ih => exact ih.of_same rfl rfl
  | takeOut _ hs ih =>
      have ht := coherent_takeOut ih hs
      split
      · exact ht.of_same rfl rfl
      · exact ht
  | finish _ ih => exact coherent_dispatch ih

theorem Reachable.accounted {d : Driver σ ε} {phase : Phase} {s : System σ}
    (h : Reachable d phase s) : Accounted s := by
  induction h with
  | fresh _ hheld _ => exact ⟨_, hheld, .refl _⟩
  | request mode _ ih => exact ih.trans (follows_step _ d (.perform mode))
  | rearm deadline _ ih => exact ih.trans (follows_step _ d (.arm deadline))
  | interrupt lines time _ ih => exact ih.trans (follows_step _ d (.capture lines time))
  | other _ _ ih => exact ih.trans (follows_step _ d _)
  | handOver _ ih => exact ih.trans (.of_same rfl rfl)
  | takeOut _ hs ih =>
      rw [dequeue?_eq_unschedule hs]
      refine ih.trans ((follows_unschedule _).trans ?_)
      split
      · exact follows_order _ .disable
      · exact .refl _
  | finish _ ih => exact ih.trans (follows_dispatch _ d _)

/-- Between two services the scheduler and the cell agree. While a job is served, the cell still
holds it and the scheduler has no entry, until an interrupt supersedes the job; then they agree
again and the job is dropped. A watchdog that is not dropped recovers for the deadline that was
armed last, which had been reached when its entry was taken out. -/
theorem in_step_of_reachable {d : Driver σ ε} {phase : Phase} {s : System σ}
    (h : Reachable d phase s) :
    match phase with
    | .outside => InStep s
    | .serving entry _ true => InStep s ∧ s.dispatch d entry.job = s.dropped entry.job
    | .serving entry time false => Ahead entry s ∧
        (entry.job = .watchdog → ∃ deadline, entry = .guardedAt deadline .watchdog ∧
          s.deferral.deadline? = some deadline ∧ s.lastArmed = some deadline ∧
          Ticks.reached deadline time = true) := by
  have haccounted := h.accounted
  cases h.coherent with
  | outside heq => exact inStep_of_eq heq
  | superseded hjob hint hsoon =>
      refine ⟨inStep_of_eq (by rw [hint, hsoon]; rfl), dispatch_of_stale ?_ d⟩
      simp [Deferral.holds, hint, hjob, Deferred.kind]
  | ahead hdue hahead =>
      refine ⟨hahead, fun hjob => ?_⟩
      obtain ⟨a, ha, rfl⟩ := Option.map_eq_some_iff.mp hahead.held
      cases a with
      | interrupt => cases hjob
      | watchdog deadline =>
          have hdeadline : s.deferral.deadline? = some deadline := by
            rw [Deferral.deadline?, ha]
          exact ⟨deadline, rfl, hdeadline, haccounted.lastArmed ha, hdue⟩

/-- A receive is overdue and its watchdog is taken out; an interrupt comes before it is run. -/
theorem watchdog_superseded_in_service :
    let d := Device.stated.driver
    let s := ((bench []).run d [.perform .receive, .setClock 400]).unschedule.order .disable
    let t := (s.step d (.capture 1 none)).1
    Ahead (.guardedAt 312 .watchdog) s ∧ s.lastArmed = some 312 ∧ InStep t ∧
      t.dispatch d .watchdog = t.dropped .watchdog := by
  intro d s t
  have hfresh : Reachable d .outside (bench []) := .fresh rfl rfl rfl
  have hlate : Reachable d .outside ((bench []).run d [.perform .receive, .setClock 400]) :=
    .other rfl (.request .receive hfresh)
  have hserved : Reachable d (.serving (.guardedAt 312 .watchdog) 400 false) s :=
    hlate.takeOut (dequeue?_eq_some_iff.mpr ⟨by decide, by decide, rfl⟩)
  obtain ⟨hahead, hdeadline⟩ := in_step_of_reachable hserved
  obtain ⟨deadline, hentry, -, hlast, -⟩ := hdeadline rfl
  cases hentry
  exact ⟨hahead, hlast, in_step_of_reachable (hserved.interrupt 1 none)⟩

end System

end Transceiver
