import Transceiver.Proofs.Postings

/-!
Supersession: when a job that was taken out is dropped.

A job carries nothing but its kind, and the cell recognises it by that. So a job that has been
superseded is dropped if the cell is empty or holds an action of the other kind. It is not dropped
if an action of its own kind was posted in the meantime: then it takes the place of that one, which
may be far from due. A watchdog that was taken out for one operation can end the next one, however
much time that one has left.

`superseded_dropped_iff` says exactly when a superseded job is dropped, for every run between the
two moments, and `watchdog_recovers_early` is a run in which it is not.
-/

namespace Transceiver.System

variable {σ ε : Type}

/-- To be dropped is to touch nothing but the interrupts, which a watchdog leaves enabled once more
than it found them. -/
theorem dropped_eq (s : System σ) (job : RadioJob) :
    s.dropped job =
      { s with
        board := { s.board with depth := s.board.depth - if job = .watchdog then 1 else 0 }
        trace := s.trace ++ (.board .disable :: .board .enable ::
          if job = .watchdog then [.board .enable] else []) } := by
  cases job <;> simp [dropped, order, BoardCall.apply]

/-- A job that is not dropped never leaves the cell as it found it. -/
theorem dispatch_eq_dropped_iff (s : System σ) (d : Driver σ ε) (job : RadioJob) :
    s.dispatch d job = s.dropped job ↔ s.deferral.holds job = false := by
  constructor
  · intro heq
    have hheld : (s.dropped job).deferral.held = s.deferral.held := by rw [dropped_eq]
    have hspec := dispatch_spec s d job
    rw [heq] at hspec
    generalize s.dropped job = t at hspec hheld
    -- In every other case the cell is left empty, or with a watchdog where the interrupt job was.
    cases hspec with
    | stale hstale => exact hstale
    | completed hholds _ hend _ | recovered hholds hend =>
        rw [Deferral.holds, ← hheld, hend.held] at hholds
        cases hholds
    | @waits _ rearm hholds _ hwait =>
        rw [Deferral.holds, ← hheld, hwait.held] at hholds
        cases rearm <;> cases hholds
  · intro hstale
    exact dispatch_of_stale hstale d

theorem holds_eq_false_iff {s : System σ} {job : RadioJob} :
    s.deferral.holds job = false ↔
      ∀ later, s.deferral.held = some later → later.kind ≠ job := by
  cases hheld : s.deferral.held with
  | none => simp [Deferral.holds, hheld]
  | some later => simp [Deferral.holds, hheld]

/-- A job is taken out, and before it is run something else is posted or all is cancelled. Then it
is dropped if and only if the cell does not hold an action of its kind, and what the cell holds is
what was posted last since the job was taken out. -/
theorem superseded_dropped_iff {d : Driver σ ε} {s u : System σ} {entry : Entry}
    (hs : s.dequeue? = some (entry, u)) (steps : List (Step σ)) :
    let t := u.run d steps
    postedSince s t ≠ [] →
      (t.dispatch d entry.job = t.dropped entry.job ↔
        ∀ later, t.deferral.held = some later → later.kind ≠ entry.job) ∧
      ∀ later, t.deferral.held = some later →
        (postedSince s t).getLast? = some (some later) := by
  intro t hposted
  refine ⟨(dispatch_eq_dropped_iff t d entry.job).trans holds_eq_false_iff, ?_⟩
  intro later hheld
  have hfollows : Follows s t := by
    show Follows s (u.run d steps)
    rw [dequeue?_eq_unschedule hs]
    exact (follows_unschedule s).trans (follows_run _ d steps)
  have hlast := hfollows.held_eq (by simp [hheld])
  obtain ⟨content, hcontent⟩ := Option.ne_none_iff_exists'.mp
    (mt List.getLast?_eq_none_iff.mp hposted)
  rw [hcontent, hheld] at hlast
  rw [hcontent, hlast]
  rfl

/-- A receive has been superseded by an interrupt and a stop; a second one is under way, and the
interrupt job finds no action of its kind. -/
theorem superseded_interrupt_dropped :
    let d := Device.stated.driver
    let s := (bench []).run d [.perform .receive, .capture 1 none]
    let t := s.unschedule.run d [.perform .stop, .perform .receive]
    t.dispatch d .interrupt = t.dropped .interrupt := by
  intro d s t
  have hs : s.dequeue? = some (.soon .interrupt, s.unschedule) :=
    dequeue?_eq_some_iff.mpr ⟨by decide, by decide, rfl⟩
  have hstale : t.deferral.holds .interrupt = false := by decide
  exact (superseded_dropped_iff hs [.perform .stop, .perform .receive] (by decide)).1.mpr
    (holds_eq_false_iff.mp hstale)

/-- A receive is overdue and its watchdog is taken out, but before it is run the radio is asked for
another receive, whose window opens much later. The watchdog of the first one ends the second. -/
theorem watchdog_recovers_early :
    let d := Device.stated.driver
    let s := (bench []).run d [.perform .receive, .setClock 400]
    let t := s.unschedule.run d
      [.update (.amend { receiveAt := some 50000 }), .perform .receive]
    s.dequeue? = some (.guardedAt 312 .watchdog, s.unschedule) ∧
      postedSince s t = [none, some (.watchdog 50312)] ∧
      Ticks.reached 50312 t.clock.now = false ∧
      t.dispatch d .watchdog ≠ t.dropped .watchdog ∧
      (t.dispatch d .watchdog).completions = t.completions + 1 := by
  intro d s t
  refine ⟨dequeue?_eq_some_iff.mpr ⟨by decide, by decide, rfl⟩, by decide, by decide, ?_,
    by decide⟩
  rw [Ne, dispatch_eq_dropped_iff]
  decide

end Transceiver.System
