import Transceiver.Proofs.Completion

/-!
Conservation: an operation under a watchdog is reported exactly once.

From the moment at which such an operation is started, the completions posted for it and the job
that is deferred for it add up to one. Each way in which the cell is emptied or refilled has to pay:
an interrupt takes the place of the watchdog, a driver that waits gives the watchdog a new deadline,
and a job that ends the operation posts its completion. A driver that waits without a deadline is
the one that does not pay, and `Continues` excludes it where it would be asked.

The sum alone is not kept by a step: an interrupt into an empty cell would raise it. `Balanced` adds
what prevents that, that all lines are masked once the cell is empty.
-/

namespace Transceiver.System

variable {σ ε : Type}

/-- What may follow the start of an operation: no request but a calibration, and no driver that
waits without a deadline. A drain is given as the jobs that it consists of. -/
def Continues (d : Driver σ ε) (s : System σ) : Step σ → Prop
  | .perform mode => mode = .calibrate
  | .dispatch .interrupt _ =>
      s.deferral.holds .interrupt = true → (s.found d).status ≠ .pending none
  | .drain => False
  | _ => True

/-- Completions and deferred jobs add up to `total`, and an empty cell stays empty because no line
is unmasked. -/
structure Balanced (total : Nat) (s : System σ) : Prop where
  mask : s.deferral.held = none → s.board.mask = 0
  total : s.completions + s.deferral.size = total

theorem Balanced.of_same {total : Nat} {s t : System σ} (h : Balanced total s)
    (hheld : t.deferral.held = s.deferral.held) (hmask : t.board.mask = s.board.mask)
    (hcompl : t.completions = s.completions) : Balanced total t where
  mask hnone := by rw [hmask, h.mask (hheld ▸ hnone)]
  total := by rw [hcompl, Deferral.size_congr hheld, h.total]

/-- A cell that is refilled holds one job again, and the mask no longer matters. -/
theorem Balanced.of_refilled {total : Nat} {s t : System σ} (h : Balanced total s)
    (hs : s.deferral.held ≠ none) (ht : t.deferral.held ≠ none)
    (hcompl : t.completions = s.completions) : Balanced total t where
  mask hnone := absurd hnone ht
  total := by rw [hcompl, Deferral.size_of_ne_none ht, ← Deferral.size_of_ne_none hs, h.total]

theorem balanced_perform {d : Driver σ ε} {s₀ s : System σ} {mode : Mode}
    (hmode : mode.watched = true) (hstart : s₀.perform d mode = (s, .ok ())) :
    Balanced (s.completions + 1) s := by
  have hne : mode ≠ .calibrate := by
    rintro rfl
    cases hmode
  obtain ⟨hout, hspec⟩ := perform_spec s₀ d hne
  rw [hstart] at hout hspec
  have hkind := hspec.held_of_ok hout.symm
  have hheld : s.deferral.held ≠ none := by
    intro hnone
    simp [hnone, hmode] at hkind
  exact ⟨fun hnone => absurd hnone hheld, by rw [Deferral.size_of_ne_none hheld]⟩

theorem balanced_dispatch {d : Driver σ ε} (hd : d.ResetsMasked) {total : Nat} {s : System σ}
    (hs : Balanced total s) {job : RadioJob} (guarded : Bool)
    (h : Continues d s (.dispatch job guarded)) : Balanced total (s.dispatch d job) := by
  rcases dispatch_cases hd s job with ⟨hheld, hmask, hcompl⟩ | ⟨hheld, ht, hcompl⟩ |
    ⟨hholds, rfl, hcompl, rearm, hstatus, hheld⟩
  · exact hs.of_same hheld hmask hcompl
  · have htotal := hs.total
    rw [Deferral.size_of_ne_none hheld] at htotal
    refine ⟨fun _ => ht.mask, ?_⟩
    rw [Deferral.size_of_none ht.held, hcompl]
    omega
  · -- The driver may only wait under a deadline, so the watchdog takes the place of the job.
    have hsome : rearm ≠ none := by
      rintro rfl
      exact h hholds hstatus
    refine hs.of_refilled (held_ne_none_of_holds hholds) ?_ hcompl
    rw [hheld]
    simpa using hsome

theorem balanced_step {d : Driver σ ε} (hd : d.ResetsMasked) {total : Nat} (s : System σ)
    (step : Step σ) (hs : Balanced total s) (h : Undisturbed s step ∧ Continues d s step) :
    Balanced total (s.step d step).1 := by
  obtain ⟨hcalm, hcont⟩ := h
  cases step with
  | perform mode =>
      cases hcont
      rw [step_perform]
      have hrestart := restart_eq s d
      refine ⟨fun hnone => ?_, ?_⟩
      · simp only [perform, hrestart] at hnone ⊢
        exact hd _ _ _ _ (hs.mask hnone)
      · rw [completions_perform, ← hs.total, Deferral.size_congr]
        simp [perform, hrestart]
  | capture lines time =>
      have hheld : s.deferral.held ≠ none := fun hnone => hcalm (hs.mask hnone)
      cases hp : s.control.pending with
      | some waiting => rwa [step_capture_of_pending hp]
      | none =>
          rw [step_capture_of_none hp]
          exact hs.of_refilled hheld (by simp) (by simp [completions])
  | dispatch job guarded =>
      cases guarded with
      | false => exact balanced_dispatch hd hs false hcont
      | true =>
          have hdisable : Balanced total (s.order .disable) := hs.of_same rfl rfl rfl
          exact balanced_dispatch hd hdisable true hcont
  | drain => exact absurd hcont not_false
  | dequeue =>
      rcases step_dequeue s d with h | h <;> rw [h]
      · exact hs
      · exact hs.of_same rfl rfl rfl
  | arm deadline => exact absurd hcalm not_false
  | order c =>
      cases c with
      | unmask lines => exact absurd hcalm not_false
      | _ => exact hs.of_same rfl rfl rfl
  | advance ticks | setClock now | update u | adjust f => exact hs.of_same rfl rfl rfl

/-- From the start of an operation under a watchdog on, as long as nothing else is asked of the
radio and the driver never waits without a deadline, the completions posted and the jobs deferred
add up to one. So a job is deferred while no completion has been posted, and once the cell is empty
exactly one has. -/
theorem completions_add_deferred_eq {d : Driver σ ε} (hd : d.ResetsMasked) {s₀ s : System σ}
    {mode : Mode} (hmode : mode.watched = true) (hstart : s₀.perform d mode = (s, .ok ()))
    {steps : List (Step σ)}
    (hrun : Admissible d (fun s step => Undisturbed s step ∧ Continues d s step) s steps) :
    (s.run d steps).completions + (s.run d steps).deferral.size = s.completions + 1 ∧
      ((s.run d steps).completions = s.completions → (s.run d steps).deferral.held ≠ none) ∧
      ((s.run d steps).deferral.held = none →
        (s.run d steps).completions = s.completions + 1) := by
  have htotal := (run_invariant (balanced_step hd) hrun (balanced_perform hmode hstart)).total
  refine ⟨htotal, fun hsame hnone => ?_, fun hnone => ?_⟩
  · rw [Deferral.size_of_none hnone] at htotal
    omega
  · rwa [Deferral.size_of_none hnone] at htotal

/-- A receive takes two interrupts and the second is never seen: the watchdog, armed anew after the
first, reports the operation, and a late copy of the interrupt job reports nothing. -/
theorem rearmed_then_recovered :
    let d := Device.stated.driver
    let s := ((bench [{ status := .pending (some 50000) }]).perform d .receive).1
    let steps : List (Step Script) := [.capture 1 none, .dispatch .interrupt false,
      .setClock 60000, .dequeue, .dispatch .watchdog true, .dispatch .interrupt false,
      .perform .calibrate]
    let t := s.run d steps
    t.completions + t.deferral.size = s.completions + 1 ∧ t.deferral.held = none ∧
      t.completions = s.completions + 1 := by
  intro d s steps t
  have hreset : d.ResetsMasked := (Device.driver_reserved .stated).reset
  have hwatched : Mode.receive.watched = true := rfl
  have hstart : (bench [{ status := .pending (some 50000) }]).perform d .receive = (s, .ok ()) :=
    rfl
  have hrun : Admissible d (fun s step => Undisturbed s step ∧ Continues d s step) s steps := by
    refine ⟨⟨?_, trivial⟩, ⟨trivial, fun _ => ?_⟩, ⟨trivial, trivial⟩, ⟨trivial, trivial⟩,
      ⟨trivial, trivial⟩, ⟨trivial, fun h => ?_⟩, ⟨trivial, rfl⟩, trivial⟩
    · show (7 : UInt8) ≠ 0
      decide
    · show Status.pending (some 50000) ≠ .pending none
      decide
    · exact absurd h (by decide)
  have hempty : t.deferral.held = none := by decide
  obtain ⟨hsum, -, hdone⟩ := completions_add_deferred_eq hreset hwatched hstart hrun
  exact ⟨hsum, hempty, hdone hempty⟩

end Transceiver.System
