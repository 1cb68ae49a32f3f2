import Mathlib.Data.List.Forall2
import Transceiver.Proofs.Abreast

/-!
Swallowed failures: what nobody is told cannot matter.

A chip that fails to sleep is switched off around it anyway, and a reset that fails in a recovery
leaves nothing better to do than to go on. The controller drops both outcomes. So two runs of the
same steps cannot be told apart if their chips differ in these outcomes alone, each of them a
success or any failure, as often as one likes: not by an answer, not by what is left behind, and not
by the calls that are made.

Whether a chip fails is up to its driver and its state, and both may differ between the runs as long
as all else that the drivers do is the same. The one reset whose outcome is told is that of a
calibration, and there the two have to agree.
-/

namespace Transceiver.System

variable {σ ε : Type} {R : σ → σ → Prop} {d d' : Driver σ ε}

/-- The answers to the steps of a run. -/
def answers (s : System σ) (d : Driver σ ε) (steps : List (Step σ)) : List (Answer ε) :=
  yielded d (fun s step => [(s.step d step).2]) s steps

theorem answers_cons (s : System σ) (d : Driver σ ε) (step : Step σ) (steps : List (Step σ)) :
    s.answers d (step :: steps) = (s.step d step).2 :: (s.step d step).1.answers d steps := rfl

/-- Wherever a calibration is asked for in two runs, the reset has the same outcome in both. -/
def CalibratesAlike (d d' : Driver σ ε) (s t : System σ) (steps steps' : List (Step σ)) : Prop :=
  ∀ n, steps[n]? = some (.perform .calibrate) →
    let u := s.run d (steps.take n)
    let v := t.run d' (steps'.take n)
    (d'.reset true v.exchange v.chip).outcome = (d.reset true u.exchange u.chip).outcome

theorem Abreast.run {p q : List Call} {s t : System σ} (h : Abreast R p q s t)
    (hd : d.Alike R d') {steps steps' : List (Step σ)}
    (hsteps : List.Forall₂ (Step.Alike R) steps steps')
    (hreset : CalibratesAlike d d' s t steps steps') :
    t.answers d' steps' = s.answers d steps ∧
      ∀ n, Abreast R p q (s.run d (steps.take n)) (t.run d' (steps'.take n)) := by
  induction hsteps generalizing s t with
  | nil => exact ⟨rfl, fun n => by simpa [System.run] using h⟩
  | cons hfirst hrest ih =>
      obtain ⟨hnext, hanswer⟩ := h.step hd hfirst fun heq => hreset 0 (by simp [heq])
      obtain ⟨hanswers, habreast⟩ := ih hnext fun n hn => hreset (n + 1) hn
      refine ⟨by rw [answers_cons, answers_cons, hanswer, hanswers], fun n => ?_⟩
      cases n with
      | zero => exact h
      | succ n => exact habreast n

/-- Two runs of the same steps, on drivers that do the same but for the outcomes of their sleeps and
of the resets in a recovery. All answers are the same, and after each step so are the controller's
state, what is deferred, the scheduler's entries, the completions, the board, the exchange and the
calls that have been made. -/
theorem swallowed_outcomes_unseen (hd : d.Alike R d') {s : System σ} {chip : σ}
    (hchip : R s.chip chip) {steps steps' : List (Step σ)}
    (hsteps : List.Forall₂ (Step.Alike R) steps steps')
    (hreset : CalibratesAlike d d' s { s with chip } steps steps') :
    let t : System σ := { s with chip }
    t.answers d' steps' = s.answers d steps ∧
      ∀ n,
        let u := s.run d (steps.take n)
        let v := t.run d' (steps'.take n)
        v.control = u.control ∧ v.deferral = u.deferral ∧ v.board = u.board ∧
          v.exchange = u.exchange ∧ v.trace = u.trace := by
  intro t
  have hstart : Abreast R s.trace s.trace s t :=
    ⟨hchip, rfl, rfl, rfl, rfl, [], by simp, by simp [t]⟩
  obtain ⟨hanswers, habreast⟩ := hstart.run hd hsteps hreset
  refine ⟨hanswers, fun n => ?_⟩
  obtain ⟨-, hboard, hcontrol, hdeferral, hexchange, calls, hu, hv⟩ := habreast n
  exact ⟨hcontrol, hdeferral, hboard, hexchange, hv.trans hu.symm⟩

/-- A frame is sent, the transmission gets stuck, and it is sent again after a calibration. The one
chip does all that is asked of it; the other never sleeps, and cannot be reset in the recovery. -/
theorem stuck_transmission_with_failures :
    let d := Device.stated.driver
    let d' : Driver Script String :=
      { d with
        sleep := fun chip => ((d.sleep chip).1, .error "awake")
        reset := fun calibrate x chip =>
          { d.reset calibrate x chip with
            outcome := if x.frame.size = 0 then .ok () else .error "dead" } }
    let s := bench []
    let steps : List (Step Script) := [.update (.load [1, 2, 3]), .perform .transmit,
      .setClock 5000, .dequeue, .dispatch .watchdog true, .perform .calibrate,
      .perform .transmit, .capture 1 none, .dispatch .interrupt false]
    s.answers d' steps = s.answers d steps ∧ (s.run d' steps).trace = (s.run d steps).trace ∧
      (s.run d steps).completions = 2 := by
  intro d d' s steps
  have hd : d.Alike Eq d' := by
    constructor <;> rintro c _ rfl <;> intros
    case sleep | airtime => rfl
    case reset => exact ⟨rfl, rfl⟩
    case start | interpret => exact ⟨rfl, rfl, rfl⟩
  have hsteps : List.Forall₂ (Step.Alike Eq) steps steps := by
    refine List.forall₂_same.mpr fun step hstep => .same fun f hf => ?_
    subst hf
    simp [steps] at hstep
  have hreset : CalibratesAlike d d' s s steps steps := by
    intro n hn u v
    obtain rfl : n = 5 := by
      rcases n with _ | _ | _ | _ | _ | _ | _ | _ | _ | n <;> simp [steps] at hn ⊢
    -- By then the frame is empty, which is when the chip that fails is well again.
    have hsize : v.exchange.frame.size = 0 := by decide
    have hfine : u.chip.reset.remaining = 0 := by decide
    simp [d', d, Device.driver, Script.tryReset, Failure.strike, hsize, hfine]
  obtain ⟨hanswers, hstates⟩ := swallowed_outcomes_unseen hd (s := s) rfl hsteps hreset
  exact ⟨hanswers, (hstates 9).2.2.2.2, by decide⟩

end Transceiver.System
