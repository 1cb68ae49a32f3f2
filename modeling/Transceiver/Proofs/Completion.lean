import Transceiver.Proofs.Routines
import Transceiver.Proofs.Run
import Transceiver.Script

/-!
Completions: an operation is reported once, and none is lost.

Two jobs can report the end of an operation, the interrupt job and the watchdog, and they share one
cell of the deferral. What keeps them from reporting twice is not the cell alone. A radio that has
reported is `Idle`: the cell is empty, so no job finds its place in it, and all lines are masked, so
no interrupt can fill it again. Nothing but a request that the driver agrees to ends that.

The mask is the part that the controller does not hold in its own hands, since a driver gives its
orders to the board directly. `Driver.Reserved` is what is asked of it, and the steps of
`Undisturbed` are what is asked of everything else.
-/

namespace Transceiver

/-! ### Drivers that keep to their lines -/

/-- Orders that leave a masked board masked. -/
def KeepsMasked (orders : List BoardCall) : Prop :=
  ∀ b : Board, b.mask = 0 → (b.after orders).mask = 0

theorem keepsMasked_of_forall {orders : List BoardCall}
    (h : ∀ lines, .unmask lines ∈ orders → lines = 0) : KeepsMasked orders := by
  induction orders with
  | nil => exact fun b hb => hb
  | cons c orders ih =>
      intro b hb
      refine ih (fun lines hl => h lines (.tail c hl)) (c.apply b) ?_
      cases c with
      | unmask lines => exact h lines (.head orders)
      | _ => exact hb

/-- Whether an activity goes on without ever interrupting. -/
def Start.silent : Start → Bool
  | transmit true | carrier | assess => true
  | _ => false

/-- A reset that unmasks no line. -/
def Driver.ResetsMasked {σ ε : Type} (d : Driver σ ε) : Prop :=
  ∀ calibrate x chip, KeepsMasked (d.reset calibrate x chip).orders

/-- A driver that unmasks lines only for an activity that may interrupt. -/
structure Driver.Reserved {σ ε : Type} (d : Driver σ ε) : Prop where
  reset : d.ResetsMasked
  start : ∀ activity x chip, activity.silent → KeepsMasked (d.start activity x chip).orders

theorem Driver.Reserved.attempt {σ ε : Type} {d : Driver σ ε} (hd : d.Reserved) {mode : Mode}
    (h : mode.completes = false) (x : Exchange) (chip : σ) :
    KeepsMasked (d.attempt mode x chip).orders := by
  cases mode with
  | carrier | assess | stream => exact hd.start _ x chip rfl
  | stop | calibrate => exact fun b hb => hb
  | _ => cases h

/-- Scripted chips are reserved, so a run of the bench is subject to what follows. -/
theorem Device.driver_reserved (device : Device) : device.driver.Reserved := by
  have hstart : ∀ (script : Script) (activity : Start), activity.silent →
      KeepsMasked (script.tryStart activity).orders := by
    intro script activity hs
    refine keepsMasked_of_forall fun lines hl => ?_
    simp only [Script.tryStart] at hl
    split at hl
    · match activity, hs with
      | .transmit true, _ | .carrier, _ | .assess, _ => simp [Script.startOrders] at hl
    · cases hl
  cases device with
  | programmed preamble =>
      exact ⟨fun _ _ _ b hb => hb, fun activity _ script hs => hstart script activity hs⟩
  | stated =>
      exact ⟨fun _ _ _ b hb => hb, fun activity _ script hs => hstart script activity hs⟩

namespace System

variable {σ ε : Type}

/-! ### What may happen -/

/-- What the surroundings of the controller keep to: an interrupt comes only while some line is
unmasked, and nobody else changes the mask or arms the watchdog. -/
def Undisturbed (s : System σ) : Step σ → Prop
  | .capture _ _ => s.board.mask ≠ 0
  | .arm _ => False
  | .order (.unmask _) => False
  | _ => True

/-- A request that starts an operation which ends with a completion. -/
def Engages (d : Driver σ ε) (s : System σ) : Step σ → Prop
  | .perform mode => mode.completes = true ∧ (s.perform d mode).2 = .ok ()
  | _ => False

/-- No job can find its place and no interrupt can come. -/
structure Idle (s : System σ) : Prop where
  held : s.deferral.held = none
  mask : s.board.mask = 0

/-- What the systems at the two ends of a run have to do with each other if no operation is started
in between: at most one completion is posted, none by an idle radio, and the one that is posted
leaves the radio idle. -/
structure PostsAtMostOne (s t : System σ) : Prop where
  idle : Idle s → Idle t
  completions : t.completions = s.completions ∨
    (¬ Idle s ∧ Idle t ∧ t.completions = s.completions + 1)

theorem PostsAtMostOne.of_same {s t : System σ} (hheld : t.deferral.held = s.deferral.held)
    (hmask : t.board.mask = s.board.mask) (hcompl : t.completions = s.completions) :
    PostsAtMostOne s t :=
  ⟨fun h => ⟨hheld.trans h.held, hmask.trans h.mask⟩, .inl hcompl⟩

theorem PostsAtMostOne.refl (s : System σ) : PostsAtMostOne s s := .of_same rfl rfl rfl

theorem PostsAtMostOne.trans {s t u : System σ} (hst : PostsAtMostOne s t)
    (htu : PostsAtMostOne t u) : PostsAtMostOne s u := by
  refine ⟨fun h => htu.idle (hst.idle h), ?_⟩
  rcases hst.completions with hc | ⟨hs, ht, hc⟩
  · rcases htu.completions with hc' | ⟨ht, hu, hc'⟩
    · exact .inl (hc'.trans hc)
    · exact .inr ⟨fun hs => ht (hst.idle hs), hu, by rw [hc', hc]⟩
  · rcases htu.completions with hc' | ⟨ht', -, -⟩
    · exact .inr ⟨hs, htu.idle ht, by rw [hc', hc]⟩
    · exact absurd ht ht'

/-! ### Jobs and requests -/

theorem held_ne_none_of_holds {s : System σ} {job : RadioJob}
    (h : s.deferral.holds job = true) : s.deferral.held ≠ none := by
  intro hnone
  rw [Deferral.holds_none _ _ hnone] at h
  cases h

theorem mask_recover {d : Driver σ ε} (hd : d.ResetsMasked) (s : System σ) :
    (s.recover d).board.mask = 0 := by
  rw [recover_eq]
  split
  · have hrest : (s.quiesce d).board.mask = 0 := by simp [quiesce_eq]
    have hreset := hd true (s.quiesce d).exchange (s.quiesce d).chip _ hrest
    rwa [restart_eq]
  · simp [quiesce_eq, order, editFrame, complete, BoardCall.apply]

/-- A job that finds its place ends the operation, or waits for more under a new watchdog or
none. -/
theorem dispatch_cases {d : Driver σ ε} (hd : d.ResetsMasked) (s : System σ) (job : RadioJob) :
    let t := s.dispatch d job
    (t.deferral.held = s.deferral.held ∧ t.board.mask = s.board.mask ∧
        t.completions = s.completions) ∨
      (s.deferral.held ≠ none ∧ Idle t ∧ t.completions = s.completions + 1) ∨
      (s.deferral.holds .interrupt = true ∧ job = .interrupt ∧ t.completions = s.completions ∧
        ∃ rearm, (s.found d).status = .pending rearm ∧
          t.deferral.held = rearm.map .watchdog) := by
  intro t
  have hspec : Dispatched s d job t := dispatch_spec s d job
  have ht : t = s.dispatch d job := rfl
  clear_value t
  cases hspec with
  | stale h => exact .inl (by cases job <;> exact ⟨rfl, rfl, rfl⟩)
  | completed h _ hend hmask =>
      exact .inr (.inl ⟨held_ne_none_of_holds h, ⟨hend.held, hmask⟩, hend.completions⟩)
  | waits h hstatus hwait =>
      exact .inr (.inr ⟨h, rfl, hwait.completions, _, hstatus, hwait.held⟩)
  | recovered h hend =>
      have hmask : t.board.mask = 0 := by
        rw [ht, dispatch_watchdog h]
        exact mask_recover hd _
      exact .inr (.inl ⟨held_ne_none_of_holds h, ⟨hend.held, hmask⟩, hend.completions⟩)

theorem completions_perform (s : System σ) (d : Driver σ ε) (mode : Mode) :
    (s.perform d mode).1.completions = s.completions := by
  by_cases h : mode = .calibrate
  · subst h
    simp [perform, restart_eq, completions]
  · exact (perform_spec s d h).2.completions

theorem idle_restart {d : Driver σ ε} (hd : d.ResetsMasked) {s : System σ} (h : Idle s) :
    Idle (s.restart d).1 := by
  rw [restart_eq]
  exact ⟨h.held, hd _ _ _ _ h.mask⟩

/-- A request that starts no operation with a completion leaves the radio idle, but for a
calibration, which leaves it as it is. -/
theorem idle_perform {d : Driver σ ε} (hd : d.Reserved) {s : System σ} {mode : Mode}
    (hmode : mode ≠ .calibrate) (h : ¬ Engages d s (.perform mode)) :
    Idle (s.perform d mode).1 := by
  obtain ⟨hout, hspec⟩ := perform_spec s d hmode
  cases hr : (d.attempt mode s.exchange (d.sleep s.chip).1).outcome with
  | error e =>
      refine ⟨hspec.held_of_error e hr, ?_⟩
      rw [hspec.board_of_error e hr, Board.rested_mask]
  | ok =>
      have hnot : mode.completes = false := by
        cases hc : mode.completes
        · rfl
        · exact absurd ⟨hc, hout.trans hr⟩ h
      have hwatched : mode.watched = false := by cases mode <;> first | rfl | cases hnot
      constructor
      · have hheld := hspec.held_of_ok hr
        rw [hwatched] at hheld
        exact Option.map_eq_none_iff.mp hheld
      · rw [hspec.board_of_ok hr]
        exact hd.attempt hnot _ _ _ rfl

/-! ### One completion for each operation -/

theorem postsAtMostOne_dispatch {d : Driver σ ε} (hd : d.ResetsMasked) (s : System σ)
    (job : RadioJob) : PostsAtMostOne s (s.dispatch d job) := by
  rcases dispatch_cases hd s job with ⟨hheld, hmask, hcompl⟩ | ⟨hs, ht, hcompl⟩ |
    ⟨h, -, hcompl, -⟩
  · exact .of_same hheld hmask hcompl
  · exact ⟨fun _ => ht, .inr ⟨fun hidle => hs hidle.held, ht, hcompl⟩⟩
  · exact ⟨fun hidle => absurd hidle.held (held_ne_none_of_holds h), .inl hcompl⟩

theorem postsAtMostOne_enter {d : Driver σ ε} (hd : d.ResetsMasked) (s : System σ)
    (job : RadioJob) (guarded : Bool) :
    PostsAtMostOne s ((if guarded then s.order .disable else s).dispatch d job) := by
  cases guarded with
  | false => exact postsAtMostOne_dispatch hd s job
  | true =>
      have hdisable : PostsAtMostOne s (s.order .disable) := .of_same rfl rfl rfl
      exact hdisable.trans (postsAtMostOne_dispatch hd _ job)

theorem postsAtMostOne_unschedule (s : System σ) : PostsAtMostOne s s.unschedule :=
  .of_same rfl rfl rfl

theorem postsAtMostOne_step {d : Driver σ ε} (hd : d.Reserved) {s : System σ} {step : Step σ}
    (h : Undisturbed s step) (hquiet : ¬ Engages d s step) :
    PostsAtMostOne s (s.step d step).1 := by
  cases step with
  | perform mode =>
      rw [step_perform]
      refine ⟨fun hidle => ?_, .inl (completions_perform s d mode)⟩
      by_cases hmode : mode = .calibrate
      · subst hmode
        exact idle_restart hd.reset hidle
      · exact idle_perform hd hmode hquiet
  | capture lines time =>
      cases hp : s.control.pending with
      | some waiting => rw [step_capture_of_pending hp]; exact .refl s
      | none =>
          rw [step_capture_of_none hp]
          refine ⟨fun hidle => absurd hidle.mask h, .inl ?_⟩
          simp [completions]
  | dispatch job guarded => exact postsAtMostOne_enter hd.reset s job guarded
  | drain =>
      have hdrain : PostsAtMostOne s (s.drain d).2 :=
        drain_related .refl .trans postsAtMostOne_unschedule
          (fun s entry => postsAtMostOne_enter hd.reset s entry.job entry.guarded) s
      have hover : PostsAtMostOne (s.drain d).2 (s.drain d).2.handOver := .of_same rfl rfl rfl
      exact hdrain.trans hover
  | dequeue =>
      rcases step_dequeue s d with h | h <;> rw [h]
      · exact .refl s
      · exact postsAtMostOne_unschedule s
  | arm deadline => exact absurd h not_false
  | order c =>
      cases c with
      | unmask lines => exact absurd h not_false
      | _ => exact .of_same rfl rfl rfl
  | advance ticks | setClock now | update u | adjust f => exact .of_same rfl rfl rfl

theorem completions_lt_imp_not_engages {s : System σ} {d : Driver σ ε} {step : Step σ}
    (h : s.completions < (s.step d step).1.completions) : ¬ Engages d s step := by
  intro hengages
  cases step with
  | perform mode =>
      rw [step_perform, completions_perform] at h
      exact absurd h (Nat.lt_irrefl _)
  | _ => exact hengages

/-- Once a completion is posted, no other is until the driver has agreed to a request for an
operation that ends with one. The run before and after is any run in undisturbed surroundings:
requests that succeed or fail, interrupts taken or refused, jobs in place or stale, drains, and
changes of the clock, the exchange and the chip. -/
theorem no_completion_until_engaged {d : Driver σ ε} (hd : d.Reserved) {s : System σ}
    {before after : List (Step σ)} {step : Step σ}
    (hrun : Admissible d Undisturbed s (before ++ step :: after))
    (hposts : (s.run d before).completions < ((s.run d before).step d step).1.completions)
    (hquiet : Admissible d (fun s step => ¬ Engages d s step)
      ((s.run d before).step d step).1 after) :
    (s.run d (before ++ step :: after)).completions = (s.run d before).completions + 1 := by
  obtain ⟨hstep, hafter⟩ := hrun.append.2
  -- The step that posts starts no operation, so it is one of those that leave the radio idle.
  have hfirst := postsAtMostOne_step hd hstep (completions_lt_imp_not_engages hposts)
  have hrest := run_related .refl .trans (fun _ _ h => postsAtMostOne_step hd h.1 h.2)
    (hafter.and hquiet)
  rw [run_append, run_cons]
  rcases hfirst.completions with hsame | ⟨-, hidle, hone⟩
  · omega
  · rcases hrest.completions with hsame | ⟨hbusy, -, -⟩
    · rw [hsame, hone]
    · exact absurd hidle hbusy

/-- A frame is received; then a watchdog that was taken out earlier, a drain, a calibration and a
channel assessment post nothing more. -/
theorem received_once :
    ((bench []).run Device.stated.driver
      ([.perform .receive, .capture 1 none] ++ .dispatch .interrupt false ::
        [.dispatch .watchdog true, .setClock 5000, .drain, .perform .calibrate,
          .perform .assess])).completions = 1 := by
  refine no_completion_until_engaged (Device.driver_reserved .stated) ?_ (by decide) ?_
  · refine ⟨trivial, ?_, trivial, trivial, trivial, trivial, trivial, trivial, trivial⟩
    show (7 : UInt8) ≠ 0
    decide
  · simp [Admissible, Engages, Mode.completes, Mode.watched]

end System

end Transceiver
