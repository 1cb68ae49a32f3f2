import Transceiver.Proofs.Routines
import Transceiver.Proofs.Run

/-!
Postings: the trace accounts for what the cell holds.

Whoever writes the cell asks the scheduler for the same thing, so the calls of a trace tell what the
cell was given and when. `Follows` is the account: a cell is empty, or it holds what it was given
last, or it was given nothing and holds what it held. An empty cell needs no call, since a job takes
itself out in silence.

The relation is a preorder, every routine is a chain of effects that keep it, and so a run keeps it,
whatever its steps are and however the driver answers. No condition is put on either.
-/

namespace Transceiver

/-- What the cell is given by a call; `some none` is a cancellation. -/
def Call.posting? : Call → Option (Option Deferred)
  | .agenda (.post .interrupt) => some (some .interrupt)
  | .agenda (.arm deadline .watchdog) => some (some (.watchdog deadline))
  | .agenda .clear => some none
  | _ => none

theorem posting?_request (content : Option Deferred) :
    (Call.agenda (Deferral.request content)).posting? = some content := by
  rcases content with _ | _ | deadline <;> rfl

/-- What the cell is given by some calls, in their order. -/
def postings (calls : List Call) : List (Option Deferred) := calls.filterMap Call.posting?

@[simp] theorem postings_append (front back : List Call) :
    postings (front ++ back) = postings front ++ postings back :=
  List.filterMap_append

/-- Nothing that a driver does around its chip is a posting. -/
@[simp] theorem postings_acts (acts : List Act) : postings (acts.map Act.call) = [] :=
  Act.filterMap_calls (fun a => by cases a <;> rfl) acts

/-- Deadline of an action that has one. -/
def Deferred.deadline? : Deferred → Option Ticks
  | interrupt => none
  | watchdog deadline => some deadline

/-- Deadline for which a call arms the watchdog. -/
def Call.armed? : Call → Option Ticks
  | .agenda (.arm deadline .watchdog) => some deadline
  | _ => none

theorem Call.armed?_eq_bind (c : Call) :
    c.armed? = c.posting?.bind (·.bind Deferred.deadline?) := by
  rcases c with _ | _ | (⟨_ | _⟩ | ⟨_, _ | _⟩ | _ | _) | _ <;> rfl

/-- If the last posting is a watchdog, its deadline is the last one armed. -/
theorem getLast?_armed_of_postings {calls : List Call} {deadline : Ticks}
    (h : (postings calls).getLast? = some (some (.watchdog deadline))) :
    (calls.filterMap Call.armed?).getLast? = some deadline := by
  obtain ⟨front, hfront⟩ := List.getLast?_eq_some_iff.mp h
  have harmed : calls.filterMap Call.armed? =
      (postings calls).filterMap (·.bind Deferred.deadline?) := by
    rw [postings, List.filterMap_filterMap]
    congr 1
    funext c
    rw [Call.armed?_eq_bind]
  rw [harmed, hfront]
  simp [Deferred.deadline?]

namespace System

variable {σ ε : Type}

/-- `t` comes after `s`, by calls that account for what its cell holds. -/
def Follows (s t : System σ) : Prop :=
  ∃ calls, t.trace = s.trace ++ calls ∧
    (t.deferral.held = none ∨
      t.deferral.held = (postings calls).getLast?.getD s.deferral.held)

theorem Follows.of_emptied {s t : System σ} {calls : List Call}
    (htrace : t.trace = s.trace ++ calls) (hheld : t.deferral.held = none) : Follows s t :=
  ⟨calls, htrace, .inl hheld⟩

theorem Follows.of_posted {s t : System σ} {calls : List Call} {content : Option Deferred}
    (htrace : t.trace = s.trace ++ calls) (hlast : (postings calls).getLast? = some content)
    (hheld : t.deferral.held = content) : Follows s t :=
  ⟨calls, htrace, .inr (by rw [hlast, hheld]; rfl)⟩

theorem Follows.of_kept {s t : System σ} {calls : List Call}
    (htrace : t.trace = s.trace ++ calls) (hnone : postings calls = [])
    (hheld : t.deferral.held = s.deferral.held) : Follows s t :=
  ⟨calls, htrace, .inr (by rw [hnone, hheld]; rfl)⟩

theorem Follows.of_same {s t : System σ} (htrace : t.trace = s.trace)
    (hheld : t.deferral.held = s.deferral.held) : Follows s t :=
  .of_kept (by rw [htrace, List.append_nil]) rfl hheld

theorem Follows.refl (s : System σ) : Follows s s := .of_same rfl rfl

theorem Follows.trans {s t u : System σ} (hst : Follows s t) (htu : Follows t u) :
    Follows s u := by
  obtain ⟨front, htrace, hheld⟩ := hst
  obtain ⟨back, htrace', hheld'⟩ := htu
  refine ⟨front ++ back, by rw [htrace', htrace, List.append_assoc], ?_⟩
  rw [postings_append]
  rcases hheld' with hnone | hlast
  · exact .inl hnone
  cases hback : (postings back).getLast? with
  | some content =>
      rw [hback] at hlast
      simp [hback, hlast]
  | none =>
      -- Nothing was posted on the second way, so the first one accounts for the cell.
      rw [hback] at hlast
      rw [List.getLast?_eq_none_iff.mp hback, List.append_nil]
      rcases hheld with hnone | hkept
      · exact .inl (hlast.trans hnone)
      · exact .inr (hlast.trans hkept)

/-! ### Routines -/

theorem follows_order (s : System σ) (c : BoardCall) : Follows s (s.order c) :=
  .of_kept rfl rfl rfl

theorem follows_defer (s : System σ) (content : Option Deferred) :
    Follows s (s.defer content) := by
  have hlast : (postings [.agenda (Deferral.request content)]).getLast? = some content := by
    simp [postings, posting?_request]
  exact .of_posted rfl hlast rfl

theorem follows_shielded {s : System σ} {body : System σ → System σ}
    (h : Follows (s.order .disable) (body (s.order .disable))) : Follows s (s.shielded body) :=
  (follows_order s .disable).trans (h.trans (follows_order _ .enable))

theorem follows_quiesce (s : System σ) (d : Driver σ ε) : Follows s (s.quiesce d) := by
  rw [quiesce_eq]
  exact .of_emptied rfl rfl

theorem follows_arm (s : System σ) (deadline : Ticks) : Follows s (s.arm deadline) :=
  follows_shielded (follows_defer _ _)

theorem follows_watch (s : System σ) (d : Driver σ ε) (w : Window) : Follows s (s.watch d w) := by
  rw [watch_eq]
  have hasked : Follows s
      (s.log (.driver (.airtime s.exchange.operation.channel.modulation w.length))) :=
    .of_kept rfl rfl rfl
  exact hasked.trans (follows_arm _ _)

theorem follows_restart (s : System σ) (d : Driver σ ε) : Follows s (s.restart d).1 := by
  rw [restart_eq]
  exact .of_kept rfl (postings_acts _) rfl

theorem follows_noteSending (s : System σ) (sending : Bool) :
    Follows s (s.noteSending sending) := .of_same rfl rfl

theorem follows_complete (s : System σ) : Follows s s.complete := .of_kept rfl rfl rfl

theorem follows_launch {s : System σ} {d : Driver σ ε} {activity : Start}
    {next : System σ → System σ} (hnext : ∀ s, Follows s (next s)) :
    Follows s (s.launch d activity next).1 := by
  have hstarted : Follows s (s.started d activity) := by
    rw [started_eq]
    exact .of_kept rfl (postings_acts _) rfl
  cases h : (d.start activity s.exchange s.chip).outcome with
  | ok =>
      rw [launch_of_ok h]
      exact hstarted.trans (hnext _)
  | error e =>
      rw [launch_of_error h]
      exact hstarted.trans (follows_quiesce _ d)

theorem follows_perform (s : System σ) (d : Driver σ ε) (mode : Mode) :
    Follows s (s.perform d mode).1 := by
  have hrest := follows_quiesce s d
  cases mode with
  | stop => exact hrest
  | calibrate => exact follows_restart s d
  | transmit | receive =>
      exact hrest.trans (follows_launch fun t =>
        (follows_noteSending t _).trans (follows_watch _ d _))
  | scan => exact hrest.trans ((follows_noteSending _ false).trans (follows_launch .refl))
  | carrier | assess | stream => exact hrest.trans (follows_launch .refl)
  | detect =>
      exact hrest.trans ((follows_noteSending _ false).trans
        ((follows_watch _ d _).trans (follows_launch .refl)))

theorem follows_interpret (s : System σ) (d : Driver σ ε) : Follows s (s.interpret d) := by
  have hheard : Follows s (s.heard d) := by
    rw [heard_eq]
    exact .of_kept rfl (postings_acts _) rfl
  have hshut : ∀ t : System σ, Follows t (t.shielded (·.notePending none)) := by
    intro t
    exact follows_shielded (.of_same rfl rfl)
  rw [interpret_eq]
  refine .trans ?_ (hshut _)
  cases (s.found d).status with
  | complete => exact hheard.trans ((follows_quiesce _ d).trans (follows_complete _))
  | pending rearm =>
      cases rearm with
      | none => exact hheard
      | some deadline => exact hheard.trans (follows_arm _ deadline)

theorem follows_recover (s : System σ) (d : Driver σ ε) : Follows s (s.recover d) := by
  have hrest := follows_quiesce s d
  have hreport : ∀ t : System σ,
      Follows t (((t.order .enable).editFrame (.setLength 0)).complete) := by
    intro t
    have hedit : Follows (t.order .enable) ((t.order .enable).editFrame (.setLength 0)) :=
      .of_kept rfl rfl rfl
    exact (follows_order t .enable).trans (hedit.trans (follows_complete _))
  rw [recover_eq]
  refine .trans ?_ (hreport _)
  split
  · exact hrest.trans (follows_restart _ d)
  · exact hrest

theorem follows_dispatch (s : System σ) (d : Driver σ ε) (job : RadioJob) :
    Follows s (s.dispatch d job) := by
  cases h : s.deferral.holds job with
  | false =>
      rw [dispatch_of_stale h]
      cases job with
      | interrupt => exact (follows_order s _).trans (follows_order _ _)
      | watchdog =>
          exact (follows_order s _).trans ((follows_order _ _).trans (follows_order _ _))
  | true =>
      have htaken : Follows s (s.shielded (·.take job)) := by
        rw [shielded_take_eq]
        exact .of_emptied rfl (by rw [Deferral.take_of_holds h])
      cases job with
      | interrupt =>
          rw [dispatch_interrupt h]
          exact htaken.trans (follows_interpret _ d)
      | watchdog =>
          rw [dispatch_watchdog h]
          exact htaken.trans (follows_recover _ d)

/-! ### Runs -/

theorem follows_guarded (s : System σ) (d : Driver σ ε) (job : RadioJob) (guarded : Bool) :
    Follows s ((if guarded then s.order .disable else s).dispatch d job) := by
  cases guarded with
  | false => exact follows_dispatch s d job
  | true => exact (follows_order s .disable).trans (follows_dispatch _ d job)

theorem follows_unschedule (s : System σ) : Follows s s.unschedule := .of_same rfl rfl

theorem follows_step (s : System σ) (d : Driver σ ε) (step : Step σ) :
    Follows s (s.step d step).1 := by
  cases step with
  | perform mode =>
      rw [step_perform]
      exact follows_perform s d mode
  | capture lines time =>
      cases hp : s.control.pending with
      | some waiting =>
          rw [step_capture_of_pending hp]
          exact .refl s
      | none =>
          rw [step_capture_of_none hp]
          have hnoted : Follows s { s with control := { s.control with
              capturedAt := time.getD s.clock.now
              pending := some lines } } := .of_same rfl rfl
          exact hnoted.trans (follows_defer _ (some .interrupt))
  | dispatch job guarded => exact follows_guarded s d job guarded
  | drain =>
      have hdrain : Follows s (s.drain d).2 :=
        drain_related .refl .trans follows_unschedule
          (fun s entry => follows_guarded s d entry.job entry.guarded) s
      have hover : Follows (s.drain d).2 (s.drain d).2.handOver := .of_same rfl rfl
      exact hdrain.trans hover
  | dequeue =>
      rcases step_dequeue s d with h | h <;> rw [h]
      · exact .refl s
      · exact follows_unschedule s
  | arm deadline => exact follows_arm s deadline
  | order c => exact follows_order s c
  | advance ticks | setClock now | update u | adjust f => exact .of_same rfl rfl

/-- Every run accounts for what the cell holds at its end. -/
theorem follows_run (s : System σ) (d : Driver σ ε) (steps : List (Step σ)) :
    Follows s (s.run d steps) :=
  run_related .refl .trans (fun s step _ => follows_step s d step) (admissible_true d s steps)

/-! ### What was posted in between -/

/-- What the cell was given on the way from `s` to `t`. -/
def postedSince (s t : System σ) : List (Option Deferred) :=
  postings (callsSince s t)

/-- A cell that is not empty holds what it was given last. -/
theorem Follows.held_eq {s t : System σ} (h : Follows s t) (hheld : t.deferral.held ≠ none) :
    t.deferral.held = (postedSince s t).getLast?.getD s.deferral.held := by
  obtain ⟨calls, htrace, hnone | hlast⟩ := h
  · exact absurd hnone hheld
  · rw [postedSince, callsSince_eq htrace]
    exact hlast

/-- The deadline that the watchdog was armed for last. -/
def lastArmed (s : System σ) : Option Ticks := (s.trace.filterMap Call.armed?).getLast?

/-- What the cell holds was posted since it was empty. -/
def Accounted (s : System σ) : Prop := ∃ s₀ : System σ, s₀.deferral.held = none ∧ Follows s₀ s

theorem Accounted.trans {s t : System σ} (h : Accounted s) (hst : Follows s t) : Accounted t := by
  obtain ⟨s₀, hnone, hs⟩ := h
  exact ⟨s₀, hnone, hs.trans hst⟩

/-- The deadline of a watchdog in the cell is the last one that was armed. -/
theorem Accounted.lastArmed {s : System σ} (h : Accounted s) {deadline : Ticks}
    (hheld : s.deferral.held = some (.watchdog deadline)) : s.lastArmed = some deadline := by
  obtain ⟨s₀, hnone, calls, htrace, hempty | hlast⟩ := h
  · rw [hheld] at hempty
    cases hempty
  refine getLast?_armed_of_postings ?_
  rw [hheld, hnone] at hlast
  cases hcalls : (postings calls).getLast? with
  | none =>
      rw [hcalls] at hlast
      cases hlast
  | some content =>
      rw [hcalls] at hlast
      rw [htrace, postings_append, List.getLast?_append, hcalls, hlast]
      rfl

end System

end Transceiver
