import Transceiver.Proofs.Capture
import Transceiver.Proofs.Log

/-!
Interpretation: every capture is interpreted at most once, in its turn and with its own data.

A capture is kept in three places: its time and its lines are noted in the control record, and the
right to interpret it is the interrupt job in the cell. It waits only as long as it has all three.
The account of a step is an equation between lists of at most one capture: what waited before and
what the step accepts is what the step interprets and what waits after it. Two steps are not subject
to it, a request that is no calibration and a watchdog armed from outside; they give up whatever
waits. So over a run the interpretations are a sublist of the captures, and nothing but those two
kinds of step can be the reason that one is left out.
-/

namespace Transceiver

/-- Time and lines that a call hands to the driver for interpretation. -/
def Call.interpretation? : Call → Option (Ticks × UInt8)
  | .driver (.interpret time lines) => some (time, lines)
  | _ => none

theorem Act.interpretation?_call (a : Act) : a.call.interpretation? = none := by
  cases a <;> rfl

def interpretations (calls : List Call) : List (Ticks × UInt8) :=
  calls.filterMap Call.interpretation?

@[simp] theorem interpretations_append (front back : List Call) :
    interpretations (front ++ back) = interpretations front ++ interpretations back :=
  List.filterMap_append

theorem interpretations_routine (c : DriverCall) (acts : List Act) :
    interpretations (routineCalls c acts) = interpretations [.driver c] :=
  (Call.filterMap_routine Act.interpretation?_call c acts).trans
    (Call.filterMap_routine Act.interpretation?_call c []).symm

@[simp] theorem interpretations_verdict (completion : CompletionId) (status : Status) :
    interpretations (verdictCalls completion status) = [] := by
  rcases status with _ | _ | deadline <;> rfl

/-- No request interprets anything. -/
theorem Requested.interpretations {σ ε : Type} {d : Driver σ ε} {calls : List Call}
    (h : Requested d calls) : interpretations calls = [] := by
  induction h with
  | append _ _ hfront hback => rw [interpretations_append, hfront, hback, List.append_nil]
  | start | reset => rw [interpretations_routine]; rfl
  | nil | rest | arm | airtime => rfl

/-- Steps that give up a capture that waits: a request, unless it is a calibration, and a watchdog
armed from outside. -/
def Step.overrides {σ : Type} : Step σ → Bool
  | .perform mode => mode ≠ .calibrate
  | .arm _ => true
  | _ => false

namespace System

variable {σ ε : Type}

/-- The capture that waits for the interrupt job in the cell. -/
def waiting (s : System σ) : List (Ticks × UInt8) :=
  match s.deferral.held, s.control.pending with
  | some .interrupt, some lines => [(s.control.capturedAt, lines)]
  | _, _ => []

theorem waiting_congr {s t : System σ} (hheld : t.deferral.held = s.deferral.held)
    (hcontrol : t.control = s.control) : t.waiting = s.waiting := by
  rw [waiting, waiting, hheld, hcontrol]

theorem waiting_of_pending_none {s : System σ} (h : s.control.pending = none) :
    s.waiting = [] := by
  rw [waiting, h]
  split <;> simp_all

theorem waiting_of_held_ne {s : System σ} (h : s.deferral.held ≠ some .interrupt) :
    s.waiting = [] := by
  rw [waiting]
  split <;> simp_all

theorem waiting_of_holds {s : System σ} (hs : Paired s)
    (h : s.deferral.holds .interrupt = true) :
    ∃ lines, s.control.pending = some lines ∧ s.waiting = [(s.control.capturedAt, lines)] := by
  have hheld := Deferral.holdsInterrupt_iff.mp h
  obtain ⟨lines, hlines⟩ := Option.ne_none_iff_exists'.mp (hs.pending hheld)
  exact ⟨lines, hlines, by rw [waiting, hheld, hlines]⟩

/-- What was interpreted on the way from `s` to `t`. -/
def interpretedSince (s t : System σ) : List (Ticks × UInt8) :=
  interpretations (callsSince s t)

theorem interpretedSince_eq {s t : System σ} {calls : List Call}
    (h : t.trace = s.trace ++ calls) : interpretedSince s t = interpretations calls := by
  rw [interpretedSince, callsSince_eq h]

/-- The capture that a step accepts. -/
def captured (d : Driver σ ε) (s : System σ) (step : Step σ) : List (Ticks × UInt8) :=
  match step, (s.step d step).2 with
  | .capture lines time, .done => [(time.getD s.clock.now, lines)]
  | _, _ => []

theorem captured_of_done {d : Driver σ ε} {s : System σ} {lines : UInt8} {time : Option Ticks}
    (h : (s.step d (.capture lines time)).2 = .done) :
    captured d s (.capture lines time) = [(time.getD s.clock.now, lines)] := by
  unfold captured
  rw [h]

theorem captured_of_overrun {d : Driver σ ε} {s : System σ} {lines : UInt8}
    {time : Option Ticks} {o : Overrun} (h : (s.step d (.capture lines time)).2 = .overrun o) :
    captured d s (.capture lines time) = [] := by
  unfold captured
  rw [h]

/-- While a capture waits, no other is accepted. -/
theorem captured_of_waiting {s : System σ} {capture : Ticks × UInt8} (h : s.waiting = [capture])
    (d : Driver σ ε) (step : Step σ) : captured d s step = [] := by
  cases step with
  | capture lines time =>
      cases hp : s.control.pending with
      | none => simp [waiting_of_pending_none hp] at h
      | some before => exact captured_of_overrun (capture_overrun_iff.mpr ⟨before, hp, rfl⟩)
  | _ => rfl

/-- What waits in `s` and is accepted on the way to `t` is interpreted on the way or waits in
`t`. -/
def Accounts (s : System σ) (accepted : List (Ticks × UInt8)) (t : System σ) : Prop :=
  ∃ calls, t.trace = s.trace ++ calls ∧
    interpretations calls ++ t.waiting = s.waiting ++ accepted

theorem interpretations_interpretCalls (s : System σ) (d : Driver σ ε) :
    interpretations (s.interpretCalls d) =
      [(s.control.capturedAt, s.control.pending.getD 0)] := by
  have hverdict := interpretations_verdict (s.heard d).exchange.completion (s.found d).status
  rw [interpretations] at hverdict ⊢
  rw [filterMap_interpretCalls Act.interpretation?_call, hverdict]
  rfl

theorem interpretations_recoverCalls (s : System σ) (d : Driver σ ε) :
    interpretations (s.recoverCalls d) = [] := by
  rw [interpretations, filterMap_recoverCalls Act.interpretation?_call]
  split <;> rfl

/-! ### The account of a step -/

theorem Accounts.of_same {s t : System σ} {calls : List Call} (htrace : t.trace = s.trace ++ calls)
    (hquiet : interpretations calls = []) (hwaits : t.waiting = s.waiting) : Accounts s [] t :=
  ⟨calls, htrace, by rw [hquiet, hwaits, List.nil_append, List.append_nil]⟩

theorem Accounts.refl (s : System σ) : Accounts s [] s :=
  .of_same (List.append_nil _).symm rfl rfl

theorem Accounts.trans {s t u : System σ} {front back : List (Ticks × UInt8)}
    (hst : Accounts s front t) (htu : Accounts t back u) : Accounts s (front ++ back) u := by
  obtain ⟨calls, htrace, hcalls⟩ := hst
  obtain ⟨calls', htrace', hcalls'⟩ := htu
  refine ⟨calls ++ calls', by rw [htrace', htrace, List.append_assoc], ?_⟩
  rw [interpretations_append, List.append_assoc, hcalls', ← List.append_assoc, hcalls,
    List.append_assoc]

theorem accounts_dispatch {s : System σ} (hs : Paired s) (d : Driver σ ε) (job : RadioJob) :
    Accounts s [] (s.dispatch d job) := by
  cases h : s.deferral.holds job with
  | false =>
      rw [dispatch_of_stale h]
      refine ⟨_, (logged_dropped s job).trace, ?_⟩
      have hquiet : interpretations (droppedCalls job) = [] := by cases job <;> rfl
      rw [hquiet, List.append_nil]
      cases job <;> exact waiting_congr rfl rfl
  | true =>
      have hnone : (s.dispatch d job).waiting = [] :=
        waiting_of_pending_none (by rw [pending_dispatch, if_pos h])
      cases job with
      | interrupt =>
          obtain ⟨lines, hlines, hwaits⟩ := waiting_of_holds hs h
          refine ⟨_, (logged_dispatch_interrupt h d).trace, ?_⟩
          rw [hnone, hwaits, interpretations_append, interpretations_interpretCalls, hlines]
          rfl
      | watchdog =>
          -- The cell holds the watchdog, so no capture has the right to be interpreted.
          have hidle : s.waiting = [] := by
            refine waiting_of_held_ne fun hheld => ?_
            simp [Deferral.holds, hheld, Deferred.kind] at h
          refine ⟨_, (logged_dispatch_watchdog h d).trace, ?_⟩
          rw [hnone, hidle, interpretations_append, interpretations_append,
            interpretations_recoverCalls]
          rfl

theorem accounts_enter {s : System σ} (hs : Paired s) (d : Driver σ ε) (job : RadioJob)
    (guarded : Bool) :
    Accounts s [] ((if guarded then s.order .disable else s).dispatch d job) := by
  cases guarded with
  | false => exact accounts_dispatch hs d job
  | true =>
      have hdisable : Accounts s [] (s.order .disable) :=
        .of_same rfl rfl (waiting_congr rfl rfl)
      have hpaired : Paired (s.order .disable) := hs.of_same rfl rfl
      exact hdisable.trans (accounts_dispatch hpaired d job)

theorem accounts_unschedule (s : System σ) : Accounts s [] s.unschedule :=
  .of_same (List.append_nil _).symm rfl (waiting_congr rfl rfl)

theorem accounts_drain {s : System σ} (hs : Paired s) (d : Driver σ ε) :
    Accounts s [] (s.drain d).2 := by
  refine (drain_related (R := fun s t => Paired s → Paired t ∧ Accounts s [] t) ?_ ?_ ?_ ?_ s hs).2
  · exact fun s hs => ⟨hs, .refl s⟩
  · intro s t u hst htu hs
    obtain ⟨ht, hst⟩ := hst hs
    obtain ⟨hu, htu⟩ := htu ht
    exact ⟨hu, hst.trans htu⟩
  · exact fun s hs => ⟨hs.of_same rfl rfl, accounts_unschedule s⟩
  · exact fun s entry hs => ⟨paired_enter hs entry.job entry.guarded, accounts_enter hs d _ _⟩

theorem accounts_step {s : System σ} (hs : Paired s) (d : Driver σ ε) {step : Step σ}
    (h : step.overrides = false) : Accounts s (captured d s step) (s.step d step).1 := by
  cases step with
  | perform mode =>
      obtain rfl : mode = .calibrate := by simpa [Step.overrides] using h
      obtain ⟨calls, hcalls, hlog⟩ := requests_perform s d .calibrate
      rw [step_perform]
      exact .of_same hlog.trace hcalls.interpretations
        (waiting_congr (by rw [perform, restart_eq]) (by rw [perform, restart_eq]))
  | capture lines time =>
      have hlog := (logged_capture s d lines time).trace
      cases hp : s.control.pending with
      | none =>
          have hdone : (s.step d (.capture lines time)).2 = .done := capture_done_iff.mpr hp
          rw [if_pos hp] at hlog
          refine ⟨_, hlog, ?_⟩
          rw [waiting_of_pending_none hp, captured_of_done hdone, step_capture_of_none hp]
          rfl
      | some before =>
          have hover : (s.step d (.capture lines time)).2 = .overrun ⟨lines, before⟩ :=
            capture_overrun_iff.mpr ⟨before, hp, rfl⟩
          rw [captured_of_overrun hover, step_capture_of_pending hp]
          exact .refl s
  | dispatch job guarded => exact accounts_enter hs d job guarded
  | drain =>
      have hover : Accounts (s.drain d).2 [] (s.drain d).2.handOver :=
        .of_same (List.append_nil _).symm rfl (waiting_congr rfl rfl)
      exact (accounts_drain hs d).trans hover
  | dequeue =>
      rcases step_dequeue s d with heq | heq <;> rw [heq]
      · exact .refl s
      · exact accounts_unschedule s
  | arm deadline => cases h
  | order c => exact .of_same rfl rfl (waiting_congr rfl rfl)
  | advance ticks | setClock now | update u | adjust f =>
      exact .of_same (List.append_nil _).symm rfl (waiting_congr rfl rfl)

/-- A step that overrides interprets nothing and leaves nothing to be interpreted. -/
theorem waiting_of_overrides (s : System σ) (d : Driver σ ε) {step : Step σ}
    (h : step.overrides = true) :
    (∃ calls, (s.step d step).1.trace = s.trace ++ calls ∧ interpretations calls = []) ∧
      (s.step d step).1.waiting = [] := by
  cases step with
  | perform mode =>
      have hmode : mode ≠ .calibrate := by simpa [Step.overrides] using h
      obtain ⟨calls, hcalls, hlog⟩ := requests_perform s d mode
      rw [step_perform]
      exact ⟨⟨calls, hlog.trace, hcalls.interpretations⟩,
        waiting_of_pending_none (perform_spec s d hmode).2.pending⟩
  | arm deadline =>
      refine ⟨⟨_, (logged_arm s deadline).trace, rfl⟩, waiting_of_held_ne ?_⟩
      simp [step, arm_eq]
  | _ => cases h

/-! ### Runs -/

/-- The captures that a run accepts, in their order. -/
def accepted (d : Driver σ ε) (s : System σ) (steps : List (Step σ)) : List (Ticks × UInt8) :=
  yielded d (captured d) s steps

theorem interpretations_sublist {s : System σ} (hs : Paired s) (d : Driver σ ε)
    (steps : List (Step σ)) :
    ∃ calls, (s.run d steps).trace = s.trace ++ calls ∧
      (interpretations calls ++ (s.run d steps).waiting).Sublist
        (s.waiting ++ accepted d s steps) := by
  refine (run_yielded (R := fun s xs t => Paired s → Paired t ∧ ∃ calls,
    t.trace = s.trace ++ calls ∧
      (interpretations calls ++ t.waiting).Sublist (s.waiting ++ xs)) ?_ ?_ ?_ s steps hs).2
  · exact fun s hs => ⟨hs, [], (List.append_nil _).symm, by simp [interpretations]⟩
  · intro s t u xs ys hst htu hs
    obtain ⟨ht, calls, htrace, hcalls⟩ := hst hs
    obtain ⟨hu, calls', htrace', hcalls'⟩ := htu ht
    refine ⟨hu, calls ++ calls', by rw [htrace', htrace, List.append_assoc], ?_⟩
    have hfront := (List.Sublist.refl (interpretations calls)).append hcalls'
    have hback := hcalls.append (List.Sublist.refl ys)
    simp only [interpretations_append, List.append_assoc] at hfront hback ⊢
    exact hfront.trans hback
  · intro s step hs
    refine ⟨paired_step hs step, ?_⟩
    cases hover : step.overrides with
    | false =>
        obtain ⟨calls, htrace, hcalls⟩ := accounts_step hs d hover
        exact ⟨calls, htrace, hcalls ▸ List.Sublist.refl _⟩
    | true =>
        obtain ⟨⟨calls, htrace, hquiet⟩, hnone⟩ := waiting_of_overrides s d hover
        exact ⟨calls, htrace, by rw [hquiet, hnone]; exact List.nil_sublist _⟩

/-- How a capture that waits in `s` fares in the steps after it: before anything else happens to it,
a step overrides it or interprets it, or else it still waits at the end. -/
def Settles (d : Driver σ ε) (s : System σ) (capture : Ticks × UInt8) (steps : List (Step σ)) :
    Prop :=
  interpretedSince s (s.run d steps) = [] ∧ (s.run d steps).waiting = [capture] ∨
    ∃ before step after, steps = before ++ step :: after ∧
      interpretedSince s (s.run d before) = [] ∧
      (step.overrides = true ∨
        interpretedSince (s.run d before) ((s.run d before).step d step).1 = [capture])

theorem settles_of_waiting {s : System σ} (hs : Paired s) {capture : Ticks × UInt8}
    (h : s.waiting = [capture]) (d : Driver σ ε) (steps : List (Step σ)) :
    Settles d s capture steps := by
  let P : System σ → Prop := fun t => Paired t ∧ t.waiting = [capture] ∧
    ∃ calls, t.trace = s.trace ++ calls ∧ interpretations calls = []
  let Q : System σ → Step σ → Prop := fun t step =>
    step.overrides = true ∨ interpretedSince t (t.step d step).1 = [capture]
  have hquiet : ∀ {t}, P t → interpretedSince s t = [] := by
    rintro t ⟨-, -, calls, htrace, hcalls⟩
    rw [interpretedSince_eq htrace, hcalls]
  have hstep : ∀ t step, P t → True → Q t step ∨ P (t.step d step).1 := by
    rintro t step ⟨ht, hwaits, calls, htrace, hcalls⟩ -
    cases hover : step.overrides with
    | true => exact .inl (.inl hover)
    | false =>
        obtain ⟨calls', htrace', hcalls'⟩ := accounts_step ht d hover
        rw [hwaits, captured_of_waiting hwaits, List.append_nil] at hcalls'
        rcases List.append_eq_singleton_iff.mp hcalls' with ⟨hnone, hwaits'⟩ | ⟨hone, -⟩
        · refine .inr ⟨paired_step ht step, hwaits', calls ++ calls', ?_, ?_⟩
          · rw [htrace', htrace, List.append_assoc]
          · rw [interpretations_append, hcalls, hnone, List.append_nil]
        · exact .inl (.inr (by rw [interpretedSince_eq htrace', hone]))
  have hstart : P s := ⟨hs, h, [], (List.append_nil _).symm, rfl⟩
  rcases run_until hstep (admissible_true d s steps) hstart with
    hend | ⟨before, step, after, heq, hbefore, hends⟩
  · exact .inl ⟨hquiet hend, hend.2.1⟩
  · exact .inr ⟨before, step, after, heq, hquiet hbefore, hends⟩

/-- In every run of a new controller, what is interpreted is a sublist of what was captured, times
and lines included. If a capture is left out, a request other than a calibration or a watchdog armed
from outside came before its job, or it waits still. An interpretation has the lines of a capture
and uses it up, and a stale watchdog leaves the one that waits alone. -/
theorem captures_interpreted_in_turn {d : Driver σ ε} {s : System σ} (hcontrol : s.control = {})
    (hheld : s.deferral.held = none) (steps : List (Step σ)) :
    let t := s.run d steps
    (interpretedSince s t).Sublist (accepted d s steps) ∧
      (∀ lines time after, (t.step d (.capture lines time)).2 = .done →
        Settles d (t.step d (.capture lines time)).1 (time.getD t.clock.now, lines) after) ∧
      (t.deferral.holds .interrupt = true → ∃ lines, t.control.pending = some lines ∧
        interpretedSince t (t.dispatch d .interrupt) = [(t.control.capturedAt, lines)] ∧
        (t.dispatch d .interrupt).waiting = []) ∧
      (t.deferral.holds .watchdog = false → (t.dispatch d .watchdog).waiting = t.waiting) := by
  intro t
  have hnew : Paired s := paired_of_new hcontrol hheld
  have ht : Paired t := paired_run hnew d steps
  refine ⟨?_, fun lines time after hdone => ?_, fun hholds => ?_, fun hstale => ?_⟩
  · obtain ⟨calls, htrace, hcalls⟩ := interpretations_sublist hnew d steps
    rw [waiting_of_pending_none (s := s) (by simp [hcontrol]), List.nil_append] at hcalls
    rw [interpretedSince_eq htrace]
    exact (List.sublist_append_left _ _).trans hcalls
  · refine settles_of_waiting (paired_step ht _) ?_ d after
    rw [step_capture_of_none (capture_done_iff.mp hdone)]
    rfl
  · obtain ⟨lines, hlines, -⟩ := waiting_of_holds ht hholds
    refine ⟨lines, hlines, ?_, waiting_of_pending_none (by rw [pending_dispatch, if_pos hholds])⟩
    rw [interpretedSince_eq (logged_dispatch_interrupt hholds d).trace, interpretations_append,
      interpretations_interpretCalls, hlines]
    rfl
  · rw [dispatch_of_stale hstale]
    exact waiting_congr rfl rfl

/-- Of three captures two are interpreted, one of them without lines; a stop overrides the third. -/
theorem captures_of_two_receives :
    let d := Device.stated.driver
    let s := bench [{ status := .pending (some 5000) }]
    let steps : List (Step Script) := [.perform .receive, .capture 1 (some 10),
      .dispatch .watchdog true, .dispatch .interrupt false, .capture 0 (some 20),
      .dispatch .interrupt false, .perform .receive, .capture 2 (some 30), .perform .stop]
    accepted d s steps = [(10, 1), (20, 0), (30, 2)] ∧
      [(10, 1), (20, 0)].Sublist (accepted d s steps) := by
  intro d s steps
  have hin : interpretedSince s (s.run d steps) = [(10, 1), (20, 0)] := by decide
  obtain ⟨hsub, -⟩ := captures_interpreted_in_turn (d := d) (s := s) rfl rfl steps
  rw [hin] at hsub
  exact ⟨by decide, hsub⟩

end System

end Transceiver
