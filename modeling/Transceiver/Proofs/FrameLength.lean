import Transceiver.Proofs.Log

/-!
The length of the frame, and the length that a transmission is timed for.

The buffer knows how much it holds, and the descriptor of the operation says how long the frame is.
A transmission hands the buffer to the driver and asks it for the airtime of what the descriptor
says. Loading a frame sets both lengths. But the buffer serves both directions: a receive fills it,
a recovery empties it, and the MAC layer may cut or open it, while the descriptor keeps what was
entered last.

So each of the two lengths follows a history of its own, in which the last entry counts, and the
watchdog of a transmission is sized for its frame when the two histories end alike.
-/

namespace Transceiver

/-- Length that an edit gives the content of a buffer. -/
def FrameEdit.length (capacity : Nat) : FrameEdit → Nat
  | write _ _ => capacity
  | setLength n => min n.toNat capacity

namespace FrameBuffer

@[simp] theorem capacity_edit (f : FrameBuffer) (e : FrameEdit) :
    (f.edit e).capacity = f.capacity := by
  cases e <;> rfl

theorem size_edit (f : FrameBuffer) (e : FrameEdit) : (f.edit e).size = e.length f.capacity := by
  cases e with
  | write start data => exact f.size_write start data
  | setLength n => exact f.size_setLength n

end FrameBuffer

namespace Exchange

@[simp] theorem operation_edits (x : Exchange) (es : List FrameEdit) :
    (x.edits es).operation = x.operation := by
  induction es generalizing x with
  | nil => rfl
  | cons e es ih => exact ih (x.edit e)

@[simp] theorem completion_edits (x : Exchange) (es : List FrameEdit) :
    (x.edits es).completion = x.completion := by
  induction es generalizing x with
  | nil => rfl
  | cons e es ih => exact ih (x.edit e)

theorem edits_append (x : Exchange) (front back : List FrameEdit) :
    x.edits (front ++ back) = (x.edits front).edits back := List.foldl_append

/-- The last edit decides. -/
theorem size_edits (x : Exchange) (es : List FrameEdit) :
    (x.edits es).frame.size =
      (es.map (·.length x.frame.capacity)).getLast?.getD x.frame.size := by
  induction es generalizing x with
  | nil => rfl
  | cons e es ih =>
      have hsize : (x.edit e).frame.size = e.length x.frame.capacity := x.frame.size_edit e
      have hcapacity : (x.edit e).frame.capacity = x.frame.capacity := x.frame.capacity_edit e
      show ((x.edit e).edits es).frame.size = _
      rw [ih, hsize, hcapacity, List.map_cons, List.getLast?_cons]
      rfl

/-- A frame that is accepted sets both lengths. -/
theorem lengths_of_accepts {x : Exchange} {data : List UInt8}
    (h : x.accepts (.load data) = true) :
    (x.update (.load data)).frame.size = data.length ∧
      (x.update (.load data)).operation.length.toNat = data.length := by
  have hfits := accepts_load_iff.mp h
  have hbyte : data.length < 256 := by omega
  rw [update, load_of_le hfits]
  exact ⟨rfl, UInt8.toNat_ofNat_of_lt' hbyte⟩

end Exchange

/-- Length of the frame that is handed to the driver for a transmission. -/
def Call.handed? : Call → Option Nat
  | .driver (.start (.transmit false) x) => some x.frame.size
  | _ => none

theorem Act.handed?_call (a : Act) : a.call.handed? = none := by
  cases a <;> rfl

/-- Length for which the driver is asked for the time on the air. -/
def Call.timed? : Call → Option UInt8
  | .driver (.airtime _ length) => some length
  | _ => none

theorem Act.timed?_call (a : Act) : a.call.timed? = none := by
  cases a <;> rfl

namespace System

variable {σ ε : Type}

/-! ### Edits -/

/-- Edits of the frame buffer by a job. -/
def jobEdits (s : System σ) (d : Driver σ ε) (job : RadioJob) : List FrameEdit :=
  if s.deferral.holds job then
    match job with
    | .interrupt => (s.found d).edits
    | .watchdog => [.setLength 0]
  else []

theorem exchange_interpret (s : System σ) (d : Driver σ ε) :
    (s.interpret d).exchange = s.exchange.edits (s.found d).edits := by
  rw [interpret_eq, shielded_notePending_eq]
  rcases (s.found d).status with _ | _ | deadline <;> simp [quiesce_eq, arm_eq, complete, heard_eq]

theorem exchange_recover (s : System σ) (d : Driver σ ε) :
    (s.recover d).exchange = s.exchange.edits [.setLength 0] := by
  rw [recover_eq]
  split <;> simp [quiesce_eq, restart_eq, order, editFrame, complete, Exchange.edits]

theorem exchange_dispatch (s : System σ) (d : Driver σ ε) (job : RadioJob) :
    (s.dispatch d job).exchange = s.exchange.edits (s.jobEdits d job) := by
  cases h : s.deferral.holds job with
  | false =>
      rw [dispatch_of_stale h]
      cases job <;> simp [dropped, order, jobEdits, h, Exchange.edits]
  | true =>
      cases job with
      | interrupt =>
          rw [dispatch_interrupt h, exchange_interpret, jobEdits, if_pos h, shielded_take_eq]
          rfl
      | watchdog =>
          rw [dispatch_watchdog h, exchange_recover, jobEdits, if_pos h, shielded_take_eq]

theorem exchange_serve {s t : System σ} {d : Driver σ ε} {job : RadioJob}
    (h : s.serve? d = some (job, t)) : t.exchange = s.exchange.edits (s.jobEdits d job) := by
  obtain ⟨entry, -, -, rfl, rfl⟩ := serve?_eq_some_iff.mp h
  rw [enter]
  split <;> rw [exchange_dispatch] <;> rfl

/-- Edits of the frame buffer by the jobs of a drain, in turn. -/
def drainEdits (s : System σ) (d : Driver σ ε) : List FrameEdit :=
  match h : s.serve? d with
  | none => []
  | some (job, t) =>
    have := rank_lt_of_serve? h
    s.jobEdits d job ++ t.drainEdits d
termination_by rank s.scheduled

theorem drainEdits_of_none {s : System σ} {d : Driver σ ε} (h : s.serve? d = none) :
    s.drainEdits d = [] := by
  rw [drainEdits]
  split
  · rfl
  · simp_all

theorem drainEdits_of_some {s t : System σ} {d : Driver σ ε} {job : RadioJob}
    (h : s.serve? d = some (job, t)) :
    s.drainEdits d = s.jobEdits d job ++ t.drainEdits d := by
  rw [drainEdits]
  split <;> simp_all

theorem exchange_drain (s : System σ) (d : Driver σ ε) :
    (s.drain d).2.exchange = s.exchange.edits (s.drainEdits d) := by
  induction s using drain.induct d with
  | case1 s hnone =>
      rw [drain_of_none hnone, drainEdits_of_none hnone]
      rfl
  | case2 s job t hsome _ ih =>
      rw [drain_of_some hsome, drainEdits_of_some hsome, Exchange.edits_append,
        ← exchange_serve hsome]
      exact ih

/-- Edits of the frame buffer by a step, in turn. The loading of a frame is not an edit. -/
def edits (d : Driver σ ε) (s : System σ) : Step σ → List FrameEdit
  | .update (.edit e) => [e]
  | .dispatch job _ => s.jobEdits d job
  | .drain => s.drainEdits d
  | _ => []

theorem exchange_perform (s : System σ) (d : Driver σ ε) (mode : Mode) :
    (s.perform d mode).1.exchange = s.exchange := by
  by_cases h : mode = .calibrate
  · subst h
    simp [perform, restart_eq]
  · exact (perform_spec s d h).2.exchange

theorem exchange_step (s : System σ) (d : Driver σ ε) (step : Step σ) :
    (s.step d step).1.exchange =
      match step with
      | .update u => s.exchange.update u
      | step => s.exchange.edits (s.edits d step) := by
  cases step with
  | perform mode =>
      rw [step_perform]
      exact exchange_perform s d mode
  | capture lines time =>
      cases hp : s.control.pending with
      | some waiting =>
          rw [step_capture_of_pending hp]
          rfl
      | none =>
          rw [step_capture_of_none hp]
          rfl
  | dispatch job guarded =>
      cases guarded with
      | false => exact exchange_dispatch s d job
      | true => exact exchange_dispatch (s.order .disable) d job
  | drain => exact exchange_drain s d
  | dequeue => rcases step_dequeue s d with h | h <;> rw [h] <;> rfl
  | update u => rfl
  | arm deadline => rw [step, arm_eq]; rfl
  | advance ticks | setClock now | order c | adjust f => rfl

/-! ### Lengths -/

/-- Lengths that a step gives the content of the buffer, in turn. -/
def lengthsGiven (d : Driver σ ε) (s : System σ) : Step σ → List Nat
  | .update (.load data) => if s.exchange.accepts (.load data) then [data.length] else []
  | step => (s.edits d step).map (·.length s.exchange.frame.capacity)

/-- Lengths that a step enters in the descriptor of the operation. -/
def lengthsEntered (s : System σ) : Step σ → List Nat
  | .update (.load data) => if s.exchange.accepts (.load data) then [data.length] else []
  | .update (.amend p) => (p.length.map UInt8.toNat).toList
  | _ => []

theorem size_step (s : System σ) (d : Driver σ ε) (step : Step σ) :
    (s.step d step).1.exchange.frame.size =
      (s.lengthsGiven d step).getLast?.getD s.exchange.frame.size := by
  rw [exchange_step]
  cases step with
  | update u =>
      cases u with
      | load data =>
          cases h : s.exchange.accepts (.load data) with
          | false => simp [lengthsGiven, Exchange.update_of_refused h, h]
          | true => simp [lengthsGiven, (Exchange.lengths_of_accepts h).1, h]
      | edit e => exact s.exchange.size_edits [e]
      | register completion => rfl
      | amend p => rfl
  | _ => exact s.exchange.size_edits _

theorem length_step (s : System σ) (d : Driver σ ε) (step : Step σ) :
    (s.step d step).1.exchange.operation.length.toNat =
      (s.lengthsEntered step).getLast?.getD s.exchange.operation.length.toNat := by
  rw [exchange_step]
  cases step with
  -- Only the MAC layer writes to the descriptor, so all but its updates keep the length.
  | update u =>
      cases u with
      | load data =>
          cases h : s.exchange.accepts (.load data) with
          | false => simp [lengthsEntered, Exchange.update_of_refused h, h]
          | true => simp [lengthsEntered, (Exchange.lengths_of_accepts h).2, h]
      | edit e => rfl
      | register completion => rfl
      | amend p =>
          cases h : p.length <;> simp [lengthsEntered, Exchange.update, Operation.amend, h]
  | _ => simp [lengthsEntered]

/-! ### Transmissions -/

theorem transmit_calls (s : System σ) (d : Driver σ ε) :
    ∃ calls, (s.perform d .transmit).1.trace = s.trace ++ calls ∧
      calls.filterMap Call.handed? = [s.exchange.frame.size] ∧
      ((s.perform d .transmit).2 = .ok () →
        calls.filterMap Call.timed? = [s.exchange.operation.length]) := by
  have hhanded := Act.filterMap_calls Act.handed?_call
  have htimed := Act.filterMap_calls Act.timed?_call
  -- What comes before the driver's answer is the same whether it starts or not.
  have hasked : Logged s
      (quiesceCalls ++ routineCalls (.start (.transmit false) s.exchange)
        (d.start (.transmit false) s.exchange (d.sleep s.chip).1).acts)
      ((s.quiesce d).started d (.transmit false)) := by
    refine (logged_quiesce s d).trans ?_
    rw [quiesce_eq]
    exact logged_started _ d _
  cases h : (d.start (.transmit false) s.exchange (d.sleep s.chip).1).outcome with
  | ok =>
      rw [perform, launch_of_ok (by simpa [quiesce_eq] using h)]
      have hnoted : Logged ((s.quiesce d).started d (.transmit false)) []
          (((s.quiesce d).started d (.transmit false)).noteSending true) := .of_same rfl rfl
      refine ⟨_, ((hasked.trans hnoted).trans (logged_watch _ d _)).trace, ?_, fun _ => ?_⟩
      · simp only [List.filterMap_append, routineCalls, List.filterMap_cons, hhanded]
        rfl
      · have hx : ((s.quiesce d).started d (.transmit false)).exchange = s.exchange := by
          rw [started_eq, quiesce_eq]
        simp only [List.filterMap_append, routineCalls, List.filterMap_cons, htimed, hx]
        rfl
  | error e =>
      rw [perform, launch_of_error (by simpa [quiesce_eq] using h)]
      refine ⟨_, (hasked.trans (logged_quiesce _ d)).trace, ?_, fun hok => by cases hok⟩
      simp only [List.filterMap_append, routineCalls, List.filterMap_cons, hhanded]
      rfl

/-- A transmission hands over a frame of the length that the watchdog is timed for exactly when the
length that the buffer was given last is the one that was entered last, in particular when neither
was given anew after a frame was loaded. -/
theorem transmit_fits_iff (d : Driver σ ε) {s : System σ} (hempty : s.exchange.frame.bytes = [])
    (hlength : s.exchange.operation.length = 0) (steps : List (Step σ)) :
    let t := s.run d steps
    let given := (yielded d (lengthsGiven d) s steps).getLast?.getD 0
    let entered := (yielded d lengthsEntered s steps).getLast?.getD 0
    t.exchange.operation.length.toNat = entered ∧
      (∃ calls, (t.perform d .transmit).1.trace = t.trace ++ calls ∧
        calls.filterMap Call.handed? = [given] ∧
        (calls.filterMap Call.handed? = [t.exchange.operation.length.toNat] ↔ given = entered) ∧
        ((t.perform d .transmit).2 = .ok () →
          calls.filterMap Call.timed? = [t.exchange.operation.length])) ∧
      ∀ before data after, steps = before ++ .update (.load data) :: after →
        (s.run d before).exchange.accepts (.load data) = true →
        yielded d (lengthsGiven d) (s.run d (before ++ [.update (.load data)])) after = [] →
        yielded d lengthsEntered (s.run d (before ++ [.update (.load data)])) after = [] →
        given = data.length ∧ entered = data.length := by
  intro t given entered
  have hgiven : t.exchange.frame.size = given := by
    rw [run_last (·.exchange.frame.size) (fun s step => size_step s d step)]
    simp [given, FrameBuffer.size, hempty]
  have hentered : t.exchange.operation.length.toNat = entered := by
    rw [run_last (·.exchange.operation.length.toNat) (fun s step => length_step s d step)]
    simp [entered, hlength]
  obtain ⟨calls, htrace, hhanded, htimed⟩ := transmit_calls t d
  rw [hgiven] at hhanded
  refine ⟨hentered, ⟨calls, htrace, hhanded, ?_, htimed⟩, ?_⟩
  · rw [hhanded, hentered]
    exact List.singleton_inj
  · rintro before data after rfl haccepted hkept hkept'
    -- After the loading nothing is yielded, so it comes last in both histories.
    simp only [given, entered]
    rw [← List.singleton_append, ← List.append_assoc, yielded_append _ _ _ after,
      yielded_append _ _ _ after, hkept, hkept', yielded_append, yielded_append]
    simp [yielded, lengthsGiven, lengthsEntered, haccepted]

/-- A frame is sent and a longer one received. The answer to it is loaded and goes out later. -/
theorem answer_timed_for_its_length :
    let d := Device.stated.driver
    let s := bench [{ status := .complete },
      { status := .complete, received := some [7, 8, 9, 10], length := some 4 }]
    let before : List (Step Script) := [.update (.load [1, 2, 3]), .perform .transmit,
      .capture 1 none, .dispatch .interrupt false, .perform .receive, .capture 1 none,
      .dispatch .interrupt false]
    let t := s.run d (before ++ [.update (.load [5, 6]), .setClock 900])
    t.exchange.operation.length.toNat = 2 ∧
      ∃ calls, (t.perform d .transmit).1.trace = t.trace ++ calls ∧
        calls.filterMap Call.handed? = [2] ∧
        calls.filterMap Call.timed? = [t.exchange.operation.length] := by
  intro d s before t
  have hfine : t.chip.start.remaining = 0 := by decide
  have hok : (t.perform d .transmit).2 = .ok () := by
    rw [(t.perform_spec d (by decide)).1]
    simp [Driver.attempt, Mode.activity?, d, Device.driver, Script.tryStart, Script.trySleep,
      Failure.strike, hfine]
  have ht : s.run d (before ++ [.update (.load [5, 6]), .setClock 900]) = t := rfl
  obtain ⟨hlength, ⟨calls, htrace, hhanded, -, htimed⟩, hloaded⟩ :=
    transmit_fits_iff d (s := s) rfl rfl (before ++ [.update (.load [5, 6]), .setClock 900])
  obtain ⟨hgiven, hentered⟩ := hloaded before [5, 6] [.setClock 900] rfl (by decide) rfl rfl
  rw [ht] at hlength htrace htimed
  exact ⟨hlength.trans hentered, calls, htrace, hhanded.trans (by rw [hgiven]; rfl), htimed hok⟩

/-- A transmission gets stuck, and after the recovery the frame is to be sent again. The driver is
handed an empty buffer, and the watchdog waits for three bytes. -/
theorem retransmission_timed_for_lost_frame :
    let d := Device.stated.driver
    let s := (bench []).run d [.update (.load [1, 2, 3]), .perform .transmit, .setClock 5000,
      .dequeue, .dispatch .watchdog true]
    let t := (s.perform d .transmit).1
    (s.perform d .transmit).2 = .ok () ∧
      (callsSince s t).filterMap Call.handed? = [0] ∧
      (callsSince s t).filterMap Call.timed? = [3] :=
  ⟨rfl, by decide, by decide⟩

end System

end Transceiver
