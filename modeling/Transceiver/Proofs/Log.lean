import Transceiver.Proofs.Routines
import Transceiver.Proofs.Run

/-!
The log: which calls a routine makes, and in which order.

`Logged s calls t` says that a routine that leads from `s` to `t` makes these calls and no others,
and that the board has changed as they say. It composes along a chain of routines as lists append,
so a property of logs that is kept by appending needs to be looked at only for the pieces: the block
that brings the radio to rest, the one that arms the watchdog, and a driver routine with what it
does around the chip.

A request is a sequence of such pieces, `Requested`, in an order that depends on the mode. The two
jobs have a fixed order, and their logs are given as equations.
-/

namespace Transceiver

/-- What a call orders the board to do. -/
def Call.order? : Call → Option BoardCall
  | .board c => some c
  | _ => none

/-- The board as some calls leave it. -/
def Board.through (b : Board) (calls : List Call) : Board := b.after (calls.filterMap Call.order?)

@[simp] theorem Board.through_nil (b : Board) : b.through [] = b := rfl

@[simp] theorem Board.through_append (b : Board) (front back : List Call) :
    b.through (front ++ back) = (b.through front).through back := by
  simp [through, after]

@[simp] theorem Board.through_board (b : Board) (c : BoardCall) (calls : List Call) :
    b.through (.board c :: calls) = (c.apply b).through calls := rfl

@[simp] theorem Board.through_edit (b : Board) (e : FrameEdit) (calls : List Call) :
    b.through (.edit e :: calls) = b.through calls := rfl

@[simp] theorem Board.through_agenda (b : Board) (c : AgendaCall) (calls : List Call) :
    b.through (.agenda c :: calls) = b.through calls := rfl

@[simp] theorem Board.through_driver (b : Board) (c : DriverCall) (calls : List Call) :
    b.through (.driver c :: calls) = b.through calls := rfl

@[simp] theorem Board.through_acts (b : Board) (acts : List Act) :
    b.through (acts.map Act.call) = b.after (Act.orders acts) := by
  induction acts generalizing b with
  | nil => rfl
  | cons a acts ih => cases a <;> exact ih _

/-- Whether a call resets the chip, and whether it is to be calibrated as well. -/
def Call.reset? : Call → Option Bool
  | .driver (.reset calibrate _) => some calibrate
  | _ => none

theorem Act.reset?_call (a : Act) : a.call.reset? = none := by
  cases a <;> rfl

/-- The completion that a call posts. -/
def Call.completion? : Call → Option CompletionId
  | .agenda (.complete id) => some id
  | _ => none

theorem Act.completion?_call (a : Act) : a.call.completion? = none := by
  cases a <;> rfl

/-! ### Pieces of a log -/

def shieldCalls : List Call := [.board .disable, .board .enable]

def armCalls (deadline : Ticks) : List Call :=
  [.board .disable, .agenda (.arm deadline .watchdog), .board .enable]

/-- A routine of the driver and what it does around the chip. -/
def routineCalls (c : DriverCall) (acts : List Act) : List Call :=
  .driver c :: acts.map Act.call

theorem Call.filterMap_routine {α : Type} {f : Call → Option α} (h : ∀ a : Act, f a.call = none)
    (c : DriverCall) (acts : List Act) :
    (routineCalls c acts).filterMap f = (f (.driver c)).toList := by
  rw [routineCalls, List.filterMap_cons, Act.filterMap_calls h]
  cases f (.driver c) <;> rfl

/-- Calls of a request, as far as they do not depend on the mode. -/
inductive Requested {σ ε : Type} (d : Driver σ ε) : List Call → Prop
  | nil : Requested d []
  | append {front back : List Call} : Requested d front → Requested d back →
      Requested d (front ++ back)
  | rest : Requested d System.quiesceCalls
  | arm (deadline : Ticks) : Requested d (armCalls deadline)
  | airtime (modulation : Modulation) (length : UInt8) :
      Requested d [.driver (.airtime modulation length)]
  | start (activity : Start) (x : Exchange) (chip : σ) :
      Requested d (routineCalls (.start activity x) (d.start activity x chip).acts)
  | reset (x : Exchange) (chip : σ) :
      Requested d (routineCalls (.reset true x) (d.reset true x chip).acts)

/-- What follows the driver's answer to an interrupt. -/
def verdictCalls (completion : CompletionId) : Status → List Call
  | .complete => System.quiesceCalls ++ [.agenda (.complete completion)]
  | .pending (some deadline) => armCalls deadline
  | .pending none => []

namespace System

variable {σ ε : Type}

structure Logged (s : System σ) (calls : List Call) (t : System σ) : Prop where
  trace : t.trace = s.trace ++ calls
  board : t.board = s.board.through calls

theorem Logged.of_same {s t : System σ} (htrace : t.trace = s.trace) (hboard : t.board = s.board) :
    Logged s [] t :=
  ⟨by rw [htrace, List.append_nil], hboard⟩

theorem Logged.refl (s : System σ) : Logged s [] s := .of_same rfl rfl

theorem Logged.trans {s t u : System σ} {front back : List Call} (hst : Logged s front t)
    (htu : Logged t back u) : Logged s (front ++ back) u where
  trace := by rw [htu.trace, hst.trace, List.append_assoc]
  board := by rw [htu.board, hst.board, Board.through_append]

/-! ### Effects and routines -/

theorem logged_quiesce (s : System σ) (d : Driver σ ε) : Logged s quiesceCalls (s.quiesce d) := by
  rw [quiesce_eq]
  exact ⟨rfl, by simp [quiesceCalls, BoardCall.apply, Board.rested]⟩

theorem logged_arm (s : System σ) (deadline : Ticks) :
    Logged s (armCalls deadline) (s.arm deadline) := by
  rw [arm_eq]
  exact ⟨rfl, by simp [armCalls, BoardCall.apply]⟩

theorem logged_watch (s : System σ) (d : Driver σ ε) (w : Window) :
    Logged s (.driver (.airtime s.exchange.operation.channel.modulation w.length) ::
      armCalls (s.limit d w)) (s.watch d w) := by
  rw [watch_eq]
  have hasked : Logged s [.driver (.airtime s.exchange.operation.channel.modulation w.length)]
      (s.log (.driver (.airtime s.exchange.operation.channel.modulation w.length))) := ⟨rfl, rfl⟩
  exact hasked.trans (logged_arm _ _)

theorem logged_shielded_take (s : System σ) (job : RadioJob) :
    Logged s shieldCalls (s.shielded (·.take job)) := by
  rw [shielded_take_eq]
  exact ⟨rfl, by simp [shieldCalls, BoardCall.apply]⟩

theorem logged_shielded_notePending (s : System σ) (lines : Option UInt8) :
    Logged s shieldCalls (s.shielded (·.notePending lines)) := by
  rw [shielded_notePending_eq]
  exact ⟨rfl, by simp [shieldCalls, BoardCall.apply]⟩

theorem logged_restart (s : System σ) (d : Driver σ ε) :
    Logged s (routineCalls (.reset true s.exchange) (d.reset true s.exchange s.chip).acts)
      (s.restart d).1 := by
  rw [restart_eq]
  exact ⟨rfl, by simp [routineCalls]⟩

theorem logged_started (s : System σ) (d : Driver σ ε) (activity : Start) :
    Logged s (routineCalls (.start activity s.exchange) (d.start activity s.exchange s.chip).acts)
      (s.started d activity) := by
  rw [started_eq]
  exact ⟨rfl, by simp [routineCalls]⟩

theorem logged_heard (s : System σ) (d : Driver σ ε) :
    Logged s (routineCalls (.interpret s.control.capturedAt (s.control.pending.getD 0))
      (s.found d).acts) (s.heard d) := by
  rw [heard_eq]
  exact ⟨rfl, by simp [routineCalls, Interpretation.orders]⟩

/-! ### Requests -/

/-- `t` comes after `s` by calls of a request. -/
def Requests (d : Driver σ ε) (s t : System σ) : Prop :=
  ∃ calls, Requested d calls ∧ Logged s calls t

theorem Requests.of_same {d : Driver σ ε} {s t : System σ} (htrace : t.trace = s.trace)
    (hboard : t.board = s.board) : Requests d s t :=
  ⟨[], .nil, .of_same htrace hboard⟩

theorem Requests.refl {d : Driver σ ε} (s : System σ) : Requests d s s := .of_same rfl rfl

theorem Requests.trans {d : Driver σ ε} {s t u : System σ} (hst : Requests d s t)
    (htu : Requests d t u) : Requests d s u := by
  obtain ⟨front, hfront, hst⟩ := hst
  obtain ⟨back, hback, htu⟩ := htu
  exact ⟨front ++ back, hfront.append hback, hst.trans htu⟩

theorem requests_quiesce (s : System σ) (d : Driver σ ε) : Requests d s (s.quiesce d) :=
  ⟨_, .rest, logged_quiesce s d⟩

theorem requests_noteSending {d : Driver σ ε} (s : System σ) (sending : Bool) :
    Requests d s (s.noteSending sending) := .of_same rfl rfl

theorem requests_watch (s : System σ) (d : Driver σ ε) (w : Window) :
    Requests d s (s.watch d w) :=
  ⟨_, (Requested.airtime _ _).append (.arm _), logged_watch s d w⟩

theorem requests_launch {s : System σ} {d : Driver σ ε} {activity : Start}
    {next : System σ → System σ} (hnext : ∀ s, Requests d s (next s)) :
    Requests d s (s.launch d activity next).1 := by
  have hstarted : Requests d s (s.started d activity) :=
    ⟨_, .start activity s.exchange s.chip, logged_started s d activity⟩
  cases h : (d.start activity s.exchange s.chip).outcome with
  | ok =>
      rw [launch_of_ok h]
      exact hstarted.trans (hnext _)
  | error e =>
      rw [launch_of_error h]
      exact hstarted.trans (requests_quiesce _ d)

theorem requests_perform (s : System σ) (d : Driver σ ε) (mode : Mode) :
    Requests d s (s.perform d mode).1 := by
  have hrest := requests_quiesce s d
  cases mode with
  | stop => exact hrest
  | calibrate => exact ⟨_, .reset s.exchange s.chip, logged_restart s d⟩
  | transmit | receive =>
      exact hrest.trans (requests_launch fun t =>
        (requests_noteSending t _).trans (requests_watch _ d _))
  | scan => exact hrest.trans ((requests_noteSending _ false).trans (requests_launch .refl))
  | carrier | assess | stream => exact hrest.trans (requests_launch .refl)
  | detect =>
      exact hrest.trans ((requests_noteSending _ false).trans
        ((requests_watch _ d _).trans (requests_launch .refl)))

/-! ### Interrupts and jobs -/

theorem logged_capture (s : System σ) (d : Driver σ ε) (lines : UInt8) (time : Option Ticks) :
    Logged s (if s.control.pending = none then [.agenda (.post .interrupt)] else [])
      (s.step d (.capture lines time)).1 := by
  cases hp : s.control.pending with
  | none =>
      rw [step_capture_of_none hp]
      exact ⟨rfl, rfl⟩
  | some waiting =>
      rw [step_capture_of_pending hp]
      exact .refl s

/-- The calls of a job that has lost its place. -/
def droppedCalls (job : RadioJob) : List Call :=
  match job with
  | .interrupt => shieldCalls
  | .watchdog => shieldCalls ++ [.board .enable]

theorem logged_dropped (s : System σ) (job : RadioJob) :
    Logged s (droppedCalls job) (s.dropped job) := by
  cases job <;> exact ⟨by simp [dropped, order, droppedCalls, shieldCalls], rfl⟩

theorem logged_complete (s : System σ) :
    Logged s [.agenda (.complete s.exchange.completion)] s.complete := ⟨rfl, rfl⟩

/-- The calls by which a captured interrupt is interpreted. -/
def interpretCalls (s : System σ) (d : Driver σ ε) : List Call :=
  routineCalls (.interpret s.control.capturedAt (s.control.pending.getD 0)) (s.found d).acts ++
    (verdictCalls (s.heard d).exchange.completion (s.found d).status ++ shieldCalls)

/-- What no act of a driver tells is told by the driver's routine or by what follows it. -/
theorem filterMap_interpretCalls {α : Type} {f : Call → Option α} (h : ∀ a : Act, f a.call = none)
    (s : System σ) (d : Driver σ ε) :
    (s.interpretCalls d).filterMap f =
      (f (.driver (.interpret s.control.capturedAt (s.control.pending.getD 0)))).toList ++
        (verdictCalls (s.heard d).exchange.completion (s.found d).status).filterMap f := by
  have hshield : shieldCalls.filterMap f = [] :=
    Act.filterMap_calls h [.order .disable, .order .enable]
  rw [interpretCalls, List.filterMap_append, List.filterMap_append, hshield, List.append_nil,
    Call.filterMap_routine h]

theorem logged_interpret (s : System σ) (d : Driver σ ε) :
    Logged s (s.interpretCalls d) (s.interpret d) := by
  rw [interpret_eq]
  refine (logged_heard s d).trans (.trans ?_ (logged_shielded_notePending _ none))
  cases (s.found d).status with
  | complete => exact (logged_quiesce (s.heard d) d).trans (logged_complete _)
  | pending rearm =>
      cases rearm with
      | none => exact .refl _
      | some deadline => exact logged_arm _ deadline

theorem logged_dispatch_interrupt {s : System σ} (h : s.deferral.holds .interrupt = true)
    (d : Driver σ ε) :
    Logged s (shieldCalls ++ s.interpretCalls d) (s.dispatch d .interrupt) := by
  -- Taking the job out of the cell hides nothing from the driver.
  have hcalls : (s.shielded (·.take .interrupt)).interpretCalls d = s.interpretCalls d := by
    simp [interpretCalls, heard_eq, found, shielded_take_eq]
  rw [dispatch_interrupt h, ← hcalls]
  exact (logged_shielded_take s .interrupt).trans (logged_interpret _ d)

/-- The calls of a recovery up to the moment at which interrupts are enabled again. -/
def recoverCalls (s : System σ) (d : Driver σ ε) : List Call :=
  quiesceCalls ++
    if s.control.sending then
      routineCalls (.reset true s.exchange) (d.reset true s.exchange (d.sleep s.chip).1).acts
    else []

theorem filterMap_recoverCalls {α : Type} {f : Call → Option α} (h : ∀ a : Act, f a.call = none)
    (s : System σ) (d : Driver σ ε) :
    (s.recoverCalls d).filterMap f = quiesceCalls.filterMap f ++
      if s.control.sending then (f (.driver (.reset true s.exchange))).toList else [] := by
  rw [recoverCalls, List.filterMap_append]
  split
  · rw [Call.filterMap_routine h]
  · rfl

/-- A recovery at the moment at which interrupts are enabled again. -/
def released (s : System σ) (d : Driver σ ε) : System σ :=
  (if s.control.sending then ((s.quiesce d).restart d).1 else s.quiesce d).order .enable

/-- What is left to do then is to report that nothing came. -/
theorem recover_eq_report (s : System σ) (d : Driver σ ε) :
    s.recover d = ((s.released d).editFrame (.setLength 0)).complete := recover_eq s d

theorem released_eq (s : System σ) (d : Driver σ ε) :
    let reply := d.reset true s.exchange (d.sleep s.chip).1
    s.released d =
      { s with
        chip := if s.control.sending then reply.chip else (d.sleep s.chip).1
        board := BoardCall.enable.apply
          (s.board.rested.after (if s.control.sending then reply.orders else []))
        control := { s.control with pending := none }
        deferral := s.deferral.write none
        trace := s.trace ++ (s.recoverCalls d ++ [.board .enable]) } := by
  intro reply
  cases h : s.control.sending <;>
    simp [released, recoverCalls, h, quiesce_eq, restart_eq, order, routineCalls, Board.after,
      reply]

theorem logged_released (s : System σ) (d : Driver σ ε) :
    Logged s (s.recoverCalls d ++ [.board .enable]) (s.released d) := by
  have hrest := logged_quiesce s d
  have henable : ∀ t : System σ, Logged t [.board .enable] (t.order .enable) :=
    fun _ => ⟨rfl, rfl⟩
  unfold released recoverCalls
  split
  · exact (hrest.trans (logged_restart (s.quiesce d) d)).trans (henable _)
  · exact (hrest.trans (.refl _)).trans (henable _)

theorem logged_editFrame (s : System σ) (e : FrameEdit) : Logged s [.edit e] (s.editFrame e) :=
  ⟨rfl, rfl⟩

/-- The calls by which an operation is reported that has not ended in time. -/
def reportCalls (completion : CompletionId) : List Call :=
  [.edit (.setLength 0), .agenda (.complete completion)]

theorem logged_recover (s : System σ) (d : Driver σ ε) :
    Logged s (s.recoverCalls d ++ .board .enable :: reportCalls s.exchange.completion)
      (s.recover d) := by
  have hreport : Logged (s.released d)
      (reportCalls ((s.released d).editFrame (.setLength 0)).exchange.completion)
      (s.recover d) := by
    rw [recover_eq_report]
    exact (logged_editFrame _ _).trans (logged_complete _)
  have hcompletion :
      ((s.released d).editFrame (.setLength 0)).exchange.completion = s.exchange.completion := by
    rw [released_eq]
    rfl
  rw [hcompletion] at hreport
  simpa using (logged_released s d).trans hreport

theorem logged_dispatch_watchdog {s : System σ} (h : s.deferral.holds .watchdog = true)
    (d : Driver σ ε) :
    Logged s (shieldCalls ++
        (s.recoverCalls d ++ .board .enable :: reportCalls s.exchange.completion))
      (s.dispatch d .watchdog) := by
  rw [dispatch_watchdog h]
  exact (logged_shielded_take s .watchdog).trans (logged_recover _ d)

end System

end Transceiver
