import Transceiver.Step

/-!
The routines of the controller as equations.

A routine is a chain of effects, and a proof about a run wants to know only which system the chain
ends in. The equations of this file give that system part by part, calls included, so that any
field of it can be read off; nothing else opens a routine. What a driver does is kept symbolic: its
orders act on the board through `Board.after`, its edits on the exchange, and its outcome decides
which equation applies.

`perform_spec` is the result for a request of the MAC layer. The nine modes differ in the activity
that they start and in whether they are given a watchdog, and in little else that a run can
observe: the radio is at rest when the driver is asked, a refusal puts it back to rest, and a
watchdog is deferred exactly when the mode is watched and the driver agrees.
-/

namespace Transceiver

def Board.after (b : Board) (orders : List BoardCall) : Board :=
  orders.foldl (fun b c => c.apply b) b

/-- What no order of a list changes is kept by all of them. -/
theorem Board.after_preserves {α : Type} (part : Board → α) {orders : List BoardCall}
    (h : ∀ c ∈ orders, ∀ b : Board, part (c.apply b) = part b) (b : Board) :
    part (b.after orders) = part b := by
  induction orders generalizing b with
  | nil => rfl
  | cons c orders ih =>
      have hrest : part ((c.apply b).after orders) = part (c.apply b) :=
        ih (fun o ho => h o (.tail c ho)) (c.apply b)
      exact hrest.trans (h c (.head orders) b)

/-- What no act of a driver tells is not found among the calls of its acts. -/
theorem Act.filterMap_calls {α : Type} {f : Call → Option α} (h : ∀ a : Act, f a.call = none)
    (acts : List Act) : (acts.map call).filterMap f = [] := by
  simp [h]

/-- The board of a radio at rest: antenna and oscillator off, all lines masked. -/
def Board.rested (b : Board) : Board :=
  { b with mask := 0, antenna := .off, oscillator := false }

@[simp] theorem Board.rested_mask (b : Board) : b.rested.mask = 0 := rfl

namespace System

variable {σ ε : Type}

def completions (s : System σ) : Nat := s.deferral.agenda.completions

/-- The calls that were made on the way from `s` to `t`. -/
def callsSince (s t : System σ) : List Call := t.trace.drop s.trace.length

theorem callsSince_eq {s t : System σ} {calls : List Call} (h : t.trace = s.trace ++ calls) :
    callsSince s t = calls := by
  rw [callsSince, h, List.drop_left]

/-! ### Chains of effects -/

/-- Orders reach the board, edits the exchange, and the calls keep the order of the acts. -/
theorem settle_eq (s : System σ) (chip : σ) (acts : List Act) :
    s.settle chip acts =
      { s with
        chip
        board := s.board.after (Act.orders acts)
        exchange := s.exchange.edits (Act.edits acts)
        trace := s.trace ++ acts.map Act.call } := by
  suffices h : ∀ t : System σ, acts.foldl act t =
      { t with
        board := t.board.after (Act.orders acts)
        exchange := t.exchange.edits (Act.edits acts)
        trace := t.trace ++ acts.map Act.call } from h _
  induction acts with
  | nil => intro t; simp [Board.after, Exchange.edits]
  | cons a acts ih =>
      intro t
      rw [List.foldl_cons, ih]
      cases a with
      | edit e => simp [act, editFrame, Act.call, Exchange.edits]
      | order c => simp [act, order, Act.call, Board.after]

/-- A reply leaves the exchange alone. -/
theorem settle_reply_eq (s : System σ) (reply : Reply σ ε) :
    s.settle reply.chip reply.acts =
      { s with
        chip := reply.chip
        board := s.board.after reply.orders
        trace := s.trace ++ reply.acts.map Act.call } := by
  simp [settle_eq, Exchange.edits]

/-- The calls by which the radio is brought to rest. -/
def quiesceCalls : List Call :=
  [.board .disable, .driver .sleep, .board (.antenna .off), .board (.oscillator false),
    .board (.unmask 0), .agenda .clear, .board .enable]

theorem quiesce_eq (s : System σ) (d : Driver σ ε) :
    s.quiesce d =
      { s with
        chip := (d.sleep s.chip).1
        board := s.board.rested
        control := { s.control with pending := none }
        deferral := s.deferral.write none
        trace := s.trace ++ quiesceCalls } := by
  simp [quiesce, shielded, sleep, order, log, defer, notePending, BoardCall.apply, Board.rested,
    quiesceCalls, Deferral.request]

theorem arm_eq (s : System σ) (deadline : Ticks) :
    s.arm deadline =
      { s with
        deferral := s.deferral.write (some (.watchdog deadline))
        trace := s.trace ++
          [.board .disable, .agenda (.arm deadline .watchdog), .board .enable] } := by
  simp [arm, shielded, order, defer, BoardCall.apply, Deferral.request]

theorem restart_eq (s : System σ) (d : Driver σ ε) :
    (s.restart d).1 =
      { s with
        chip := (d.reset true s.exchange s.chip).chip
        board := s.board.after (d.reset true s.exchange s.chip).orders
        trace := s.trace ++ .driver (.reset true s.exchange) ::
          (d.reset true s.exchange s.chip).acts.map Act.call } := by
  simp [restart, settle_reply_eq, log]

/-- Opening the cell and noting that nothing is pending are shielded from interrupts. -/
theorem shielded_take_eq (s : System σ) (job : RadioJob) :
    s.shielded (·.take job) =
      { s with
        deferral := s.deferral.take job
        trace := s.trace ++ [.board .disable, .board .enable] } := by
  simp [shielded, order, take, BoardCall.apply]

theorem shielded_notePending_eq (s : System σ) (lines : Option UInt8) :
    s.shielded (·.notePending lines) =
      { s with
        control := { s.control with pending := lines }
        trace := s.trace ++ [.board .disable, .board .enable] } := by
  simp [shielded, order, notePending, BoardCall.apply]

/-! ### Requests -/

end System

/-- The activity that a request starts. -/
def Mode.activity? : Mode → Option Start
  | transmit => some (.transmit false)
  | receive => some (.receive false)
  | scan => some (.receive true)
  | carrier => some .carrier
  | assess => some .assess
  | stream => some (.transmit true)
  | detect => some .detect
  | stop => none
  | calibrate => none

/-- Whether a request comes with a watchdog. -/
def Mode.watched : Mode → Bool
  | transmit | receive | detect => true
  | _ => false

/-- Whether an operation of the mode ends with a completion. -/
def Mode.completes : Mode → Bool
  | scan => true
  | mode => mode.watched

/-- What the driver makes of a request once the chip is asleep. -/
def Driver.attempt {σ ε : Type} (d : Driver σ ε) (mode : Mode) (x : Exchange) (chip : σ) :
    Reply σ ε :=
  match mode.activity? with
  | some activity => d.start activity x chip
  | none => { chip }

namespace System

variable {σ ε : Type}

/-- The system once the driver has been asked to start an activity. -/
def started (s : System σ) (d : Driver σ ε) (activity : Start) : System σ :=
  let reply := d.start activity s.exchange s.chip
  (s.log (.driver (.start activity s.exchange))).settle reply.chip reply.acts

theorem started_eq (s : System σ) (d : Driver σ ε) (activity : Start) :
    s.started d activity =
      { s with
        chip := (d.start activity s.exchange s.chip).chip
        board := s.board.after (d.start activity s.exchange s.chip).orders
        trace := s.trace ++ .driver (.start activity s.exchange) ::
          (d.start activity s.exchange s.chip).acts.map Act.call } := by
  simp [started, settle_reply_eq, log]

theorem launch_of_ok {s : System σ} {d : Driver σ ε} {activity : Start}
    (h : (d.start activity s.exchange s.chip).outcome = .ok ()) (next : System σ → System σ) :
    s.launch d activity next = (next (s.started d activity), .ok ()) := by
  simp only [launch, h]
  rfl

theorem launch_of_error {s : System σ} {d : Driver σ ε} {activity : Start} {e : ε}
    (h : (d.start activity s.exchange s.chip).outcome = .error e) (next : System σ → System σ) :
    s.launch d activity next = ((s.started d activity).quiesce d, .error e) := by
  simp only [launch, h]
  rfl

/-- The deadline up to which the watchdog lets an operation of the window run. -/
def limit (s : System σ) (d : Driver σ ε) (w : Window) : Ticks :=
  w.deadline s.clock.rate (d.airtime s.chip s.exchange.operation.channel.modulation w.length)

theorem watch_eq (s : System σ) (d : Driver σ ε) (w : Window) :
    s.watch d w =
      (s.log (.driver (.airtime s.exchange.operation.channel.modulation w.length))).arm
        (s.limit d w) := rfl

/-- What a request other than a calibration leaves behind, given the driver's reply to it. -/
structure Performed (s : System σ) (mode : Mode) (reply : Reply σ ε) (t : System σ) : Prop where
  pending : t.control.pending = none
  exchange : t.exchange = s.exchange
  completions : t.completions = s.completions
  scheduled : t.scheduled = t.deferral.held.map Deferred.entry
  board_of_ok : reply.outcome = .ok () → t.board = s.board.rested.after reply.orders
  held_of_ok : reply.outcome = .ok () →
    t.deferral.held.map Deferred.kind = if mode.watched then some .watchdog else none
  board_of_error : ∀ e, reply.outcome = .error e →
    t.board = (s.board.rested.after reply.orders).rested
  held_of_error : ∀ e, reply.outcome = .error e → t.deferral.held = none

/-- A refusal leaves the radio at rest, whatever the driver did to the board before it refused. -/
theorem Performed.of_refusal {s u : System σ} {mode : Mode} {reply : Reply σ ε} {e : ε}
    (he : reply.outcome = .error e) (hx : u.exchange = s.exchange)
    (hc : u.completions = s.completions) (hb : u.board = s.board.rested.after reply.orders)
    (d : Driver σ ε) : Performed s mode reply (u.quiesce d) where
  pending := by simp [quiesce_eq]
  exchange := by simp [quiesce_eq, hx]
  completions := by rw [← hc]; simp [quiesce_eq, System.completions]
  scheduled := by simp [quiesce_eq, System.scheduled]
  board_of_ok := by simp [he]
  held_of_ok := by simp [he]
  board_of_error := by simp [quiesce_eq, hb]
  held_of_error := by simp [quiesce_eq]

theorem perform_spec (s : System σ) (d : Driver σ ε) {mode : Mode} (h : mode ≠ .calibrate) :
    let reply := d.attempt mode s.exchange (d.sleep s.chip).1
    (s.perform d mode).2 = reply.outcome ∧ Performed s mode reply (s.perform d mode).1 := by
  intro reply
  cases mode
  case calibrate => exact absurd rfl h
  case stop =>
      refine ⟨rfl, ?_⟩
      constructor <;>
        simp [reply, Driver.attempt, Mode.activity?, perform, quiesce_eq, completions, scheduled,
          Mode.watched, Board.after]
  -- Whatever the mode, the driver is asked with the chip asleep and the exchange as it was.
  all_goals
    cases hr : reply.outcome <;> simp only [reply, Driver.attempt, Mode.activity?] at hr
    case error e =>
        rw [perform, launch_of_error
          (by simpa [quiesce_eq, noteSending, watch_eq, arm_eq, log] using hr)]
        refine ⟨rfl, .of_refusal hr ?_ ?_ ?_ d⟩ <;>
          simp [started_eq, quiesce_eq, noteSending, watch_eq, arm_eq, log, completions]
    case ok =>
        rw [perform, launch_of_ok
          (by simpa [quiesce_eq, noteSending, watch_eq, arm_eq, log] using hr)]
        refine ⟨rfl, ?_⟩
        constructor <;>
          simp [started_eq, quiesce_eq, noteSending, watch_eq, arm_eq, log, completions, reply,
            Driver.attempt, Mode.activity?, scheduled, Mode.watched, Deferred.entry,
            Deferred.kind, hr]

/-! ### Interrupts and jobs -/

/-- What the driver makes of the captured interrupt. -/
def found (s : System σ) (d : Driver σ ε) : Interpretation σ :=
  d.interpret s.control.capturedAt (s.control.pending.getD 0) s.exchange s.chip

/-- The system once the driver has interpreted the captured interrupt. -/
def heard (s : System σ) (d : Driver σ ε) : System σ :=
  (s.log (.driver (.interpret s.control.capturedAt (s.control.pending.getD 0)))).settle
    (s.found d).chip (s.found d).acts

theorem heard_eq (s : System σ) (d : Driver σ ε) :
    s.heard d =
      { s with
        chip := (s.found d).chip
        board := s.board.after (s.found d).orders
        exchange := s.exchange.edits (s.found d).edits
        trace := s.trace ++
          .driver (.interpret s.control.capturedAt (s.control.pending.getD 0)) ::
            (s.found d).acts.map Act.call } := by
  simp [heard, settle_eq, log, Interpretation.orders, Interpretation.edits]

/-- The driver's answer decides what follows it; then the next interrupt may come. -/
theorem interpret_eq (s : System σ) (d : Driver σ ε) :
    s.interpret d =
      (match (s.found d).status with
        | .complete => ((s.heard d).quiesce d).complete
        | .pending (some deadline) => (s.heard d).arm deadline
        | .pending none => s.heard d).shielded (·.notePending none) := by
  rfl

/-- A job that lost its place does nothing but enable the interrupts that a watchdog is entered
without. -/
def dropped (s : System σ) (job : RadioJob) : System σ :=
  match job with
  | .interrupt => (s.order .disable).order .enable
  | .watchdog => ((s.order .disable).order .enable).order .enable

theorem dispatch_of_stale {s : System σ} {job : RadioJob} (h : s.deferral.holds job = false)
    (d : Driver σ ε) : s.dispatch d job = s.dropped job := by
  have ht : s.deferral.take job = s.deferral := Deferral.take_of_not_holds h
  simp only [dispatch, h, shielded_take_eq, ht]
  cases job <;> simp [dropped, order, BoardCall.apply]

theorem dispatch_interrupt {s : System σ} (h : s.deferral.holds .interrupt = true)
    (d : Driver σ ε) :
    s.dispatch d .interrupt = (s.shielded (·.take .interrupt)).interpret d := by
  simp [dispatch, h]

theorem dispatch_watchdog {s : System σ} (h : s.deferral.holds .watchdog = true)
    (d : Driver σ ε) :
    s.dispatch d .watchdog = (s.shielded (·.take .watchdog)).recover d := by
  simp [dispatch, h]

/-- An operation has been brought to its end: nothing is deferred or pending, and its completion
is posted. -/
structure Concluded (s t : System σ) : Prop where
  held : t.deferral.held = none
  scheduled : t.scheduled = none
  pending : t.control.pending = none
  completions : t.completions = s.completions + 1

/-- The driver waits for more interrupts, under a new watchdog or none. -/
structure Waiting (s : System σ) (rearm : Option Ticks) (t : System σ) : Prop where
  held : t.deferral.held = rearm.map .watchdog
  scheduled : t.scheduled = (rearm.map (.guardedAt · .watchdog)).or s.scheduled
  pending : t.control.pending = none
  completions : t.completions = s.completions

theorem interpret_of_complete {s : System σ} {d : Driver σ ε}
    (h : (s.found d).status = .complete) :
    Concluded s (s.interpret d) ∧ (s.interpret d).board.mask = 0 := by
  rw [interpret_eq, h, shielded_notePending_eq]
  refine ⟨?_, by simp [quiesce_eq, complete]⟩
  constructor <;>
    simp [quiesce_eq, heard_eq, complete, AgendaCall.apply, System.scheduled, System.completions]

theorem interpret_of_pending {s : System σ} {d : Driver σ ε} {rearm : Option Ticks}
    (h : (s.found d).status = .pending rearm) (hs : s.deferral.held = none) :
    Waiting s rearm (s.interpret d) := by
  rw [interpret_eq, h, shielded_notePending_eq]
  cases rearm <;> constructor <;>
    simp [arm_eq, heard_eq, Deferred.entry, System.scheduled, System.completions, hs]

/-- Only a radio that was sending is reset. -/
theorem recover_eq (s : System σ) (d : Driver σ ε) :
    s.recover d =
      (((if s.control.sending then ((s.quiesce d).restart d).1 else s.quiesce d).order
        .enable).editFrame (.setLength 0)).complete := by
  simp [recover, quiesce_eq]

theorem recover_concludes (s : System σ) (d : Driver σ ε) : Concluded s (s.recover d) := by
  rw [recover_eq]
  split <;> constructor <;>
    simp [quiesce_eq, restart_eq, order, editFrame, complete, AgendaCall.apply,
      System.scheduled, System.completions]

/-- What a job does is decided by the cell, and for the interrupt job by the driver's answer. -/
inductive Dispatched (s : System σ) (d : Driver σ ε) : RadioJob → System σ → Prop
  | stale {job : RadioJob} : s.deferral.holds job = false → Dispatched s d job (s.dropped job)
  | completed {t : System σ} : s.deferral.holds .interrupt = true →
      (s.found d).status = .complete → Concluded s t → t.board.mask = 0 →
      Dispatched s d .interrupt t
  | waits {t : System σ} {rearm : Option Ticks} : s.deferral.holds .interrupt = true →
      (s.found d).status = .pending rearm → Waiting s rearm t → Dispatched s d .interrupt t
  | recovered {t : System σ} : s.deferral.holds .watchdog = true → Concluded s t →
      Dispatched s d .watchdog t

theorem dispatch_spec (s : System σ) (d : Driver σ ε) (job : RadioJob) :
    Dispatched s d job (s.dispatch d job) := by
  cases h : s.deferral.holds job with
  | false => rw [dispatch_of_stale h]; exact .stale h
  | true =>
      -- Taking the job out of the cell hides nothing from the driver.
      have hfound : (s.shielded (·.take job)).found d = s.found d := by
        rw [shielded_take_eq]; rfl
      have hheld : (s.shielded (·.take job)).deferral.held = none := by
        simp [shielded_take_eq, Deferral.take_of_holds h]
      have hsched : (s.shielded (·.take job)).scheduled = s.scheduled := by
        simp [shielded_take_eq, System.scheduled]
      have hcompl : (s.shielded (·.take job)).completions = s.completions := by
        simp [shielded_take_eq, System.completions]
      cases job with
      | watchdog =>
          rw [dispatch_watchdog h]
          obtain ⟨h₁, h₂, h₃, h₄⟩ := recover_concludes (s.shielded (·.take .watchdog)) d
          exact .recovered h ⟨h₁, h₂, h₃, by rw [h₄, hcompl]⟩
      | interrupt =>
          rw [dispatch_interrupt h]
          cases hstatus : (s.found d).status with
          | complete =>
              obtain ⟨⟨h₁, h₂, h₃, h₄⟩, hmask⟩ :=
                interpret_of_complete (by rw [hfound, hstatus])
              exact .completed h hstatus ⟨h₁, h₂, h₃, by rw [h₄, hcompl]⟩ hmask
          | pending rearm =>
              obtain ⟨h₁, h₂, h₃, h₄⟩ :=
                interpret_of_pending (by rw [hfound, hstatus]) hheld
              exact .waits h hstatus ⟨h₁, by rw [h₂, hsched], h₃, by rw [h₄, hcompl]⟩

end System

end Transceiver
