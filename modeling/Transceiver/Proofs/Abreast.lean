import Transceiver.Proofs.Routines
import Transceiver.Proofs.Run

/-!
Two radios side by side.

A statement about what does not matter to the controller compares two runs. `Abreast` is the
relation between them: the two systems are the same but for their chips, which are related in some
way that the statement chooses, and for the calls that they have made before. From there on they
make the same calls. The two may have different drivers. `Driver.Alike` asks that these do the same
on related chips, and it asks nothing of the outcome of a sleep, nor of the outcome of a reset.

Every routine keeps two systems abreast, and every step does, with one exception: a calibration
hands the outcome of the reset on to the MAC layer, so there the two outcomes have to be the same.
-/

namespace Transceiver

/-- Drivers that do the same on related chips, as far as the controller heeds it. -/
structure Driver.Alike {σ ε : Type} (R : σ → σ → Prop) (d d' : Driver σ ε) : Prop where
  sleep : ∀ {c c'}, R c c' → R (d.sleep c).1 (d'.sleep c').1
  reset : ∀ {c c'}, R c c' → ∀ calibrate x,
    R (d.reset calibrate x c).chip (d'.reset calibrate x c').chip ∧
      (d'.reset calibrate x c').orders = (d.reset calibrate x c).orders
  start : ∀ {c c'}, R c c' → ∀ activity x,
    R (d.start activity x c).chip (d'.start activity x c').chip ∧
      (d'.start activity x c').orders = (d.start activity x c).orders ∧
      (d'.start activity x c').outcome = (d.start activity x c).outcome
  interpret : ∀ {c c'}, R c c' → ∀ time lines x,
    R (d.interpret time lines x c).chip (d'.interpret time lines x c').chip ∧
      (d'.interpret time lines x c').acts = (d.interpret time lines x c).acts ∧
      (d'.interpret time lines x c').status = (d.interpret time lines x c).status
  airtime : ∀ {c c'}, R c c' → ∀ m length, d'.airtime c' m length = d.airtime c m length

/-- Steps that are the same but for what they do to the chip behind the controller's back. -/
inductive Step.Alike {σ : Type} (R : σ → σ → Prop) : Step σ → Step σ → Prop
  | same {step : Step σ} : (∀ f, step ≠ .adjust f) → Alike R step step
  | adjust {f g : σ → σ} : (∀ {c c'}, R c c' → R (f c) (g c')) → Alike R (.adjust f) (.adjust g)

namespace System

variable {σ ε : Type} {R : σ → σ → Prop} {d d' : Driver σ ε} {p q : List Call} {s t : System σ}

/-- Systems that differ in nothing but their chips, which are related. After the calls `p` of the
one and `q` of the other they have made the same calls. -/
structure Abreast (R : σ → σ → Prop) (p q : List Call) (s t : System σ) : Prop where
  chip : R s.chip t.chip
  board : t.board = s.board
  control : t.control = s.control
  deferral : t.deferral = s.deferral
  exchange : t.exchange = s.exchange
  trace : ∃ calls, s.trace = p ++ calls ∧ t.trace = q ++ calls

namespace Abreast

/-- Systems stay abreast if they change alike and make the same calls. -/
theorem next (h : Abreast R p q s t) {u v : System σ} {calls : List Call}
    (hchip : R u.chip v.chip) (hboard : v.board = u.board) (hcontrol : v.control = u.control)
    (hdeferral : v.deferral = u.deferral) (hexchange : v.exchange = u.exchange)
    (hu : u.trace = s.trace ++ calls) (hv : v.trace = t.trace ++ calls) : Abreast R p q u v where
  chip := hchip
  board := hboard
  control := hcontrol
  deferral := hdeferral
  exchange := hexchange
  trace := by
    obtain ⟨front, hs, ht⟩ := h.trace
    exact ⟨front ++ calls, by rw [hu, hs, List.append_assoc], by rw [hv, ht, List.append_assoc]⟩

/-- Systems stay abreast if they change alike without a call. -/
theorem silent (h : Abreast R p q s t) {u v : System σ} (hchip : R u.chip v.chip)
    (hboard : v.board = u.board) (hcontrol : v.control = u.control)
    (hdeferral : v.deferral = u.deferral) (hexchange : v.exchange = u.exchange)
    (hu : u.trace = s.trace) (hv : v.trace = t.trace) : Abreast R p q u v :=
  h.next hchip hboard hcontrol hdeferral hexchange (hu.trans (List.append_nil _).symm)
    (hv.trans (List.append_nil _).symm)

theorem clock (h : Abreast R p q s t) : t.clock = s.clock :=
  congrArg (·.agenda.clock) h.deferral

/-! ### Effects -/

theorem log (h : Abreast R p q s t) (c : Call) : Abreast R p q (s.log c) (t.log c) :=
  h.next h.chip h.board h.control h.deferral h.exchange rfl rfl

theorem order (h : Abreast R p q s t) (c : BoardCall) : Abreast R p q (s.order c) (t.order c) :=
  h.next h.chip (congrArg c.apply h.board) h.control h.deferral h.exchange rfl rfl

theorem noteSending (h : Abreast R p q s t) (sending : Bool) :
    Abreast R p q (s.noteSending sending) (t.noteSending sending) :=
  h.silent h.chip h.board (congrArg (fun c : Control => { c with sending }) h.control) h.deferral
    h.exchange rfl rfl

theorem editFrame (h : Abreast R p q s t) (e : FrameEdit) :
    Abreast R p q (s.editFrame e) (t.editFrame e) :=
  h.next h.chip h.board h.control h.deferral (congrArg (·.edit e) h.exchange) rfl rfl

theorem complete (h : Abreast R p q s t) : Abreast R p q s.complete t.complete := by
  refine h.next h.chip h.board h.control ?_ h.exchange rfl ?_
  · simp [System.complete, h.deferral, h.exchange]
  · simp [System.complete, h.exchange]

theorem unschedule (h : Abreast R p q s t) : Abreast R p q s.unschedule t.unschedule := by
  refine h.silent h.chip h.board h.control ?_ h.exchange rfl rfl
  simp [System.unschedule, h.deferral]

theorem handOver (h : Abreast R p q s t) : Abreast R p q s.handOver t.handOver := by
  refine h.silent h.chip h.board h.control ?_ h.exchange rfl rfl
  simp [System.handOver, h.deferral]

/-! ### Requests -/

theorem quiesce (h : Abreast R p q s t) (hd : d.Alike R d') :
    Abreast R p q (s.quiesce d) (t.quiesce d') := by
  rw [quiesce_eq, quiesce_eq]
  refine h.next (hd.sleep h.chip) ?_ ?_ ?_ h.exchange rfl rfl
  · exact congrArg Board.rested h.board
  · simp [h.control]
  · exact congrArg (·.write none) h.deferral

theorem arm (h : Abreast R p q s t) (deadline : Ticks) :
    Abreast R p q (s.arm deadline) (t.arm deadline) := by
  rw [arm_eq, arm_eq]
  exact h.next h.chip h.board h.control (by simp [h.deferral]) h.exchange rfl rfl

theorem watch (h : Abreast R p q s t) (hd : d.Alike R d') (w : Window) :
    Abreast R p q (s.watch d w) (t.watch d' w) := by
  have hlimit : t.limit d' w = s.limit d w := by
    simp only [limit, h.clock, h.exchange, hd.airtime h.chip]
  rw [watch_eq, watch_eq, hlimit, h.exchange]
  exact (h.log _).arm _

theorem restart (h : Abreast R p q s t) (hd : d.Alike R d') :
    Abreast R p q (s.restart d).1 (t.restart d').1 := by
  obtain ⟨hchip, horders⟩ := hd.reset h.chip true s.exchange
  simp only [restart_eq, h.exchange, Reply.acts, horders]
  exact h.next hchip (by simp [h.board]) h.control h.deferral rfl rfl rfl

theorem started (h : Abreast R p q s t) (hd : d.Alike R d') (activity : Start) :
    Abreast R p q (s.started d activity) (t.started d' activity) := by
  obtain ⟨hchip, horders, -⟩ := hd.start h.chip activity s.exchange
  simp only [started_eq, h.exchange, Reply.acts, horders]
  exact h.next hchip (by simp [h.board]) h.control h.deferral rfl rfl rfl

theorem launch (h : Abreast R p q s t) (hd : d.Alike R d') (activity : Start)
    {next next' : System σ → System σ}
    (hnext : ∀ {u v : System σ}, Abreast R p q u v → Abreast R p q (next u) (next' v)) :
    Abreast R p q (s.launch d activity next).1 (t.launch d' activity next').1 ∧
      (t.launch d' activity next').2 = (s.launch d activity next).2 := by
  obtain ⟨-, -, houtcome⟩ := hd.start h.chip activity s.exchange
  cases hs : (d.start activity s.exchange s.chip).outcome with
  | ok =>
      have ht : (d'.start activity t.exchange t.chip).outcome = .ok () := by
        rw [h.exchange, houtcome, hs]
      rw [launch_of_ok hs, launch_of_ok ht]
      exact ⟨hnext (h.started hd activity), rfl⟩
  | error e =>
      have ht : (d'.start activity t.exchange t.chip).outcome = .error e := by
        rw [h.exchange, houtcome, hs]
      rw [launch_of_error hs, launch_of_error ht]
      exact ⟨(h.started hd activity).quiesce hd, rfl⟩

/-- Any request but a calibration begins with bringing the radio to rest, so it is enough that the
two are abreast at rest. -/
theorem perform_of_quiesce (hd : d.Alike R d') {mode : Mode} (hmode : mode ≠ .calibrate)
    (h : Abreast R p q (s.quiesce d) (t.quiesce d')) :
    Abreast R p q (s.perform d mode).1 (t.perform d' mode).1 ∧
      (t.perform d' mode).2 = (s.perform d mode).2 := by
  cases mode with
  | calibrate => exact absurd rfl hmode
  | stop => exact ⟨h, rfl⟩
  | transmit =>
      -- The window of the watchdog is the same, since the clock and the exchange are.
      refine h.launch hd _ fun {u v} h => ?_
      rw [h.clock, h.exchange]
      exact (h.noteSending true).watch hd _
  | receive =>
      refine h.launch hd _ fun {u v} h => ?_
      rw [h.exchange]
      exact (h.noteSending false).watch hd _
  | scan => exact (h.noteSending false).launch hd _ id
  | carrier | assess | stream => exact h.launch hd _ id
  | detect =>
      have hnoted := h.noteSending false
      simp only [System.perform, hnoted.clock]
      exact (hnoted.watch hd _).launch hd _ id

theorem perform (h : Abreast R p q s t) (hd : d.Alike R d') {mode : Mode}
    (hreset : mode = .calibrate →
      (d'.reset true t.exchange t.chip).outcome = (d.reset true s.exchange s.chip).outcome) :
    Abreast R p q (s.perform d mode).1 (t.perform d' mode).1 ∧
      (t.perform d' mode).2 = (s.perform d mode).2 := by
  by_cases hmode : mode = .calibrate
  · have houtcome := hreset hmode
    subst hmode
    exact ⟨h.restart hd, houtcome⟩
  · exact perform_of_quiesce hd hmode (h.quiesce hd)

/-! ### Interrupts and jobs -/

theorem capture (h : Abreast R p q s t) (d d' : Driver σ ε) (lines : UInt8)
    (time : Option Ticks) :
    Abreast R p q (s.step d (.capture lines time)).1 (t.step d' (.capture lines time)).1 ∧
      (t.step d' (.capture lines time)).2 = (s.step d (.capture lines time)).2 := by
  cases hs : s.control.pending with
  | some waiting =>
      have ht : t.control.pending = some waiting := h.control ▸ hs
      rw [step_capture_of_pending hs, step_capture_of_pending ht]
      exact ⟨h, by simp [step, System.capture, hs, ht]⟩
  | none =>
      have ht : t.control.pending = none := h.control ▸ hs
      rw [step_capture_of_none hs, step_capture_of_none ht]
      refine ⟨h.next h.chip h.board ?_ ?_ h.exchange rfl rfl, ?_⟩
      · simp [h.control, h.clock]
      · simp [h.deferral]
      · simp [step, System.capture, hs, ht]

theorem shielded_take (h : Abreast R p q s t) (job : RadioJob) :
    Abreast R p q (s.shielded (·.take job)) (t.shielded (·.take job)) := by
  rw [shielded_take_eq, shielded_take_eq]
  exact h.next h.chip h.board h.control (congrArg (·.take job) h.deferral) h.exchange rfl rfl

theorem shielded_notePending (h : Abreast R p q s t) (lines : Option UInt8) :
    Abreast R p q (s.shielded (·.notePending lines)) (t.shielded (·.notePending lines)) := by
  rw [shielded_notePending_eq, shielded_notePending_eq]
  exact h.next h.chip h.board (congrArg (fun c : Control => { c with pending := lines }) h.control)
    h.deferral h.exchange rfl rfl

theorem found (h : Abreast R p q s t) (hd : d.Alike R d') :
    R (s.found d).chip (t.found d').chip ∧ (t.found d').acts = (s.found d).acts ∧
      (t.found d').status = (s.found d).status := by
  have hfound : t.found d' =
      d'.interpret s.control.capturedAt (s.control.pending.getD 0) s.exchange t.chip := by
    rw [System.found, h.control, h.exchange]
  rw [hfound]
  exact hd.interpret h.chip _ _ _

theorem heard (h : Abreast R p q s t) (hd : d.Alike R d') :
    Abreast R p q (s.heard d) (t.heard d') := by
  obtain ⟨hchip, hacts, -⟩ := h.found hd
  simp only [heard_eq, Interpretation.orders, Interpretation.edits, hacts, h.control]
  exact h.next hchip (by simp [h.board]) rfl h.deferral (by simp [h.exchange]) rfl rfl

theorem interpret (h : Abreast R p q s t) (hd : d.Alike R d') :
    Abreast R p q (s.interpret d) (t.interpret d') := by
  obtain ⟨-, -, hstatus⟩ := h.found hd
  have hheard := h.heard hd
  rw [interpret_eq, interpret_eq, hstatus]
  refine shielded_notePending ?_ none
  cases (s.found d).status with
  | complete => exact (hheard.quiesce hd).complete
  | pending rearm =>
      cases rearm with
      | none => exact hheard
      | some deadline => exact hheard.arm deadline

/-- The outcome of the reset goes no further than the recovery. -/
theorem recover (h : Abreast R p q s t) (hd : d.Alike R d') :
    Abreast R p q (s.recover d) (t.recover d') := by
  have hreport : ∀ {u v : System σ}, Abreast R p q u v →
      Abreast R p q ((u.order .enable).editFrame (.setLength 0)).complete
        ((v.order .enable).editFrame (.setLength 0)).complete :=
    fun h => ((h.order .enable).editFrame _).complete
  rw [recover_eq, recover_eq, h.control]
  cases s.control.sending with
  | true => exact hreport ((h.quiesce hd).restart hd)
  | false => exact hreport (h.quiesce hd)

theorem dispatch (h : Abreast R p q s t) (hd : d.Alike R d') (job : RadioJob) :
    Abreast R p q (s.dispatch d job) (t.dispatch d' job) := by
  cases hs : s.deferral.holds job with
  | false =>
      rw [dispatch_of_stale hs, dispatch_of_stale (h.deferral ▸ hs)]
      cases job with
      | interrupt => exact (h.order .disable).order .enable
      | watchdog => exact ((h.order .disable).order .enable).order .enable
  | true =>
      cases job with
      | interrupt =>
          rw [dispatch_interrupt hs, dispatch_interrupt (h.deferral ▸ hs)]
          exact (h.shielded_take .interrupt).interpret hd
      | watchdog =>
          rw [dispatch_watchdog hs, dispatch_watchdog (h.deferral ▸ hs)]
          exact (h.shielded_take .watchdog).recover hd

theorem enter (h : Abreast R p q s t) (hd : d.Alike R d') (job : RadioJob) (guarded : Bool) :
    Abreast R p q ((if guarded then s.order .disable else s).dispatch d job)
      ((if guarded then t.order .disable else t).dispatch d' job) := by
  cases guarded with
  | false => exact h.dispatch hd job
  | true => exact (h.order .disable).dispatch hd job

/-- What is due for one of the two is due for the other. -/
theorem dequeue? (h : Abreast R p q s t) :
    (s.dequeue? = none ∧ t.dequeue? = none) ∨
      ∃ entry, s.dequeue? = some (entry, s.unschedule) ∧
        t.dequeue? = some (entry, t.unschedule) := by
  have hdue : t.deferral.agenda.due? = s.deferral.agenda.due? := by rw [h.deferral]
  simp only [System.dequeue?, hdue]
  cases s.deferral.agenda.due? with
  | none => exact .inl ⟨rfl, rfl⟩
  | some entry => exact .inr ⟨entry, rfl, rfl⟩

theorem serve? (h : Abreast R p q s t) (hd : d.Alike R d') :
    (s.serve? d = none ∧ t.serve? d' = none) ∨
      ∃ job u v, s.serve? d = some (job, u) ∧ t.serve? d' = some (job, v) ∧
        Abreast R p q u v := by
  simp only [System.serve?]
  rcases h.dequeue? with ⟨hs, ht⟩ | ⟨entry, hs, ht⟩ <;> rw [hs, ht]
  · exact .inl ⟨rfl, rfl⟩
  · exact .inr ⟨entry.job, _, _, rfl, rfl, h.unschedule.enter hd entry.job entry.guarded⟩

theorem drain (h : Abreast R p q s t) (hd : d.Alike R d') :
    Abreast R p q (s.drain d).2 (t.drain d').2 ∧ (t.drain d').1 = (s.drain d).1 := by
  -- Induction on the first of the two drains. The second serves the same jobs.
  induction s using drain.induct d generalizing t with
  | case1 s hnone =>
      rcases h.serve? hd with ⟨-, hnone'⟩ | ⟨_, _, _, hsome, -⟩
      · rw [drain_of_none hnone, drain_of_none hnone']
        exact ⟨h, rfl⟩
      · rw [hnone] at hsome
        cases hsome
  | case2 s job u hsome _ ih =>
      rcases h.serve? hd with ⟨hnone, -⟩ | ⟨_, _, v, hsome', ht, huv⟩
      · rw [hnone] at hsome
        cases hsome
      · cases hsome.symm.trans hsome'
        obtain ⟨hrest, hjobs⟩ := ih huv
        rw [drain_of_some hsome, drain_of_some ht, hjobs]
        exact ⟨hrest, rfl⟩

/-! ### Steps -/

/-- Two systems that are abreast give the same answer to a step and stay abreast. -/
theorem step (h : Abreast R p q s t) (hd : d.Alike R d') {step step' : Step σ}
    (hstep : Step.Alike R step step')
    (hreset : step = .perform .calibrate →
      (d'.reset true t.exchange t.chip).outcome = (d.reset true s.exchange s.chip).outcome) :
    Abreast R p q (s.step d step).1 (t.step d' step').1 ∧
      (t.step d' step').2 = (s.step d step).2 := by
  cases hstep with
  | adjust hf => exact ⟨h.silent (hf h.chip) h.board h.control h.deferral h.exchange rfl rfl, rfl⟩
  | same hkept =>
      cases step with
      | perform mode =>
          obtain ⟨hnext, hresult⟩ := h.perform hd fun hmode => hreset (congrArg _ hmode)
          rw [step_perform, step_perform, step_perform_snd, step_perform_snd, hresult]
          exact ⟨hnext, rfl⟩
      | capture lines time => exact h.capture d d' lines time
      | dispatch job guarded => exact ⟨h.enter hd job guarded, rfl⟩
      | drain =>
          obtain ⟨hrest, hjobs⟩ := h.drain hd
          exact ⟨hrest.handOver, by simp [System.step, hrest.deferral, hjobs]⟩
      | dequeue =>
          simp only [System.step]
          rcases h.dequeue? with ⟨hs, ht⟩ | ⟨entry, hs, ht⟩ <;> rw [hs, ht]
          · exact ⟨h, rfl⟩
          · exact ⟨h.unschedule, rfl⟩
      | arm deadline => exact ⟨h.arm deadline, rfl⟩
      | order c => exact ⟨h.order c, rfl⟩
      | advance ticks | setClock now =>
          refine ⟨h.silent h.chip h.board h.control ?_ h.exchange rfl rfl, rfl⟩
          simp [System.step, setClock, h.deferral, h.clock]
      | update u =>
          refine ⟨h.silent h.chip h.board h.control h.deferral ?_ rfl rfl, ?_⟩ <;>
            simp [System.step, h.exchange]
      | adjust f => exact absurd rfl (hkept f)

end Abreast

end System

end Transceiver
