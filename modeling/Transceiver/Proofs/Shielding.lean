import Transceiver.Proofs.Log

/-!
Shielding: every operation leaves the interrupts as it found them.

Interrupts are disabled and enabled in pairs, and the pairs nest, so what counts is a depth. A log
is `Level` if it ends at the depth at which it begins and if each call is made at a depth that suits
it: never below the beginning, and one deeper for the calls that put the chip to sleep or change
what is deferred. Level logs can be appended, and so a request and an interrupt job are level as
soon as their pieces are.

The watchdog is the exception that the scheduler calls for. It is entered with interrupts disabled
once more than they were and enables them itself, whether it recovers or has lost its place. Its log
is level up to that release. A driver is asked for no more than to be level on its own.
-/

namespace Transceiver

/-- The depth at which the call at a position of a log is made. -/
def Board.depthAt (b : Board) (calls : List Call) (i : Nat) : Int :=
  (b.through (calls.take i)).depth

theorem Board.depthAt_append_left (b : Board) {front : List Call} (back : List Call) {i : Nat}
    (h : i ≤ front.length) : b.depthAt (front ++ back) i = b.depthAt front i := by
  rw [depthAt, depthAt, List.take_append_of_le_length h]

theorem Board.depthAt_append_right (b : Board) (front back : List Call) (i : Nat) :
    b.depthAt (front ++ back) (front.length + i) = (b.through front).depthAt back i := by
  rw [depthAt, depthAt, List.take_length_add_append, Board.through_append]

/-- How much deeper than the beginning of a log a call is to be made. -/
def Call.Proper (depth : Int) : Call → Prop
  | .driver .sleep | .agenda .clear | .agenda (.arm _ _) => 1 ≤ depth
  | .driver (.reset _ _) | .agenda (.complete _) => depth = 0
  | _ => 0 ≤ depth

/-- A log that ends at the depth at which it begins, with all calls at their proper depth. The calls
that bring the radio to rest follow the one that puts the chip to sleep, as deep as that one. -/
structure Level (b : Board) (calls : List Call) : Prop where
  returns : (b.through calls).depth = b.depth
  proper : ∀ (i : Nat) (c : Call), calls[i]? = some c → c.Proper (b.depthAt calls i - b.depth)
  rests : ∀ i : Nat, calls[i]? = some (.driver .sleep) → ∀ j < 5,
    calls[i + j]? = System.quiesceCalls[j + 1]? ∧ b.depth + 1 ≤ b.depthAt calls (i + j)

/-- Orders that a driver may give: they end at the depth at which they begin and are never below
it. -/
def Neutral (orders : List BoardCall) : Prop :=
  ∀ b : Board, (b.after orders).depth = b.depth ∧
    ∀ i, b.depth ≤ (b.after (orders.take i)).depth

/-- A driver whose routines do not change the depth. -/
structure Driver.DepthNeutral {σ ε : Type} (d : Driver σ ε) : Prop where
  reset : ∀ calibrate x chip, Neutral (d.reset calibrate x chip).orders
  start : ∀ activity x chip, Neutral (d.start activity x chip).orders
  interpret : ∀ time lines x chip, Neutral (d.interpret time lines x chip).orders

theorem depth_after_of_forall {orders : List BoardCall} (b : Board)
    (h : ∀ c ∈ orders, c ≠ .disable ∧ c ≠ .enable) : (b.after orders).depth = b.depth := by
  refine Board.after_preserves Board.depth (fun c hc b => ?_) b
  cases c with
  | disable => exact absurd rfl (h _ hc).1
  | enable => exact absurd rfl (h _ hc).2
  | _ => rfl

theorem neutral_of_forall {orders : List BoardCall}
    (h : ∀ c ∈ orders, c ≠ .disable ∧ c ≠ .enable) : Neutral orders := fun b =>
  ⟨depth_after_of_forall b h, fun _ => Int.le_of_eq
    (depth_after_of_forall b fun c hc => h c (List.mem_of_mem_take hc)).symm⟩

/-- Scripted chips leave the interrupts of the processor alone. -/
theorem Device.driver_depthNeutral (device : Device) : device.driver.DepthNeutral := by
  have hstart : ∀ (script : Script) (activity : Start),
      Neutral (script.tryStart activity).orders := by
    intro script activity
    refine neutral_of_forall ?_
    simp only [Script.tryStart]
    split
    · rcases activity with (_ | _) | _ | _ | _ | _ <;> simp [Script.startOrders]
    · simp
  have hrespond : ∀ script : Script, Neutral script.respond.orders := by
    intro script
    refine neutral_of_forall ?_
    unfold Script.respond
    split
    · exact nofun
    · rename_i r _ _
      obtain ⟨status, received, length, lines⟩ := r
      cases received <;> cases length <;> cases lines <;> simp [Interpretation.orders]
  have hreset : Neutral [] := neutral_of_forall (by simp)
  cases device with
  | programmed preamble =>
      exact ⟨fun _ _ _ => hreset, fun activity _ script => hstart script activity,
        fun _ _ _ script => hrespond script⟩
  | stated =>
      exact ⟨fun _ _ _ => hreset, fun activity _ script => hstart script activity,
        fun _ _ _ script => hrespond script⟩

/-! ### Level logs -/

theorem Level.nil (b : Board) : Level b [] where
  returns := rfl
  proper i c h := by cases h
  rests i h := by cases h

theorem Level.append {b : Board} {front back : List Call} (hfront : Level b front)
    (hback : Level (b.through front) back) : Level b (front ++ back) where
  returns := by rw [Board.through_append, hback.returns, hfront.returns]
  proper i c h := by
    rcases Nat.lt_or_ge i front.length with hi | hi
    · rw [List.getElem?_append_left hi] at h
      rw [b.depthAt_append_left back (Nat.le_of_lt hi)]
      exact hfront.proper i c h
    · obtain ⟨k, rfl⟩ := Nat.exists_eq_add_of_le hi
      rw [List.getElem?_append_right hi, Nat.add_sub_cancel_left] at h
      rw [b.depthAt_append_right, ← hfront.returns]
      exact hback.proper k c h
  rests i h j hj := by
    rcases Nat.lt_or_ge i front.length with hi | hi
    · rw [List.getElem?_append_left hi] at h
      obtain ⟨hcall, hdepth⟩ := hfront.rests i h j hj
      -- The call is one of those that bring the radio to rest, so it is still in front.
      have hj' : i + j < front.length := by
        have hlt : j + 1 < System.quiesceCalls.length :=
          Nat.succ_lt_succ (Nat.lt_trans hj (by decide))
        rw [List.getElem?_eq_getElem hlt] at hcall
        exact (List.getElem?_eq_some_iff.mp hcall).1
      rw [List.getElem?_append_left hj', b.depthAt_append_left back (Nat.le_of_lt hj')]
      exact ⟨hcall, hdepth⟩
    · obtain ⟨k, rfl⟩ := Nat.exists_eq_add_of_le hi
      rw [List.getElem?_append_right hi, Nat.add_sub_cancel_left] at h
      obtain ⟨hcall, hdepth⟩ := hback.rests k h j hj
      rw [Nat.add_assoc, List.getElem?_append_right (Nat.le_add_right _ _),
        Nat.add_sub_cancel_left, b.depthAt_append_right, ← hfront.returns]
      exact ⟨hcall, hdepth⟩

/-- A log without sleep is level if its calls are at their proper depth. -/
theorem Level.of_awake {b : Board} {calls : List Call}
    (hreturns : (b.through calls).depth = b.depth)
    (hproper : ∀ (i : Nat) (c : Call), calls[i]? = some c →
      c.Proper (b.depthAt calls i - b.depth))
    (hawake : .driver .sleep ∉ calls) : Level b calls where
  returns := hreturns
  proper := hproper
  rests _ h := absurd (List.mem_of_getElem? h) hawake

theorem level_quiesce (b : Board) : Level b System.quiesceCalls where
  returns := by simp [System.quiesceCalls, BoardCall.apply]
  proper i c h := by
    rcases i with _ | _ | _ | _ | _ | _ | _ | i <;> simp [System.quiesceCalls] at h <;> subst h <;>
      simp only [Call.Proper, Board.depthAt, System.quiesceCalls, List.take_zero,
        List.take_succ_cons, Board.through_nil, Board.through_board, Board.through_driver,
        Board.through_agenda, BoardCall.apply] <;> omega
  rests i h j hj := by
    obtain rfl : i = 1 := by
      rcases i with _ | _ | _ | _ | _ | _ | _ | i <;> simp [System.quiesceCalls] at h ⊢
    refine ⟨by rw [Nat.add_comm], ?_⟩
    rcases j with _ | _ | _ | _ | _ | j
    case succ => omega
    all_goals simp [Board.depthAt, System.quiesceCalls, BoardCall.apply]

theorem level_arm (b : Board) (deadline : Ticks) : Level b (armCalls deadline) := by
  refine .of_awake (by simp [armCalls, BoardCall.apply]) (fun i c h => ?_) (by simp [armCalls])
  rcases i with _ | _ | _ | i <;> simp [armCalls] at h <;> subst h <;>
    simp only [Call.Proper, Board.depthAt, armCalls, List.take_zero, List.take_succ_cons,
      Board.through_nil, Board.through_board, Board.through_agenda, BoardCall.apply] <;> omega

theorem level_shield (b : Board) : Level b shieldCalls := by
  refine .of_awake (by simp [shieldCalls, BoardCall.apply]) (fun i c h => ?_)
    (by simp [shieldCalls])
  rcases i with _ | _ | i <;> simp [shieldCalls] at h <;> subst h <;>
    simp only [Call.Proper, Board.depthAt, shieldCalls, List.take_zero, List.take_succ_cons,
      Board.through_nil, Board.through_board, BoardCall.apply] <;> omega

/-- The first acts give the first orders. -/
theorem Act.orders_take (acts : List Act) (i : Nat) :
    ∃ j, Act.orders (acts.take i) = (Act.orders acts).take j :=
  ⟨_, List.prefix_iff_eq_take.mp ((List.take_prefix i acts).filterMap order?)⟩

theorem Act.call_ne_sleep (a : Act) : a.call ≠ .driver .sleep := by
  cases a <;> exact nofun

theorem Act.proper_call {depth : Int} (h : 0 ≤ depth) (a : Act) : a.call.Proper depth := by
  cases a <;> exact h

/-- A driver routine is level if its orders are neutral. -/
theorem level_routine (b : Board) {c : DriverCall} (hc : c ≠ .sleep) {acts : List Act}
    (h : Neutral (Act.orders acts)) : Level b (routineCalls c acts) := by
  obtain ⟨hreturns, habove⟩ := h b
  refine .of_awake (by simpa [routineCalls] using hreturns) (fun i call hcall => ?_)
    (by simp [routineCalls, hc.symm, Act.call_ne_sleep])
  cases i with
  | zero =>
      obtain rfl : .driver c = call := by simpa [routineCalls] using hcall
      cases c with
      | sleep => exact absurd rfl hc
      | _ => simp [Call.Proper, Board.depthAt]
  | succ i =>
      obtain ⟨a, -, rfl⟩ : ∃ a, acts[i]? = some a ∧ a.call = call := by
        simpa [routineCalls] using hcall
      obtain ⟨j, hj⟩ := Act.orders_take acts i
      have hdepth := habove j
      refine a.proper_call ?_
      simp only [Board.depthAt, routineCalls, List.take_succ_cons, ← List.map_take,
        Board.through_driver, Board.through_acts, hj]
      omega

/-- A routine that does nothing but give orders is level if these are neutral. -/
theorem level_reply {σ ε : Type} (b : Board) {c : DriverCall} (hc : c ≠ .sleep)
    {reply : Reply σ ε} (h : Neutral reply.orders) : Level b (routineCalls c reply.acts) :=
  level_routine b hc (by rwa [Reply.orders_acts])

/-- A single call that does not concern the board. -/
theorem level_singleton (b : Board) {c : Call} (horder : c.order? = none) (hc : c.Proper 0)
    (hawake : c ≠ .driver .sleep) : Level b [c] := by
  have hsame : b.through [c] = b := by simp [Board.through, horder, Board.after]
  refine .of_awake (by rw [hsame]) (fun i call hcall => ?_) (by simpa using hawake.symm)
  cases i with
  | zero =>
      obtain rfl : c = call := by simpa using hcall
      simpa [Board.depthAt] using hc
  | succ i => cases hcall

/-! ### Requests and jobs -/

theorem Requested.level {σ ε : Type} {d : Driver σ ε} (hd : d.DepthNeutral) {calls : List Call}
    (h : Requested d calls) (b : Board) : Level b calls := by
  induction h generalizing b with
  | nil => exact .nil b
  | append _ _ hfront hback => exact (hfront b).append (hback _)
  | rest => exact level_quiesce b
  | arm deadline => exact level_arm b deadline
  | airtime modulation length => exact level_singleton b rfl (Int.le_refl 0) (by simp)
  | start activity x chip => exact level_reply b (by simp) (hd.start activity x chip)
  | reset x chip => exact level_reply b (by simp) (hd.reset true x chip)

theorem level_verdict (b : Board) (completion : CompletionId) (status : Status) :
    Level b (verdictCalls completion status) := by
  rcases status with _ | _ | deadline
  · exact (level_quiesce b).append (level_singleton _ rfl rfl (by simp))
  · exact .nil b
  · exact level_arm b deadline

namespace System

variable {σ ε : Type}

theorem level_interpretCalls {d : Driver σ ε} (hd : d.DepthNeutral) (s : System σ) (b : Board) :
    Level b (s.interpretCalls d) := by
  have hheard : Level b (routineCalls (.interpret s.control.capturedAt
      (s.control.pending.getD 0)) (s.found d).acts) :=
    level_routine b (by simp) (hd.interpret _ _ _ _)
  exact hheard.append ((level_verdict _ _ _).append (level_shield _))

theorem level_recoverCalls {d : Driver σ ε} (hd : d.DepthNeutral) (s : System σ) (b : Board) :
    Level b (s.recoverCalls d) := by
  refine (level_quiesce b).append ?_
  split
  · exact level_reply _ (by simp) (hd.reset _ _ _)
  · exact .nil _

theorem not_complete_mem_recoverCalls (s : System σ) (d : Driver σ ε) (id : CompletionId) :
    .agenda (.complete id) ∉ s.recoverCalls d := by
  rw [recoverCalls, List.mem_append]
  split <;> simp [quiesceCalls, routineCalls, Reply.acts, Act.call]

/-- The operation that leads from `s` to `t` has a level log. -/
structure KeepsLevel (s t : System σ) : Prop where
  depth : t.board.depth = s.board.depth
  log : ∃ calls, Logged s calls t ∧ Level s.board calls

/-- The operation that leads from `s` to `t` has a level log without a completion, and after it
enables the interrupts once. All that may follow, one less deep, is the report of an operation that
has not ended in time. -/
structure Releases (s t : System σ) : Prop where
  depth : t.board.depth = s.board.depth - 1
  log : ∃ inner last, Logged s (inner ++ .board .enable :: last) t ∧ Level s.board inner ∧
    (∀ id, .agenda (.complete id) ∉ inner) ∧
    (∀ i, inner.length < i →
      s.board.depthAt (inner ++ .board .enable :: last) i = s.board.depth - 1) ∧
    (last = [] ∨ ∃ id, last = reportCalls id)

theorem KeepsLevel.of_logged {s t : System σ} {calls : List Call} (hlog : Logged s calls t)
    (h : Level s.board calls) : KeepsLevel s t :=
  ⟨by rw [hlog.board, h.returns], calls, hlog, h⟩

theorem Releases.of_logged {s t : System σ} {inner last : List Call}
    (hlog : Logged s (inner ++ .board .enable :: last) t) (h : Level s.board inner)
    (hnone : ∀ id, .agenda (.complete id) ∉ inner)
    (hlast : last = [] ∨ ∃ id, last = reportCalls id) : Releases s t := by
  have hsilent : ∀ k, ∀ b : Board, b.through (last.take k) = b := by
    rcases hlast with rfl | ⟨id, rfl⟩
    · simp
    · rintro (_ | _ | _ | k) b <;> simp [reportCalls]
  have hafter : ∀ i, inner.length < i →
      s.board.depthAt (inner ++ .board .enable :: last) i = s.board.depth - 1 := by
    intro i hi
    obtain ⟨k, rfl⟩ := Nat.exists_eq_add_of_lt hi
    rw [Nat.add_assoc, Board.depthAt_append_right]
    simp [Board.depthAt, BoardCall.apply, hsilent, h.returns]
  refine ⟨?_, inner, last, hlog, h, hnone, hafter, hlast⟩
  have hend := hafter (inner ++ .board .enable :: last).length (by simp)
  rwa [Board.depthAt, List.take_length, ← hlog.board] at hend

theorem keepsLevel_perform {d : Driver σ ε} (hd : d.DepthNeutral) (s : System σ) (mode : Mode) :
    KeepsLevel s (s.perform d mode).1 := by
  obtain ⟨calls, hcalls, hlog⟩ := requests_perform s d mode
  exact .of_logged hlog (hcalls.level hd _)

theorem keepsLevel_capture (s : System σ) (d : Driver σ ε) (lines : UInt8)
    (time : Option Ticks) : KeepsLevel s (s.step d (.capture lines time)).1 := by
  refine .of_logged (logged_capture s d lines time) ?_
  split
  · exact level_singleton _ rfl (Int.le_refl 0) (by simp)
  · exact .nil _

theorem keepsLevel_arm (s : System σ) (deadline : Ticks) : KeepsLevel s (s.arm deadline) :=
  .of_logged (logged_arm s deadline) (level_arm _ deadline)

theorem keepsLevel_dispatch_interrupt {d : Driver σ ε} (hd : d.DepthNeutral) (s : System σ) :
    KeepsLevel s (s.dispatch d .interrupt) := by
  cases h : s.deferral.holds .interrupt with
  | false =>
      rw [dispatch_of_stale h]
      exact .of_logged (logged_dropped s .interrupt) (level_shield _)
  | true =>
      exact .of_logged (logged_dispatch_interrupt h d)
        ((level_shield _).append (level_interpretCalls hd s _))

theorem releases_dispatch_watchdog {d : Driver σ ε} (hd : d.DepthNeutral) (s : System σ) :
    Releases s (s.dispatch d .watchdog) := by
  cases h : s.deferral.holds .watchdog with
  | false =>
      rw [dispatch_of_stale h]
      exact .of_logged (logged_dropped s .watchdog) (level_shield _) (by simp [shieldCalls])
        (.inl rfl)
  | true =>
      have hlog := logged_dispatch_watchdog h d
      rw [← List.append_assoc] at hlog
      refine .of_logged hlog ((level_shield _).append (level_recoverCalls hd s _)) (fun id => ?_)
        (.inr ⟨_, rfl⟩)
      rw [List.mem_append, not_or]
      exact ⟨by simp [shieldCalls], not_complete_mem_recoverCalls s d id⟩

/-! ### Runs -/

/-- A watchdog is entered with interrupts disabled once more, an interrupt job is not, and nobody
else disables or enables them. A drain relies on what the scheduler holds. -/
def EntersGuarded (s : System σ) : Step σ → Prop
  | .dispatch job guarded => guarded = true ↔ job = .watchdog
  | .drain => ∀ entry, s.scheduled = some entry → (entry.guarded = true ↔ entry.job = .watchdog)
  | .order .disable | .order .enable => False
  | _ => True

theorem depth_enter {d : Driver σ ε} (hd : d.DepthNeutral) (s : System σ) {job : RadioJob}
    {guarded : Bool} (h : guarded = true ↔ job = .watchdog) :
    ((if guarded then s.order .disable else s).dispatch d job).board.depth = s.board.depth := by
  cases job with
  | interrupt =>
      obtain rfl : guarded = false := by simpa using h
      exact (keepsLevel_dispatch_interrupt hd s).depth
  | watchdog =>
      obtain rfl : guarded = true := by simpa using h
      have hreleased := (releases_dispatch_watchdog hd (s.order .disable)).depth
      simpa [order, BoardCall.apply] using hreleased

/-- What a job leaves with the scheduler is at most a watchdog, which is guarded. -/
theorem guarded_of_scheduled_dispatch {d : Driver σ ε} {s : System σ} {job : RadioJob}
    (h : s.scheduled = none) {entry : Entry} (hentry : (s.dispatch d job).scheduled = some entry) :
    entry.guarded = true ∧ entry.job = .watchdog := by
  have hspec := dispatch_spec s d job
  generalize s.dispatch d job = t at hspec hentry
  cases hspec with
  | stale _ =>
      cases job <;> simp [dropped, h] at hentry
  | completed _ _ hend _ | recovered _ hend => simp [hend.scheduled] at hentry
  | @waits _ rearm _ _ hwait =>
      rw [hwait.scheduled, h] at hentry
      cases rearm with
      | none => cases hentry
      | some deadline =>
          cases hentry
          exact ⟨rfl, rfl⟩

theorem depth_drain {d : Driver σ ε} (hd : d.DepthNeutral) (s : System σ)
    (h : EntersGuarded s .drain) : (s.drain d).2.board.depth = s.board.depth := by
  induction s using drain.induct d with
  | case1 s hnone => rw [drain_of_none hnone]
  | case2 s job t hsome _ ih =>
      rw [drain_of_some hsome]
      obtain ⟨entry, hsched, -, -, rfl⟩ := serve?_eq_some_iff.mp hsome
      rw [ih]
      · exact depth_enter hd s.unschedule (h entry hsched)
      · intro later hlater
        have hlater' : later.guarded = true ∧ later.job = .watchdog := by
          unfold enter at hlater
          split at hlater <;> exact guarded_of_scheduled_dispatch rfl hlater
        simp [hlater'.1, hlater'.2]

theorem depth_step {d : Driver σ ε} (hd : d.DepthNeutral) (s : System σ) (step : Step σ)
    (h : EntersGuarded s step) : (s.step d step).1.board.depth = s.board.depth := by
  cases step with
  | perform mode =>
      rw [step_perform]
      exact (keepsLevel_perform hd s mode).depth
  | capture lines time => exact (keepsLevel_capture s d lines time).depth
  | dispatch job guarded => exact depth_enter hd s h
  | drain => exact depth_drain hd s h
  | dequeue =>
      rcases step_dequeue s d with heq | heq <;> rw [heq]
      rfl
  | arm deadline => exact (keepsLevel_arm s deadline).depth
  | order c =>
      cases c with
      | disable | enable => exact absurd h not_false
      | _ => rfl
  | advance ticks | setClock now | update u | adjust f => rfl

/-- With a driver that does not change the depth, every request, interrupt, arming and interrupt job
has a level log, and a watchdog has one up to the release that it owes. So a run that enters exactly
the watchdogs with interrupts disabled once more is back at its depth after each step. -/
theorem depth_restored {d : Driver σ ε} (hd : d.DepthNeutral) (s : System σ) :
    (∀ mode, KeepsLevel s (s.perform d mode).1) ∧
      (∀ lines time, KeepsLevel s (s.step d (.capture lines time)).1) ∧
      (∀ deadline, KeepsLevel s (s.arm deadline)) ∧
      KeepsLevel s (s.dispatch d .interrupt) ∧
      Releases s (s.dispatch d .watchdog) ∧
      ∀ steps, Admissible d EntersGuarded s steps →
        (s.run d steps).board.depth = s.board.depth := by
  refine ⟨keepsLevel_perform hd s, keepsLevel_capture s d, keepsLevel_arm s,
    keepsLevel_dispatch_interrupt hd s, releases_dispatch_watchdog hd s, fun steps hrun => ?_⟩
  exact run_related (R := fun s t => t.board.depth = s.board.depth) (fun _ => rfl)
    (fun hst htu => htu.trans hst) (depth_step hd) hrun

/-- A receive takes an interrupt while its watchdog is taken out, waits under a new deadline and is
overdue: the interrupts end up as they were. -/
theorem depth_of_late_receive :
    let d := Device.stated.driver
    let s := bench [{ status := .pending (some 5000) }]
    (s.run d [.perform .receive, .capture 1 none, .dispatch .watchdog true,
      .dispatch .interrupt false, .setClock 6000, .drain]).board.depth = 0 := by
  intro d s
  obtain ⟨-, -, -, -, -, hrun⟩ := depth_restored (Device.driver_depthNeutral .stated) s
  refine hrun _ ⟨trivial, trivial, by simp [EntersGuarded], by simp [EntersGuarded], trivial, ?_,
    trivial⟩
  intro entry hentry
  have hsched : ((s.run d [.perform .receive, .capture 1 none, .dispatch .watchdog true,
      .dispatch .interrupt false, .setClock 6000]).scheduled) =
        some (.guardedAt 5000 .watchdog) := by decide
  cases hsched.symm.trans hentry
  simp [Entry.guarded, Entry.job]

end System

end Transceiver
