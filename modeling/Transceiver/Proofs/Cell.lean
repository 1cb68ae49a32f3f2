import Transceiver.Deferral

/-!
The cell on its own.

A cell has room for one action. What is written takes the place of what was there, and a job of the
scheduler takes the action out that it comes for. Jobs may be late, so they also come when the
action is gone. Then they find nothing, and the cell is as if they had not come.

`effective` leaves such visits out of a history. The last use that remains says what is in the cell,
and each take that remains stands right behind the posting of the action that it takes. So an action
is taken once at most, and never once it is superseded or cancelled.

How many takes there can be follows from a balance: what is taken or still there has been posted, or
was there at the start.
-/

namespace Transceiver.Deferral

namespace Use

/-- Whether a use puts an action into the cell. -/
def posts : Use → Bool
  | write content => content.isSome
  | take _ => false

def takes : Use → Bool
  | write _ => false
  | take _ => true

/-- What the cell holds after a use that has an effect. -/
def leaves : Use → Option Deferred
  | write content => content
  | take _ => none

/-- Whether an action stays in the cell through a use. -/
def spares (a : Deferred) : Use → Bool
  | write _ => false
  | take job => a.kind ≠ job

theorem leaves_eq_some_iff {u : Use} {a : Deferred} :
    u.leaves = some a ↔ u = .write (some a) := by
  cases u <;> simp [leaves]

end Use

/-- Whether a use has an effect. A write always has one. -/
def admits (d : Deferral) : Use → Bool
  | .write _ => true
  | .take job => d.holds job

/-- Makes some uses of the cell in turn. -/
def uses (d : Deferral) (us : List Use) : Deferral := us.foldl use d

/-- Those of some uses that have an effect. -/
def effective (d : Deferral) : List Use → List Use
  | [] => []
  | u :: us => if d.admits u then u :: effective (d.use u) us else effective (d.use u) us

/-! ### One use -/

theorem use_of_not_admits {d : Deferral} {u : Use} (h : d.admits u = false) : d.use u = d := by
  cases u with
  | write content => cases h
  | take job => exact take_of_not_holds h

theorem held_use_of_admits {d : Deferral} {u : Use} (h : d.admits u = true) :
    (d.use u).held = u.leaves := by
  cases u with
  | write content => rfl
  | take job =>
      show (d.take job).held = none
      rw [take_of_holds h]

/-- A use reaches the scheduler only by what it asks for. -/
theorem agenda_use (d : Deferral) (u : Use) :
    (d.use u).agenda = u.requests.foldl AgendaCall.apply d.agenda := by
  cases u with
  | write content => rfl
  | take job => exact take_agenda d job

theorem held_use_eq_some_iff {d : Deferral} {u : Use} {a : Deferred} :
    (d.use u).held = some a ↔ d.held = some a ∧ u.spares a = true ∨ u = .write (some a) := by
  cases u with
  | write content => simp [use, Use.spares]
  | take job =>
      cases h : d.holds job with
      | true =>
          obtain ⟨b, hheld, rfl⟩ := holds_iff.mp h
          have hnot : d.held = some a → a.kind = b.kind := by
            intro ha
            rw [hheld] at ha
            cases ha
            rfl
          simpa [use, take_of_holds h, Use.spares] using hnot
      | false =>
          -- Nothing changes, and to be there is to be spared.
          have hnot : d.held = some a → a.kind ≠ job := by
            intro ha hkind
            rw [holds_iff.mpr ⟨a, ha, hkind⟩] at h
            cases h
          simpa [use, take_of_not_holds h, Use.spares] using hnot

/-! ### Histories -/

theorem effective_of_admits {d : Deferral} {u : Use} (h : d.admits u = true) (us : List Use) :
    d.effective (u :: us) = u :: (d.use u).effective us := if_pos h

theorem effective_of_not_admits {d : Deferral} {u : Use} (h : d.admits u = false)
    (us : List Use) : d.effective (u :: us) = d.effective us := by
  rw [effective, h, if_neg Bool.false_ne_true, use_of_not_admits h]

theorem agenda_uses (d : Deferral) (us : List Use) :
    (d.uses us).agenda = (us.flatMap Use.requests).foldl AgendaCall.apply d.agenda := by
  induction us generalizing d with
  | nil => rfl
  | cons u us ih =>
      show ((d.use u).uses us).agenda = _
      rw [ih, agenda_use, List.flatMap_cons, List.foldl_append]

/-- The last use that has an effect decides. -/
theorem held_uses (d : Deferral) (us : List Use) :
    (d.uses us).held = ((d.effective us).getLast?.map Use.leaves).getD d.held := by
  induction us generalizing d with
  | nil => rfl
  | cons u us ih =>
      show ((d.use u).uses us).held = _
      rw [ih]
      cases h : d.admits u with
      | true =>
          rw [effective_of_admits h, held_use_of_admits h, List.getLast?_cons]
          cases ((d.use u).effective us).getLast? <;> rfl
      | false => rw [effective_of_not_admits h, use_of_not_admits h]

/-- An action is in the cell if it was there or has been posted, and has been spared since. -/
theorem held_uses_eq_some_iff {d : Deferral} {us : List Use} {a : Deferred} :
    (d.uses us).held = some a ↔
      (d.held = some a ∧ ∀ u ∈ us, u.spares a = true) ∨
      ∃ front back, us = front ++ .write (some a) :: back ∧ ∀ u ∈ back, u.spares a = true := by
  induction us generalizing d with
  | nil => simp [uses]
  | cons u us ih =>
      show ((d.use u).uses us).held = some a ↔ _
      rw [ih, held_use_eq_some_iff]
      constructor
      · rintro (⟨⟨hheld, hspares⟩ | rfl, hlater⟩ | ⟨front, back, rfl, hlater⟩)
        · exact .inl ⟨hheld, List.forall_mem_cons.mpr ⟨hspares, hlater⟩⟩
        · exact .inr ⟨[], us, rfl, hlater⟩
        · exact .inr ⟨u :: front, back, rfl, hlater⟩
      · rintro (⟨hheld, hspares⟩ | ⟨_ | ⟨v, front⟩, back, heq, hlater⟩)
        · obtain ⟨hfirst, hlater⟩ := List.forall_mem_cons.mp hspares
          exact .inl ⟨.inl ⟨hheld, hfirst⟩, hlater⟩
        · cases heq
          exact .inl ⟨.inr rfl, hlater⟩
        · cases heq
          exact .inr ⟨front, back, rfl, hlater⟩

/-- A use that had an effect was admitted by what the uses before it had made of the cell. -/
theorem split_of_effective {d : Deferral} {us front back : List Use} {u : Use}
    (h : d.effective us = front ++ u :: back) :
    ∃ before after, us = before ++ u :: after ∧ d.effective before = front ∧
      (d.uses before).admits u = true := by
  induction us generalizing d front with
  | nil => simp [effective] at h
  | cons v us ih =>
      cases hv : d.admits v with
      | false =>
          rw [effective_of_not_admits hv] at h
          obtain ⟨before, after, rfl, hfront, hadmits⟩ := ih h
          refine ⟨v :: before, after, rfl, (effective_of_not_admits hv before).trans hfront, ?_⟩
          show ((d.use v).uses before).admits u = true
          rwa [use_of_not_admits hv]
      | true =>
          rw [effective_of_admits hv] at h
          cases front with
          | nil =>
              cases h
              exact ⟨[], us, rfl, rfl, hv⟩
          | cons w front =>
              obtain ⟨rfl, htail⟩ := List.cons.inj h
              obtain ⟨before, after, rfl, hfront, hadmits⟩ := ih htail
              refine ⟨v :: before, after, rfl, ?_, hadmits⟩
              rw [effective_of_admits hv, hfront]

/-! ### What is taken was posted -/

/-- What a use takes, and what is there afterwards, was there before or is put there by it. -/
theorem takes_add_size_use_le {d : Deferral} {u : Use} (h : d.admits u = true) :
    (if u.takes then 1 else 0) + (d.use u).size ≤ d.size + if u.posts then 1 else 0 := by
  cases u with
  | write content =>
      show 0 + (d.write content).size ≤ d.size + if content.isSome then 1 else 0
      rw [size_write]
      omega
  | take job =>
      obtain ⟨a, hheld, -⟩ := holds_iff.mp h
      have hfull : d.size = 1 := size_of_ne_none (by simp [hheld])
      have hempty : (d.use (.take job)).size = 0 := size_of_none (held_use_of_admits h)
      simp [Use.takes, Use.posts, hfull, hempty]

theorem countP_takes_add_size_le (d : Deferral) (us : List Use) :
    (d.effective us).countP Use.takes + (d.uses us).size ≤ d.size + us.countP Use.posts := by
  induction us generalizing d with
  | nil => simp [effective, uses]
  | cons u us ih =>
      have hlater := ih (d.use u)
      show (d.effective (u :: us)).countP Use.takes + ((d.use u).uses us).size ≤ _
      rw [List.countP_cons]
      cases h : d.admits u with
      | true =>
          have hfirst := takes_add_size_use_le h
          rw [effective_of_admits h, List.countP_cons]
          omega
      | false =>
          rw [use_of_not_admits h] at hlater ⊢
          rw [effective_of_not_admits h]
          omega

/-- Without a posting no more is taken than is there. -/
theorem countP_takes_le_size {us : List Use} (h : ∀ u ∈ us, u.posts = false) (d : Deferral) :
    (d.effective us).countP Use.takes ≤ d.size := by
  have hnone : us.countP Use.posts = 0 := List.countP_eq_zero.mpr (by simpa using h)
  have hbalance := d.countP_takes_add_size_le us
  omega

/-- What is taken from a cell that was empty at first is what was posted just before. -/
theorem posting_of_take {d : Deferral} (hd : d.held = none) {us front back : List Use}
    {job : RadioJob} (h : d.effective us = front ++ .take job :: back) :
    ∃ a, front.getLast? = some (.write (some a)) ∧ a.kind = job := by
  obtain ⟨before, after, -, rfl, hadmits⟩ := split_of_effective h
  obtain ⟨a, hheld, hkind⟩ := holds_iff.mp hadmits
  rw [held_uses, hd] at hheld
  cases hlast : (d.effective before).getLast? with
  | none =>
      rw [hlast] at hheld
      cases hheld
  | some u =>
      rw [hlast] at hheld
      exact ⟨a, congrArg some (Use.leaves_eq_some_iff.mp hheld), hkind⟩

/-! ### A new cell, after any history -/

/-- What a cell says about its content, and what its uses do. -/
structure Lawful (d : Deferral) : Prop where
  exclusive : [d.isEmpty, d.holdsInterrupt, d.deadline?.isSome].count true = 1
  isEmpty_iff : d.isEmpty = true ↔ d.held = none
  holdsInterrupt_iff : d.holdsInterrupt = true ↔ d.held = some .interrupt
  deadline_iff (deadline : Ticks) :
    d.deadline? = some deadline ↔ d.held = some (.watchdog deadline)
  holds_iff (job : RadioJob) : d.holds job = true ↔ ∃ a, d.held = some a ∧ a.kind = job
  /-- The scheduler is not told. -/
  taken (job : RadioJob) : d.holds job = true → d.take job = { d with held := none }
  missed (job : RadioJob) : d.holds job = false → d.take job = d
  /-- The scheduler gets the entry that the content calls for, and keeps all else. -/
  written (content : Option Deferred) : d.write content =
    { held := content, agenda := { d.agenda with radio := content.map Deferred.entry } }

theorem lawful (d : Deferral) : d.Lawful where
  exclusive := by
    rcases d with ⟨_ | _ | deadline, agenda⟩ <;> rfl
  isEmpty_iff := Option.isNone_iff_eq_none
  holdsInterrupt_iff := Deferral.holdsInterrupt_iff
  deadline_iff deadline := by
    rcases d with ⟨_ | _ | deadline', agenda⟩ <;> simp [deadline?]
  holds_iff _ := Deferral.holds_iff
  taken _ := take_of_holds
  missed _ := take_of_not_holds
  written := d.write_eq

/-- Whatever was done with a new cell, it holds what the last use with an effect left there, which
is the action that was posted last unless it was cancelled or taken. It says so, the scheduler was
asked for what was written and for nothing else, and each take came right behind the posting of the
action that it took. So between two postings one action is taken at most, and after a cancellation
none. -/
theorem holds_last_posting_until_taken (agenda : Agenda) :
    let new : Deferral := { agenda }
    (∀ us : List Use, let d := new.uses us
      d.Lawful ∧
      d.held = (new.effective us).getLast?.bind Use.leaves ∧
      (∀ a, d.held = some a ↔ ∃ front back, us = front ++ .write (some a) :: back ∧
        ∀ u ∈ back, u.spares a = true) ∧
      d.agenda = (us.flatMap Use.requests).foldl AgendaCall.apply agenda ∧
      ∀ front job back, new.effective us = front ++ .take job :: back →
        ∃ a, front.getLast? = some (.write (some a)) ∧ a.kind = job) ∧
    ∀ front quiet : List Use, (∀ u ∈ quiet, u.posts = false) →
      ((new.uses front).effective quiet).countP Use.takes ≤ 1 ∧
      (((new.uses front).write none).effective quiet).countP Use.takes = 0 := by
  intro new
  refine ⟨fun us => ⟨lawful _, ?_, fun a => ?_, new.agenda_uses us, fun front job back => ?_⟩,
    fun front quiet hquiet => ⟨?_, ?_⟩⟩
  · rw [held_uses]
    cases (new.effective us).getLast? <;> rfl
  · have hempty : new.held ≠ some a := nofun
    rw [held_uses_eq_some_iff]
    simp only [hempty, false_and, false_or]
  · exact posting_of_take rfl
  · exact Nat.le_trans (countP_takes_le_size hquiet _) (size_le_one _)
  · have hempty : ((new.uses front).write none).size = 0 := size_write _ none
    exact Nat.eq_zero_of_le_zero (hempty ▸ countP_takes_le_size hquiet _)

/-- An interrupt supersedes a watchdog. Both jobs come, the interrupt job even twice, and all of
them again after a cancellation. -/
theorem late_jobs_find_nothing :
    let new : Deferral := { agenda := { mac := some 7 } }
    let posted : List Use := [.write (some (.watchdog 1000)), .write (some .interrupt)]
    let visits : List Use := [.take .watchdog, .take .interrupt, .take .interrupt]
    let d := new.uses posted
    d.held = some .interrupt ∧ d.take .watchdog = d ∧
      (∃ a, posted.getLast? = some (.write (some a)) ∧ a.kind = .interrupt) ∧
      (d.effective visits).countP Use.takes ≤ 1 ∧
      ((d.write none).effective visits).countP Use.takes = 0 ∧
      (d.uses visits).agenda = { mac := some 7, radio := some (.soon .interrupt) } := by
  intro new posted visits d
  obtain ⟨hevery, hquiet⟩ := holds_last_posting_until_taken { mac := some 7 }
  obtain ⟨hlawful, -, hheld, -⟩ := hevery posted
  obtain ⟨-, -, -, hagenda, hposting⟩ := hevery (posted ++ visits)
  obtain ⟨honce, hnever⟩ := hquiet posted visits (by decide)
  exact ⟨(hheld .interrupt).mpr ⟨[.write (some (.watchdog 1000))], [], rfl, nofun⟩,
    hlawful.missed .watchdog rfl, hposting posted .interrupt [] rfl, honce, hnever, hagenda⟩

end Transceiver.Deferral
