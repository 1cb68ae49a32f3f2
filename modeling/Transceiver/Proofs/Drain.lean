import Transceiver.Proofs.Recovery
import Transceiver.Proofs.Verdict

/-!
Drains: what the scheduler runs in one go if no interrupt comes in between.

A job can put another one into the entry that it was taken from. An interrupt job may leave the
watchdog behind, whose deadline may lie in the past; a watchdog leaves nothing, and neither does a
job that lost its place, since it does not touch the entry. So an entry is good for the jobs of
`outstanding` at the most, and nothing is asked of the system for that: the cell and the entry need
not agree, and any time may pass between two jobs.

The MAC layer has a single entry too, and a second completion would take the place of the first.
It cannot come to that, since a job that posts a completion leaves no entry behind.
-/

namespace Transceiver.System

variable {σ ε : Type} {d : Driver σ ε}

/-! ### One job -/

/-- What can still be served of an entry, in its order. -/
def outstanding : Option Entry → List RadioJob
  | none => []
  | some entry =>
    match entry.job with
    | .watchdog => [.watchdog]
    | .interrupt => [.interrupt, .watchdog]

theorem outstanding_sublist (entry : Option Entry) :
    (outstanding entry).Sublist [.interrupt, .watchdog] := by
  rcases entry with _ | ⟨_ | _⟩ | ⟨_, _ | _⟩ <;> simp [outstanding, Entry.job]

/-- What ranks below an entry is outstanding after its job. -/
theorem cons_outstanding_sublist {later : Option Entry} {entry : Entry}
    (h : rank later < rank (some entry)) :
    (entry.job :: outstanding later).Sublist (outstanding (some entry)) := by
  cases later with
  | none => cases hjob : entry.job <;> simp [outstanding, hjob]
  | some later =>
      cases hjob : entry.job <;> cases hlater : later.job <;>
        simp [rank, outstanding, hjob, hlater] at h ⊢

/-- A job is the first of those outstanding, and leaves at most the others. -/
theorem outstanding_of_serve? {s t : System σ} {job : RadioJob}
    (h : s.serve? d = some (job, t)) :
    (job :: outstanding t.scheduled).Sublist (outstanding s.scheduled) := by
  have hrank := rank_lt_of_serve? h
  obtain ⟨entry, hs, -, rfl, -⟩ := serve?_eq_some_iff.mp h
  rw [hs] at hrank ⊢
  exact cons_outstanding_sublist hrank

/-- Nothing is posted on the way from `s` to `t`, or one completion is, and then there is nothing
left to be served. -/
def PostsLast (s t : System σ) : Prop :=
  t.completions = s.completions ∧ t.deferral.agenda.mac = s.deferral.agenda.mac ∨
    t.completions = s.completions + 1 ∧
      t.deferral.agenda.mac = some s.exchange.completion ∧ t.scheduled = none

theorem postsLast_dispatch (s : System σ) (d : Driver σ ε) (job : RadioJob) :
    PostsLast s (s.dispatch d job) := by
  have hspec := dispatch_spec s d job
  generalize ht : s.dispatch d job = t at hspec
  cases hspec with
  | stale hstale =>
      left
      cases job <;> exact ⟨rfl, rfl⟩
  | completed hholds hstatus hend _ =>
      refine .inr ⟨hend.completions, ?_, hend.scheduled⟩
      rw [← ht]
      exact (ended_of_complete hholds hstatus).mac
  | waits hholds hstatus hwaiting =>
      refine .inl ⟨hwaiting.completions, ?_⟩
      rw [← ht]
      exact (continued_of_pending hholds hstatus).mac
  | recovered hholds hend =>
      refine .inr ⟨hend.completions, ?_, hend.scheduled⟩
      rw [← ht]
      exact mac_dispatch_watchdog hholds d

theorem postsLast_of_serve? {s t : System σ} {job : RadioJob} (h : s.serve? d = some (job, t)) :
    PostsLast s t := by
  obtain ⟨entry, -, -, -, rfl⟩ := serve?_eq_some_iff.mp h
  rw [enter]
  split
  · exact postsLast_dispatch (s.unschedule.order .disable) d entry.job
  · exact postsLast_dispatch s.unschedule d entry.job

theorem completion_of_serve? {s t : System σ} {job : RadioJob} (h : s.serve? d = some (job, t)) :
    t.exchange.completion = s.exchange.completion := by
  rw [exchange_serve h, Exchange.completion_edits]

/-! ### Jobs in succession -/

/-- Jobs are served from `s` to `t`, each as its time has come. -/
inductive Served (d : Driver σ ε) (s : System σ) : List RadioJob → System σ → Prop
  | nothing : Served d s [] s
  | next {jobs : List RadioJob} {job : RadioJob} {t u : System σ} : Served d s jobs t →
      t.serve? d = some (job, u) → Served d s (jobs ++ [job]) u
  | pause {jobs : List RadioJob} {t : System σ} (now : Ticks) : Served d s jobs t →
      Served d s jobs (t.setClock now)

theorem Served.trans {s t u : System σ} {front back : List RadioJob} (hst : Served d s front t)
    (htu : Served d t back u) : Served d s (front ++ back) u := by
  induction htu with
  | nothing => rwa [List.append_nil]
  | next _ hserve ih =>
      rw [← List.append_assoc]
      exact ih.next hserve
  | pause now _ ih => exact ih.pause now

theorem Served.jobs_sublist {s t : System σ} {jobs : List RadioJob} (h : Served d s jobs t) :
    (jobs ++ outstanding t.scheduled).Sublist (outstanding s.scheduled) := by
  induction h with
  | nothing => exact .refl _
  | @next jobs job t u _ hserve ih =>
      have hjob := (outstanding_of_serve? hserve).append_left jobs
      rw [List.append_assoc]
      exact hjob.trans ih
  | pause now _ ih => exact ih

theorem Served.completion {s t : System σ} {jobs : List RadioJob} (h : Served d s jobs t) :
    t.exchange.completion = s.exchange.completion := by
  induction h with
  | nothing => rfl
  | next _ hserve ih => exact (completion_of_serve? hserve).trans ih
  | pause now _ ih => exact ih

/-- Without an entry nothing is served. -/
theorem Served.of_unscheduled {s t : System σ} {jobs : List RadioJob} (h : Served d s jobs t)
    (hs : s.scheduled = none) :
    jobs = [] ∧ t.scheduled = none ∧ t.deferral.agenda.mac = s.deferral.agenda.mac := by
  induction h with
  | nothing => exact ⟨rfl, hs, rfl⟩
  | next _ hserve ih =>
      obtain ⟨entry, hentry, -⟩ := serve?_eq_some_iff.mp hserve
      cases hentry.symm.trans ih.2.1
  | pause now _ ih => exact ih

theorem Served.postsLast {s t : System σ} {jobs : List RadioJob} (h : Served d s jobs t) :
    PostsLast s t := by
  induction h with
  | nothing => exact .inl ⟨rfl, rfl⟩
  | next hserved hserve ih =>
      rcases ih with ⟨hcompletions, hmac⟩ | ⟨-, -, hnone⟩
      · have hposts := postsLast_of_serve? hserve
        rwa [PostsLast, hcompletions, hmac, hserved.completion] at hposts
      · -- There was no entry left from which this job could have come.
        obtain ⟨entry, hentry, -⟩ := serve?_eq_some_iff.mp hserve
        cases hentry.symm.trans hnone
  | pause now _ ih => exact ih

theorem served_drain (s : System σ) (d : Driver σ ε) : Served d s (s.drain d).1 (s.drain d).2 := by
  induction s using drain.induct d with
  | case1 s hnone =>
      rw [drain_of_none hnone]
      exact .nothing
  | case2 s job t hsome _ ih =>
      rw [drain_of_some hsome]
      exact (Served.nothing.next hsome).trans ih

theorem dequeue?_drain (s : System σ) (d : Driver σ ε) : (s.drain d).2.dequeue? = none := by
  induction s using drain.induct d with
  | case1 s hnone =>
      rw [drain_of_none hnone]
      exact Option.map_eq_none_iff.mp hnone
  | case2 s job t hsome _ ih =>
      rw [drain_of_some hsome]
      exact ih

/-- From any system at most an interrupt job and then a watchdog are served, whatever the driver
answers, and a drain serves them to the end. At most one completion is posted by them, and no job
is served after it that could take its place. -/
theorem drain_posts_once (s : System σ) (d : Driver σ ε) :
    (∀ jobs t, Served d s jobs t →
      jobs.length ≤ 2 ∧ jobs.Sublist [.interrupt, .watchdog] ∧
      (t.completions = s.completions ∧ t.deferral.agenda.mac = s.deferral.agenda.mac ∨
        t.completions = s.completions + 1 ∧
          t.deferral.agenda.mac = some s.exchange.completion ∧
          ∀ later u, Served d t later u →
            later = [] ∧ u.deferral.agenda.mac = some s.exchange.completion)) ∧
      Served d s (s.drain d).1 (s.drain d).2 ∧ (s.drain d).2.dequeue? = none := by
  refine ⟨fun jobs t hserved => ?_, served_drain s d, dequeue?_drain s d⟩
  have hjobs : jobs.Sublist [.interrupt, .watchdog] :=
    (List.sublist_append_left _ _).trans (hserved.jobs_sublist.trans (outstanding_sublist _))
  refine ⟨hjobs.length_le, hjobs, ?_⟩
  rcases hserved.postsLast with hnothing | ⟨hcompletions, hmac, hnone⟩
  · exact .inl hnothing
  · refine .inr ⟨hcompletions, hmac, fun later u hlater => ?_⟩
    obtain ⟨hnil, -, hkept⟩ := hlater.of_unscheduled hnone
    exact ⟨hnil, hkept.trans hmac⟩

/-- The driver waits for more, under a watchdog whose deadline is long past. The watchdog is served
in the same drain, and nothing is left to take the place of the completion that it posts. -/
theorem late_rearm_drained :
    let d := Device.stated.driver
    let s := (bench [{ status := .pending (some 500) }]).run d
      [.update (.register 7), .perform .receive, .setClock 1000, .capture 1 none]
    let t := (s.drain d).2
    (s.drain d).1 = [.interrupt, .watchdog] ∧ t.completions = 1 ∧
      ∀ later u, Served d t later u → later = [] ∧ u.deferral.agenda.mac = some 7 := by
  intro d s t
  let rearmed := s.unschedule.enter d (.soon .interrupt)
  let recovered := rearmed.unschedule.enter d (.guardedAt 500 .watchdog)
  have hinterrupt : s.serve? d = some (.interrupt, rearmed) :=
    serve?_eq_some_iff.mpr ⟨.soon .interrupt, by decide, by decide, rfl, rfl⟩
  have hwatchdog : rearmed.serve? d = some (.watchdog, recovered) :=
    serve?_eq_some_iff.mpr ⟨.guardedAt 500 .watchdog, by decide, by decide, rfl, rfl⟩
  have hnone : recovered.serve? d = none := by decide
  have hdrain : s.drain d = ([.interrupt, .watchdog], recovered) := by
    rw [drain_of_some hinterrupt, drain_of_some hwatchdog, drain_of_none hnone]
  have hcompletions : t.completions = 1 := by
    rw [show t = recovered from congrArg Prod.snd hdrain]
    decide
  obtain ⟨hserved, hdrained, -⟩ := drain_posts_once s d
  obtain ⟨-, -, hsame | ⟨-, -, hlast⟩⟩ := hserved _ _ hdrained
  · exact absurd (hcompletions.symm.trans hsame.1) (by decide)
  · exact ⟨congrArg Prod.fst hdrain, hcompletions, hlast⟩

end Transceiver.System
