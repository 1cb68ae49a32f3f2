import Transceiver.Controller

/-!
The scheduler at work. It takes out an entry whose time has come, disables interrupts if the job
is guarded, and hands the job to the controller. A job can leave another one behind: the interrupt
job may arm the watchdog. The watchdog leaves none, so draining ends.
-/

namespace Transceiver.System

variable {σ ε : Type}

/-- Takes out the entry of the controller if it is due. -/
def dequeue? (s : System σ) : Option (Entry × System σ) :=
  s.deferral.agenda.due?.map fun entry =>
    (entry, { s with deferral := { s.deferral with agenda :=
      { s.deferral.agenda with radio := none } } })

def enter (s : System σ) (d : Driver σ ε) (entry : Entry) : System σ :=
  (if entry.guarded then s.order .disable else s).dispatch d entry.job

def serve? (s : System σ) (d : Driver σ ε) : Option (RadioJob × System σ) :=
  s.dequeue?.map fun (entry, s) => (entry.job, s.enter d entry)

/-- How many jobs can still follow from an entry. -/
def rank : Option Entry → Nat
  | none => 0
  | some entry =>
    match entry.job with
    | .watchdog => 1
    | .interrupt => 2

@[simp] theorem scheduled_quiesce (s : System σ) (d : Driver σ ε) :
    (s.quiesce d).scheduled = none := by
  simp [quiesce, shielded]

@[simp] theorem scheduled_arm (s : System σ) (deadline : Ticks) :
    (s.arm deadline).scheduled = some (.guardedAt deadline .watchdog) := by
  simp [arm, shielded, Deferred.entry]

@[simp] theorem scheduled_restart (s : System σ) (d : Driver σ ε) :
    (s.restart d).1.scheduled = s.scheduled := by
  simp [restart]

/-- A recovery leaves nothing with the scheduler. -/
@[simp] theorem scheduled_recover (s : System σ) (d : Driver σ ε) :
    (s.recover d).scheduled = none := by
  simp only [recover, scheduled_complete, scheduled_editFrame, scheduled_order]
  split <;> simp

/-- An interpretation leaves the watchdog or no job. -/
theorem rank_interpret_le (s : System σ) (d : Driver σ ε) (h : s.scheduled = none) :
    rank (s.interpret d).scheduled ≤ 1 := by
  simp only [interpret, shielded, scheduled_order, scheduled_notePending]
  split <;> simp [rank, Entry.job, h]

/-- A job leaves less behind than it was itself. -/
theorem rank_dispatch_lt (s : System σ) (d : Driver σ ε) (job : RadioJob)
    (h : s.scheduled = none) :
    rank (s.dispatch d job).scheduled < rank (some (.soon job)) := by
  simp only [dispatch]
  split
  · exact Nat.lt_succ_of_le (rank_interpret_le _ d (by simp [shielded, h]))
  · simp [rank, Entry.job]
  · simp [rank, Entry.job, shielded, h]
  · simp [rank, Entry.job, shielded, h]

theorem rank_enter_lt (s : System σ) (d : Driver σ ε) (entry : Entry) (h : s.scheduled = none) :
    rank (s.enter d entry).scheduled < rank (some entry) := by
  unfold enter
  split
  · exact rank_dispatch_lt _ d entry.job h
  · exact rank_dispatch_lt _ d entry.job h

theorem dequeue?_eq_some {s t : System σ} {entry : Entry} (h : s.dequeue? = some (entry, t)) :
    s.scheduled = some entry ∧ t.scheduled = none := by
  simp only [dequeue?, Agenda.due?, Option.map_eq_some_iff, Option.filter_eq_some_iff,
    Prod.mk.injEq] at h
  obtain ⟨_, ⟨hs, -⟩, rfl, rfl⟩ := h
  exact ⟨hs, rfl⟩

theorem rank_lt_of_serve? {s t : System σ} {d : Driver σ ε} {job : RadioJob}
    (h : s.serve? d = some (job, t)) : rank t.scheduled < rank s.scheduled := by
  simp only [serve?, Option.map_eq_some_iff, Prod.mk.injEq] at h
  obtain ⟨⟨entry, u⟩, hu, rfl, rfl⟩ := h
  obtain ⟨hs, hn⟩ := dequeue?_eq_some hu
  rw [hs]
  exact rank_enter_lt u d entry hn

/-- Runs the controller's jobs as long as one is due, and says which. -/
def drain (s : System σ) (d : Driver σ ε) : List RadioJob × System σ :=
  match h : s.serve? d with
  | none => ([], s)
  | some (job, t) =>
    have := rank_lt_of_serve? h
    let rest := t.drain d
    (job :: rest.1, rest.2)
termination_by rank s.scheduled

end Transceiver.System
