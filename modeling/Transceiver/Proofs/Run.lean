import Transceiver.Script

/-!
Runs, and the two inductions over them.

What may happen to a controller is said by a condition on a step and on the system in which the
step is made; `Admissible` asks it of every step of a run. The answer of a step is a function of the
two, so a condition may speak of it as well. `run_invariant` and `run_related` then turn what one
step keeps, or how one step relates the systems before and after it, into a fact about whole runs.
No other file inducts over a list of steps.
-/

namespace Transceiver.System

variable {σ ε : Type}

/-- Each step of a run is allowed in the system in which it is made. -/
def Admissible (d : Driver σ ε) (allowed : System σ → Step σ → Prop) :
    System σ → List (Step σ) → Prop
  | _, [] => True
  | s, step :: steps => allowed s step ∧ Admissible d allowed (s.step d step).1 steps

theorem run_cons (s : System σ) (d : Driver σ ε) (step : Step σ) (steps : List (Step σ)) :
    s.run d (step :: steps) = ((s.step d step).1).run d steps := rfl

theorem run_append (s : System σ) (d : Driver σ ε) (front back : List (Step σ)) :
    s.run d (front ++ back) = (s.run d front).run d back := by
  simp [run, List.foldl_append]

/-! ### Steps without their answers -/

/-- The system whose scheduler has lost the entry of the controller. -/
def unschedule (s : System σ) : System σ :=
  { s with deferral := { s.deferral with agenda := { s.deferral.agenda with radio := none } } }

@[simp] theorem step_perform (s : System σ) (d : Driver σ ε) (mode : Mode) :
    (s.step d (.perform mode)).1 = (s.perform d mode).1 := by
  simp only [step]
  split <;> simp_all

theorem step_perform_snd (s : System σ) (d : Driver σ ε) (mode : Mode) :
    (s.step d (.perform mode)).2 =
      match (s.perform d mode).2 with
      | .ok () => .done
      | .error e => .refused e := by
  simp only [step]
  split <;> simp_all

theorem step_capture_of_pending {s : System σ} {waiting : UInt8}
    (h : s.control.pending = some waiting) (d : Driver σ ε) (lines : UInt8)
    (time : Option Ticks) : (s.step d (.capture lines time)).1 = s := by
  simp [step, capture, h]

theorem step_capture_of_none {s : System σ} (h : s.control.pending = none) (d : Driver σ ε)
    (lines : UInt8) (time : Option Ticks) :
    (s.step d (.capture lines time)).1 =
      { s with
        control := { s.control with
          capturedAt := time.getD s.clock.now
          pending := some lines }
        deferral := s.deferral.write (some .interrupt)
        trace := s.trace ++ [.agenda (.post .interrupt)] } := by
  simp [step, capture, h, defer, Deferral.request]

theorem capture_done_iff {s : System σ} {d : Driver σ ε} {lines : UInt8} {time : Option Ticks} :
    (s.step d (.capture lines time)).2 = .done ↔ s.control.pending = none := by
  cases h : s.control.pending <;> simp [step, capture, h]

theorem capture_overrun_iff {s : System σ} {d : Driver σ ε} {lines : UInt8}
    {time : Option Ticks} {o : Overrun} :
    (s.step d (.capture lines time)).2 = .overrun o ↔
      ∃ waiting, s.control.pending = some waiting ∧ o = ⟨lines, waiting⟩ := by
  cases h : s.control.pending <;> simp [step, capture, h, eq_comm]

theorem dequeue?_eq_some_iff {s t : System σ} {entry : Entry} :
    s.dequeue? = some (entry, t) ↔
      s.scheduled = some entry ∧ entry.due s.clock.now = true ∧ t = s.unschedule := by
  simp only [dequeue?, Agenda.due?, Option.map_eq_some_iff, Option.filter_eq_some_iff,
    Prod.mk.injEq]
  constructor
  · rintro ⟨_, ⟨hs, hdue⟩, rfl, rfl⟩
    exact ⟨hs, hdue, rfl⟩
  · rintro ⟨hs, hdue, rfl⟩
    exact ⟨entry, ⟨hs, hdue⟩, rfl, rfl⟩

theorem dequeue?_eq_unschedule {s t : System σ} {entry : Entry}
    (h : s.dequeue? = some (entry, t)) : t = s.unschedule :=
  (dequeue?_eq_some_iff.mp h).2.2

theorem step_dequeue (s : System σ) (d : Driver σ ε) :
    (s.step d .dequeue).1 = s ∨ (s.step d .dequeue).1 = s.unschedule := by
  simp only [step]
  cases h : s.dequeue? with
  | none => exact .inl rfl
  | some found => exact .inr (dequeue?_eq_unschedule h)

/-! ### Drains -/

theorem drain_of_none {s : System σ} {d : Driver σ ε} (h : s.serve? d = none) :
    s.drain d = ([], s) := by
  rw [drain]
  split
  · rfl
  · simp_all

theorem drain_of_some {s t : System σ} {d : Driver σ ε} {job : RadioJob}
    (h : s.serve? d = some (job, t)) : s.drain d = (job :: (t.drain d).1, (t.drain d).2) := by
  rw [drain]
  split <;> simp_all

theorem serve?_eq_some_iff {s t : System σ} {d : Driver σ ε} {job : RadioJob} :
    s.serve? d = some (job, t) ↔ ∃ entry, s.scheduled = some entry ∧
      entry.due s.clock.now = true ∧ entry.job = job ∧ s.unschedule.enter d entry = t := by
  simp only [serve?, Option.map_eq_some_iff, Prod.exists, dequeue?_eq_some_iff, Prod.mk.injEq]
  constructor
  · rintro ⟨entry, _, ⟨hs, hdue, rfl⟩, hjob, ht⟩
    exact ⟨entry, hs, hdue, hjob, ht⟩
  · rintro ⟨entry, hs, hdue, hjob, ht⟩
    exact ⟨entry, _, ⟨hs, hdue, rfl⟩, hjob, ht⟩

/-- A preorder that relates the ends of taking a job out and of entering one relates the ends of a
drain. -/
theorem drain_related {R : System σ → System σ → Prop} {d : Driver σ ε} (hrefl : ∀ s, R s s)
    (htrans : ∀ {s t u}, R s t → R t u → R s u) (hunschedule : ∀ s, R s s.unschedule)
    (henter : ∀ s entry, R s (s.enter d entry)) (s : System σ) : R s (s.drain d).2 := by
  induction s using drain.induct d with
  | case1 s h =>
      rw [drain_of_none h]
      exact hrefl s
  | case2 s job t h _ ih =>
      rw [drain_of_some h]
      obtain ⟨entry, -, -, -, rfl⟩ := serve?_eq_some_iff.mp h
      exact htrans (hunschedule s) (htrans (henter _ entry) ih)

theorem drain_invariant {I : System σ → Prop} {d : Driver σ ε}
    (hunschedule : ∀ s, I s → I s.unschedule) (henter : ∀ s entry, I s → I (s.enter d entry))
    {s : System σ} (hs : I s) : I (s.drain d).2 :=
  drain_related (R := fun s t => I s → I t) (fun _ => id) (fun hst htu hs => htu (hst hs))
    hunschedule henter s hs

/-! ### Induction over a run -/

variable {d : Driver σ ε} {allowed : System σ → Step σ → Prop}

theorem Admissible.append {s : System σ} {front back : List (Step σ)}
    (h : Admissible d allowed s (front ++ back)) :
    Admissible d allowed s front ∧ Admissible d allowed (s.run d front) back := by
  induction front generalizing s with
  | nil => exact ⟨trivial, h⟩
  | cons step steps ih =>
      obtain ⟨hfront, hback⟩ := ih h.2
      exact ⟨⟨h.1, hfront⟩, hback⟩

theorem Admissible.and {other : System σ → Step σ → Prop} {s : System σ} {steps : List (Step σ)}
    (h : Admissible d allowed s steps) (h' : Admissible d other s steps) :
    Admissible d (fun s step => allowed s step ∧ other s step) s steps := by
  induction steps generalizing s with
  | nil => trivial
  | cons step steps ih => exact ⟨⟨h.1, h'.1⟩, ih h.2 h'.2⟩

theorem admissible_of_forall_mem {s : System σ} {steps : List (Step σ)}
    (h : ∀ step ∈ steps, ∀ s, allowed s step) : Admissible d allowed s steps := by
  induction steps generalizing s with
  | nil => trivial
  | cons step steps ih =>
      exact ⟨h step (.head _) s, ih fun later hlater => h later (.tail _ hlater)⟩

theorem admissible_true (d : Driver σ ε) (s : System σ) (steps : List (Step σ)) :
    Admissible d (fun _ _ => True) s steps := by
  induction steps generalizing s with
  | nil => trivial
  | cons step steps ih => exact ⟨trivial, ih _⟩

/-- What every allowed step keeps, a run keeps. -/
theorem run_invariant {I : System σ → Prop}
    (hstep : ∀ s step, I s → allowed s step → I (s.step d step).1) {s : System σ}
    {steps : List (Step σ)} (h : Admissible d allowed s steps) (hs : I s) : I (s.run d steps) := by
  induction steps generalizing s with
  | nil => exact hs
  | cons step steps ih => exact ih h.2 (hstep s step hs h.1)

/-- A preorder that relates the ends of every allowed step relates the ends of a run. -/
theorem run_related {R : System σ → System σ → Prop} (hrefl : ∀ s, R s s)
    (htrans : ∀ {s t u}, R s t → R t u → R s u)
    (hstep : ∀ s step, allowed s step → R s (s.step d step).1) {s : System σ}
    {steps : List (Step σ)} (h : Admissible d allowed s steps) : R s (s.run d steps) := by
  induction steps generalizing s with
  | nil => exact hrefl s
  | cons step steps ih => exact htrans (hstep s step h.1) (ih h.2)

/-- What holds lasts up to a step that may end it, or to the end of the run. -/
theorem run_until {P : System σ → Prop} {Q : System σ → Step σ → Prop}
    (hstep : ∀ s step, P s → allowed s step → Q s step ∨ P (s.step d step).1) {s : System σ}
    {steps : List (Step σ)} (h : Admissible d allowed s steps) (hs : P s) :
    P (s.run d steps) ∨ ∃ before step after, steps = before ++ step :: after ∧
      P (s.run d before) ∧ Q (s.run d before) step := by
  induction steps generalizing s with
  | nil => exact .inl hs
  | cons step steps ih =>
      rcases hstep s step hs h.1 with hends | hlasts
      · exact .inr ⟨[], step, steps, rfl, hs, hends⟩
      · rcases ih h.2 hlasts with hend | ⟨before, last, after, rfl, hbefore, hlast⟩
        · exact .inl hend
        · exact .inr ⟨step :: before, last, after, rfl, hbefore, hlast⟩

/-- If a step decides whether something holds after it, by bringing it about or by not undoing it,
then it holds at the end of a run if and only if nothing has undone it since it came about. -/
theorem run_since_iff {P : System σ → Prop} {sets undoes : System σ → Step σ → Prop}
    (hstep : ∀ s step, allowed s step →
      (P (s.step d step).1 ↔ sets s step ∨ P s ∧ ¬ undoes s step))
    {s : System σ} {steps : List (Step σ)} (h : Admissible d allowed s steps) :
    P (s.run d steps) ↔
      P s ∧ Admissible d (fun s step => ¬ undoes s step) s steps ∨
      ∃ before step after, steps = before ++ step :: after ∧ sets (s.run d before) step ∧
        Admissible d (fun s step => ¬ undoes s step) ((s.run d before).step d step).1 after := by
  induction steps generalizing s with
  | nil => simp [run, Admissible]
  | cons first steps ih =>
      rw [run_cons, ih h.2, hstep s first h.1]
      constructor
      · rintro (⟨hsets | ⟨hs, hkept⟩, hrest⟩ | ⟨before, step, after, rfl, hsets, hrest⟩)
        · exact .inr ⟨[], first, steps, rfl, hsets, hrest⟩
        · exact .inl ⟨hs, hkept, hrest⟩
        · exact .inr ⟨first :: before, step, after, rfl, hsets, hrest⟩
      · rintro (⟨hs, hkept, hrest⟩ | ⟨before, step, after, heq, hsets, hrest⟩)
        · exact .inl ⟨.inr ⟨hs, hkept⟩, hrest⟩
        · cases before with
          | nil =>
              obtain ⟨rfl, rfl⟩ := List.cons.inj heq
              exact .inl ⟨.inl hsets, hrest⟩
          | cons step' before =>
              obtain ⟨rfl, rfl⟩ := List.cons.inj heq
              exact .inr ⟨before, step, after, rfl, hsets, hrest⟩

/-! ### What a run yields -/

/-- What the steps of a run yield, each in the system in which it is made. -/
def yielded {α : Type} (d : Driver σ ε) (yield : System σ → Step σ → List α) :
    System σ → List (Step σ) → List α
  | _, [] => []
  | s, step :: steps => yield s step ++ yielded d yield (s.step d step).1 steps

/-- Relations that carry a list and compose along it reach from a step to a run. -/
theorem run_yielded {α : Type} {yield : System σ → Step σ → List α}
    {R : System σ → List α → System σ → Prop} (hrefl : ∀ s, R s [] s)
    (htrans : ∀ {s t u xs ys}, R s xs t → R t ys u → R s (xs ++ ys) u)
    (hstep : ∀ s step, R s (yield s step) (s.step d step).1) (s : System σ)
    (steps : List (Step σ)) : R s (yielded d yield s steps) (s.run d steps) := by
  induction steps generalizing s with
  | nil => exact hrefl s
  | cons step steps ih => exact htrans (hstep s step) (ih _)

theorem yielded_append {α : Type} (yield : System σ → Step σ → List α) (s : System σ)
    (front back : List (Step σ)) :
    yielded d yield s (front ++ back) =
      yielded d yield s front ++ yielded d yield (s.run d front) back := by
  induction front generalizing s with
  | nil => rfl
  | cons step steps ih =>
      rw [List.cons_append, yielded, yielded, ih, List.append_assoc, run_cons]

/-- If each step leaves somewhere what it yields last, or what was there, then so does a run. -/
theorem run_last {α : Type} (part : System σ → α) {yield : System σ → Step σ → List α}
    (hstep : ∀ s step, part (s.step d step).1 = (yield s step).getLast?.getD (part s))
    (s : System σ) (steps : List (Step σ)) :
    part (s.run d steps) = (yielded d yield s steps).getLast?.getD (part s) := by
  refine run_yielded (R := fun s xs t => part t = xs.getLast?.getD (part s)) (fun _ => rfl)
    (fun {s t u xs ys} hst htu => ?_) hstep s steps
  rw [htu, hst, List.getLast?_append]
  cases ys.getLast? <;> rfl

/-- A radio on the bench: a chip that never fails and answers interrupts as scripted. -/
def bench (responses : List Response) : System Script where
  chip := { responses }
  board := .powered
  exchange :=
    { operation := { channel := ⟨868100000, .regular .sf7 .khz125 .fourFifths⟩ }
      frame := { capacity := 256 } }

end Transceiver.System
