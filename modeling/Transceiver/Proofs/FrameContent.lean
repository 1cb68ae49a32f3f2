import Transceiver.Proofs.FrameLength

/-!
What the frame buffer holds after any history.

The buffer is loaded, opened, written to and cut, by the MAC layer, by drivers and by the
controller when it recovers, in any order. Two questions decide what is in it. How long is it? As
long as the last update made it that gave it a length. What stands at an index? What was put there
last, if the buffer has reached beyond the index ever since; and zero if it was cut off before it,
because growth makes zeros.

So each index has a history of its own, in which the last entry counts. A cut is an entry like any
other, and a byte that it took away is not found again by any later growth.
-/

namespace Transceiver

/-! ### Indices -/

theorem getD_resized (n : Nat) (bytes : List UInt8) (i : Nat) :
    (resized n bytes).getD i 0 = if i < n then bytes.getD i 0 else 0 := by
  simp only [resized, List.getD_eq_getElem?_getD, List.getElem?_append, List.getElem?_take,
    List.getElem?_replicate, List.length_take]
  by_cases hn : i < n
  · by_cases hi : i < bytes.length
    · have hfront : i < min n bytes.length := by omega
      simp [hn, hfront]
    · have hback : ¬ i < min n bytes.length := by omega
      have hgrown : i - min n bytes.length < n - bytes.length := by omega
      simp [hn, hback, hgrown, List.getElem?_eq_none (Nat.le_of_not_lt hi)]
  · have hback : ¬ i < min n bytes.length := by omega
    have hbeyond : ¬ i - min n bytes.length < n - bytes.length := by omega
    simp [hn, hback, hbeyond]

/-- Nothing is dropped of what stays within the end. -/
theorem overwritten_of_le {start : Nat} {data bytes : List UInt8}
    (h : start + data.length ≤ bytes.length) :
    overwritten start data bytes =
      bytes.take start ++ data ++ bytes.drop (start + data.length) := by
  rw [overwritten, List.take_of_length_le (l := data) (by omega)]

theorem getD_overwritten (start : Nat) (data bytes : List UInt8) (i : Nat) :
    (overwritten start data bytes).getD i 0 =
      if start ≤ i ∧ i < bytes.length then data[i - start]?.getD (bytes.getD i 0)
      else bytes.getD i 0 := by
  have hcovered : min start bytes.length + min (bytes.length - start) data.length =
      min (start + data.length) bytes.length := by omega
  simp only [overwritten, List.getD_eq_getElem?_getD, List.getElem?_append, List.getElem?_take,
    List.getElem?_drop, List.length_append, List.length_take, hcovered]
  -- The index is in front of what is written, under it, behind it, or beyond the end.
  by_cases hend : i < bytes.length
  · by_cases hstart : i < start
    · have hfront : i < min start bytes.length := by omega
      have hwithin : i < min (start + data.length) bytes.length := by omega
      simp [hstart, hfront, hwithin, Nat.not_le_of_lt hstart]
    · have hfront : ¬ i < min start bytes.length := by omega
      have hindex : i - min start bytes.length = i - start := by omega
      by_cases hdata : i - start < data.length
      · have hwithin : i < min (start + data.length) bytes.length := by omega
        have hroom : i - start < bytes.length - start := by omega
        simp [hfront, hwithin, hindex, hroom, hdata, hend, Nat.le_of_not_lt hstart]
      · have hwithin : ¬ i < min (start + data.length) bytes.length := by omega
        have hbehind : start + data.length + (i - min (start + data.length) bytes.length) = i := by
          omega
        simp [hwithin, hbehind, List.getElem?_eq_none (Nat.le_of_not_lt hdata)]
  · have hwithin : ¬ i < min (start + data.length) bytes.length := by omega
    have hbehind : bytes.length ≤
        start + data.length + (i - min (start + data.length) bytes.length) := by omega
    simp [hwithin, hend, List.getElem?_eq_none hbehind]

/-- The byte at an index, zero beyond the end. -/
def FrameBuffer.byteAt (f : FrameBuffer) (i : Nat) : UInt8 := f.bytes.getD i 0

namespace FrameBuffer

theorem byteAt_of_size_le {f : FrameBuffer} {i : Nat} (h : f.size ≤ i) : f.byteAt i = 0 := by
  rw [byteAt, List.getD_eq_getElem?_getD, List.getElem?_eq_none h, Option.getD_none]

theorem bytes_eq_map_byteAt (f : FrameBuffer) : f.bytes = (List.range f.size).map f.byteAt := by
  refine List.ext_getElem (by simp [size]) fun i hi _ => ?_
  simp [byteAt, hi]

theorem byteAt_write (f : FrameBuffer) (start : Nat) (data : List UInt8) (i : Nat) :
    (f.write start data).byteAt i =
      if i < f.capacity then
        if start ≤ i then data[i - start]?.getD (f.byteAt i) else f.byteAt i
      else 0 := by
  have hsize : f.opened.bytes.length = f.capacity := f.size_opened
  have hopened : f.opened.bytes.getD i 0 = if i < f.capacity then f.byteAt i else 0 :=
    getD_resized f.capacity f.bytes i
  rw [byteAt, write, getD_overwritten, hsize, hopened]
  by_cases hend : i < f.capacity
  · simp only [hend, and_true, if_true]
  · simp only [hend, and_false, if_false]

theorem byteAt_setLength (f : FrameBuffer) (n : UInt8) (i : Nat) :
    (f.setLength n).byteAt i = if i < min n.toNat f.capacity then f.byteAt i else 0 :=
  getD_resized _ f.bytes i

/-! ### The vector below -/

/-- Gives the content a length, if the capacity allows. -/
def resize? (f : FrameBuffer) (n : Nat) : Option FrameBuffer :=
  if n ≤ f.capacity then some { f with bytes := resized n f.bytes } else none

theorem resize?_capacity (f : FrameBuffer) : f.resize? f.capacity = some f.opened :=
  if_pos (Nat.le_refl _)

theorem resize?_min (f : FrameBuffer) (n : UInt8) :
    f.resize? (min n.toNat f.capacity) = some (f.setLength n) :=
  if_pos (Nat.min_le_right _ _)

theorem bytes_opened {f : FrameBuffer} (h : f.size ≤ f.capacity) :
    f.opened.bytes = f.bytes ++ List.replicate (f.capacity - f.size) 0 := by
  rw [opened, resized, List.take_of_length_le h]
  rfl

/-- A write that stays within the capacity replaces just what it covers. -/
theorem bytes_write {f : FrameBuffer} {start : Nat} {data : List UInt8}
    (h : start + data.length ≤ f.capacity) :
    (f.write start data).bytes =
      f.opened.bytes.take start ++ data ++ f.opened.bytes.drop (start + data.length) := by
  have hsize : f.opened.bytes.length = f.capacity := f.size_opened
  exact overwritten_of_le (by omega)

/-- A frame written at the front and cut to its length is the content. -/
theorem bytes_setLength_write {f : FrameBuffer} {data : List UInt8}
    (h : data.length ≤ min f.capacity 255) :
    ((f.write 0 data).setLength (UInt8.ofNat data.length)).bytes = data := by
  have hbyte : data.length < 256 := by omega
  have hlength : (UInt8.ofNat data.length).toNat = data.length := UInt8.toNat_ofNat_of_lt' hbyte
  have hcut : min data.length f.capacity = data.length := by omega
  have hlonger : data.length ≤ (f.write 0 data).bytes.length := by
    have hsize : (f.write 0 data).bytes.length = f.capacity := f.size_write 0 data
    omega
  show resized (min (UInt8.ofNat data.length).toNat f.capacity) (f.write 0 data).bytes = data
  rw [hlength, hcut, resized, Nat.sub_eq_zero_of_le hlonger, bytes_write (by omega)]
  simp

end FrameBuffer

namespace Exchange

/-- An exchange as it is set up, with nothing in the buffer. -/
def blank (capacity : Nat) (operation : Operation) (completion : CompletionId) : Exchange :=
  { operation, frame := { capacity }, completion }

def updates (x : Exchange) (us : List Update) : Exchange := us.foldl update x

/-! ### What an update says -/

namespace Update

/-- Length that an update gives the frame. -/
def length? (capacity : Nat) : Update → Option Nat
  | load data => if data.length ≤ min capacity 255 then some data.length else none
  | edit e => some (e.length capacity)
  | register _ | amend _ => none

/-- Byte that an update puts at an index. -/
def puts? (capacity i : Nat) : Update → Option UInt8
  | load data => if data.length ≤ min capacity 255 then data[i]? else none
  | edit (.write start data) => if start ≤ i ∧ i < capacity then data[i - start]? else none
  | edit (.setLength _) | register _ | amend _ => none

/-- Byte that an update leaves behind at an index: what it puts there, or zero when it makes the
frame end before it. -/
def leaves? (capacity i : Nat) : Update → Option UInt8
  | load data => if data.length ≤ min capacity 255 then some (data.getD i 0) else none
  | edit (.write start data) =>
      if capacity ≤ i then some 0 else if start ≤ i then data[i - start]? else none
  | edit (.setLength n) => if min n.toNat capacity ≤ i then some 0 else none
  | register _ | amend _ => none

theorem length?_le {capacity n : Nat} {u : Update} (h : u.length? capacity = some n) :
    n ≤ capacity := by
  cases u with
  | load data =>
      simp only [length?, Option.ite_none_right_eq_some, Option.some.injEq] at h
      omega
  | edit e =>
      obtain rfl : e.length capacity = n := by simpa [length?] using h
      cases e with
      | write start data => exact Nat.le_refl capacity
      | setLength n => exact Nat.min_le_right _ _
  | register completion => cases h
  | amend p => cases h

/-- Where nothing is put the byte stays as it is or is blanked. -/
theorem leaves?_of_puts?_eq_none {capacity i : Nat} {u : Update}
    (h : u.puts? capacity i = none) :
    u.leaves? capacity i = none ∨ u.leaves? capacity i = some 0 := by
  cases u with
  | load data =>
      by_cases hfits : data.length ≤ min capacity 255
      · rw [puts?, if_pos hfits] at h
        rw [leaves?, if_pos hfits, List.getD_eq_getElem?_getD, h]
        exact .inr rfl
      · exact .inl (if_neg hfits)
  | edit e =>
      cases e with
      | write start data =>
          by_cases hend : capacity ≤ i
          · exact .inr (if_pos hend)
          · rw [leaves?, if_neg hend]
            rw [puts?] at h
            split <;> simp_all
      | setLength n =>
          rw [leaves?]
          split
          · exact .inr rfl
          · exact .inl rfl
  | register completion => exact .inl rfl
  | amend p => exact .inl rfl

end Update

/-! ### One update -/

@[simp] theorem capacity_update (x : Exchange) (u : Update) :
    (x.update u).frame.capacity = x.frame.capacity := by
  cases u with
  | load data =>
      by_cases h : data.length ≤ min x.frame.capacity 255
      · rw [update, load_of_le h]
      · rw [update, load_of_not_le h]
  | edit e => exact x.frame.capacity_edit e
  | register completion => rfl
  | amend p => rfl

theorem size_update (x : Exchange) (u : Update) :
    (x.update u).frame.size = (u.length? x.frame.capacity).getD x.frame.size := by
  cases u with
  | load data =>
      by_cases h : data.length ≤ min x.frame.capacity 255
      · rw [update, load_of_le h, Update.length?, if_pos h]
        rfl
      · rw [update, load_of_not_le h, Update.length?, if_neg h]
        rfl
  | edit e => exact x.frame.size_edit e
  | register completion => rfl
  | amend p => rfl

theorem byteAt_update (i : Nat) (x : Exchange) (u : Update) :
    (x.update u).frame.byteAt i = (u.leaves? x.frame.capacity i).getD (x.frame.byteAt i) := by
  cases u with
  | load data =>
      by_cases h : data.length ≤ min x.frame.capacity 255
      · rw [update, load_of_le h, Update.leaves?, if_pos h]
        rfl
      · rw [update, load_of_not_le h, Update.leaves?, if_neg h]
        rfl
  | edit e =>
      cases e with
      | write start data =>
          show (x.frame.write start data).byteAt i = _
          rw [FrameBuffer.byteAt_write, Update.leaves?]
          by_cases hend : i < x.frame.capacity
          · rw [if_pos hend, if_neg (Nat.not_le_of_lt hend)]
            split <;> rfl
          · rw [if_neg hend, if_pos (Nat.le_of_not_lt hend)]
            rfl
      | setLength n =>
          show (x.frame.setLength n).byteAt i = _
          rw [FrameBuffer.byteAt_setLength, Update.leaves?]
          by_cases hi : i < min n.toNat x.frame.capacity
          · rw [if_pos hi, if_neg (Nat.not_le_of_lt hi)]
            rfl
          · rw [if_neg hi, if_pos (Nat.le_of_not_lt hi)]
            rfl
  | register completion => rfl
  | amend p => rfl

/-! ### Histories -/

/-- The last update that has something to say decides. -/
theorem updates_last {α : Type} (part : Exchange → α) {f : Nat → Update → Option α}
    (hstep : ∀ x u, part (x.update u) = (f x.frame.capacity u).getD (part x))
    (x : Exchange) (us : List Update) :
    part (x.updates us) = (us.filterMap (f x.frame.capacity)).getLast?.getD (part x) := by
  induction us generalizing x with
  | nil => rfl
  | cons u us ih =>
      show part ((x.update u).updates us) = _
      rw [ih, hstep, capacity_update, List.filterMap_cons]
      cases f x.frame.capacity u with
      | none => rfl
      | some a => simp [List.getLast?_cons]

theorem updates_append (x : Exchange) (front back : List Update) :
    x.updates (front ++ back) = (x.updates front).updates back := List.foldl_append

@[simp] theorem capacity_updates (x : Exchange) (us : List Update) :
    (x.updates us).frame.capacity = x.frame.capacity := by
  induction us generalizing x with
  | nil => rfl
  | cons u us ih => exact (ih (x.update u)).trans (x.capacity_update u)

theorem updates_map_edit (x : Exchange) (es : List FrameEdit) :
    x.updates (es.map .edit) = x.edits es := List.foldl_map

/-- Length of the content after some updates of a blank exchange. -/
def lengthAfter (capacity : Nat) (us : List Update) : Nat :=
  (us.filterMap (Update.length? capacity)).getLast?.getD 0

/-- Byte at an index after some updates of a blank exchange. -/
def byteAfter (capacity : Nat) (us : List Update) (i : Nat) : UInt8 :=
  (us.filterMap (Update.leaves? capacity i)).getLast?.getD 0

/-- Content after some updates of a blank exchange. -/
def contentAfter (capacity : Nat) (us : List Update) : List UInt8 :=
  (List.range (lengthAfter capacity us)).map (byteAfter capacity us)

section Blank

variable {capacity : Nat} {operation : Operation} {completion : CompletionId}

theorem size_updates_blank (us : List Update) :
    ((blank capacity operation completion).updates us).frame.size = lengthAfter capacity us :=
  updates_last (f := Update.length?) (·.frame.size) size_update _ us

theorem byteAt_updates_blank (us : List Update) (i : Nat) :
    ((blank capacity operation completion).updates us).frame.byteAt i =
      byteAfter capacity us i :=
  updates_last (f := fun capacity => Update.leaves? capacity i) (·.frame.byteAt i)
    (byteAt_update i) _ us

theorem bytes_updates_blank (us : List Update) :
    ((blank capacity operation completion).updates us).frame.bytes =
      contentAfter capacity us := by
  rw [FrameBuffer.bytes_eq_map_byteAt, size_updates_blank, contentAfter]
  exact List.map_congr_left fun i _ => byteAt_updates_blank us i

end Blank

theorem lengthAfter_le (capacity : Nat) (us : List Update) :
    lengthAfter capacity us ≤ capacity := by
  rw [lengthAfter]
  cases h : (us.filterMap (Update.length? capacity)).getLast? with
  | none => exact Nat.zero_le capacity
  | some n =>
      obtain ⟨u, -, hu⟩ := List.mem_filterMap.mp (List.mem_of_getLast? h)
      exact Update.length?_le hu

/-- A byte that is beyond the end stays zero until something is put in its place. -/
theorem byteAt_updates_of_size_le {x : Exchange} {us : List Update} {i : Nat}
    (h : x.frame.size ≤ i) (hnone : ∀ u ∈ us, u.puts? x.frame.capacity i = none) :
    (x.updates us).frame.byteAt i = 0 := by
  have hzero : x.frame.byteAt i = 0 := FrameBuffer.byteAt_of_size_le h
  clear h
  induction us generalizing x with
  | nil => exact hzero
  | cons u us ih =>
      refine ih (x := x.update u) (fun v hv => ?_) ?_
      · rw [capacity_update]
        exact hnone v (List.mem_cons_of_mem u hv)
      · rw [byteAt_update]
        rcases Update.leaves?_of_puts?_eq_none (hnone u List.mem_cons_self) with hu | hu
        · rw [hu]
          exact hzero
        · rw [hu]
          rfl

/-! ### Every operation, after any history -/

/-- What the operations on an exchange do. -/
structure Lawful (x : Exchange) (capacity : Nat) : Prop where
  within : x.frame.size ≤ capacity
  /-- A frame is refused for its length only. -/
  accepts_iff (data : List UInt8) :
    x.accepts (.load data) = true ↔ data.length ≤ min capacity 255
  loaded (data : List UInt8) : data.length ≤ min capacity 255 →
    x.frame.emptied.extend? data = some (x.update (.load data)).frame ∧
    (x.update (.load data)).frame.bytes = data ∧
    (x.update (.load data)).operation.length.toNat = data.length ∧
    (x.update (.load data)).operation =
      { x.operation with length := (x.update (.load data)).operation.length } ∧
    (x.update (.load data)).completion = x.completion
  refused (data : List UInt8) : ¬ data.length ≤ min capacity 255 → x.update (.load data) = x
  /-- Opening never fails, keeps what is there and adds zeros. -/
  opened : x.frame.resize? capacity = some x.frame.opened ∧ x.frame.opened.size = capacity ∧
    x.frame.opened.bytes = x.frame.bytes ++ List.replicate (capacity - x.frame.size) 0
  /-- A write replaces just what it covers, which may be all of the opened buffer. -/
  written (start : Nat) (data : List UInt8) : start + data.length ≤ capacity →
    (x.update (.edit (.write start data))).frame.bytes =
      x.frame.opened.bytes.take start ++ data ++ x.frame.opened.bytes.drop (start + data.length)
  /-- A cut never fails; beyond the end it adds zeros. -/
  cut (n : UInt8) :
    x.frame.resize? (min n.toNat capacity) = some (x.update (.edit (.setLength n))).frame ∧
    (x.update (.edit (.setLength n))).frame.size = min n.toNat capacity ∧
    (x.update (.edit (.setLength n))).frame.bytes =
      x.frame.bytes.take (min n.toNat capacity) ++
        List.replicate (min n.toNat capacity - x.frame.size) 0
  registered (completion : CompletionId) :
    x.update (.register completion) = { x with completion }
  /-- The descriptor can become any other, and nothing else changes with it. -/
  amended (p : Operation) : ∃ patch, x.update (.amend patch) = { x with operation := p }
  /-- A frame written at the front and cut to its length is the content. -/
  received (data : List UInt8) : data.length ≤ min capacity 255 →
    (x.updates [.edit (.write 0 data),
      .edit (.setLength (UInt8.ofNat data.length))]).frame.bytes = data

theorem lawful_of_size_le {x : Exchange} (h : x.frame.size ≤ x.frame.capacity) :
    x.Lawful x.frame.capacity where
  within := h
  accepts_iff _ := accepts_load_iff
  loaded data hfits := by
    have hroom : data.length ≤ x.frame.capacity := by omega
    have hlength := (lengths_of_accepts (accepts_load_iff.mpr hfits)).2
    rw [update, load_of_le hfits] at hlength ⊢
    rw [FrameBuffer.extend?_emptied hroom]
    exact ⟨rfl, rfl, hlength, rfl, rfl⟩
  refused data hfits := by
    rw [update, load_of_not_le hfits]
  opened := ⟨x.frame.resize?_capacity, x.frame.size_opened, FrameBuffer.bytes_opened h⟩
  written _ _ hroom := FrameBuffer.bytes_write hroom
  cut n := ⟨x.frame.resize?_min n, x.frame.size_setLength n, rfl⟩
  registered _ := rfl
  amended p :=
    ⟨{ frequency := some p.channel.frequency
       modulation := some p.channel.modulation
       power := some p.power
       length := some p.length
       receiveAt := some p.receiveAt
       uplinkCounter := some p.uplinkCounter
       rateAckRequested := some p.rateAckRequested }, rfl⟩
  received _ hfits := FrameBuffer.bytes_setLength_write hfits

theorem lawful_updates_blank {capacity : Nat} {operation : Operation} {completion : CompletionId}
    (us : List Update) : ((blank capacity operation completion).updates us).Lawful capacity := by
  have hcapacity : ((blank capacity operation completion).updates us).frame.capacity = capacity :=
    capacity_updates _ us
  have hsize : ((blank capacity operation completion).updates us).frame.size ≤ capacity :=
    size_updates_blank us ▸ lengthAfter_le capacity us
  have hlawful := lawful_of_size_le (Nat.le_trans hsize (Nat.le_of_eq hcapacity.symm))
  rwa [hcapacity] at hlawful

end Exchange

namespace System

variable {σ ε : Type}

/-- Updates of the exchange by a step, in turn. -/
def updates (d : Driver σ ε) (s : System σ) : Step σ → List Exchange.Update
  | .update u => [u]
  | step => (s.edits d step).map .edit

theorem exchange_step_eq_updates (s : System σ) (d : Driver σ ε) (step : Step σ) :
    (s.step d step).1.exchange = s.exchange.updates (s.updates d step) := by
  rw [exchange_step]
  cases step with
  | update u => rfl
  | _ => exact (s.exchange.updates_map_edit _).symm

theorem exchange_run (s : System σ) (d : Driver σ ε) (steps : List (Step σ)) :
    (s.run d steps).exchange = s.exchange.updates (yielded d (updates d) s steps) := by
  refine run_yielded (R := fun s us t => t.exchange = s.exchange.updates us) (fun _ => rfl)
    (fun {s t u us vs} hst htu => ?_) (fun s step => exchange_step_eq_updates s d step) s steps
  rw [htu, hst, Exchange.updates_append]

/-- What the buffer held before a recovery is not in it afterwards. -/
theorem byteAt_run_recover {s : System σ} {d : Driver σ ε} {steps : List (Step σ)} {i : Nat}
    (hnone : ∀ u ∈ yielded d (updates d) (s.recover d) steps,
      u.puts? s.exchange.frame.capacity i = none) :
    ((s.recover d).run d steps).exchange.frame.byteAt i = 0 := by
  have hrecover : (s.recover d).exchange = s.exchange.update (.edit (.setLength 0)) :=
    exchange_recover s d
  have hempty : (s.recover d).exchange.frame.size = 0 := by
    rw [hrecover, Exchange.size_update]
    exact Nat.zero_min _
  rw [exchange_run]
  refine Exchange.byteAt_updates_of_size_le (by omega) ?_
  rw [hrecover, Exchange.capacity_update]
  exact hnone

/-- However an exchange was used, its operations do what they say, its buffer holds what was put
there last as far as its length goes, and a byte that was cut off is zero until something else is
put in its place. Drivers and the controller use it by updates of the same kinds, and a recovery
cuts all of it off. -/
theorem content_after_any_history (d : Driver σ ε) (capacity : Nat) (operation : Operation)
    (completion : CompletionId) :
    let blank := Exchange.blank capacity operation completion
    (∀ us : List Exchange.Update, let x := blank.updates us
      x.Lawful capacity ∧ x.frame.capacity = capacity ∧
      x.frame.bytes = Exchange.contentAfter capacity us ∧
      ∀ front back i, us = front ++ back → (blank.updates front).frame.size ≤ i →
        (∀ u ∈ back, u.puts? capacity i = none) → x.frame.byteAt i = 0) ∧
    ∀ (s : System σ) (steps : List (Step σ)), s.exchange = blank →
      (s.run d steps).exchange = blank.updates (yielded d (updates d) s steps) ∧
      let t := (s.run d steps).recover d
      t.exchange = (s.run d steps).exchange.update (.edit (.setLength 0)) ∧
      ∀ later i, (∀ u ∈ yielded d (updates d) t later, u.puts? capacity i = none) →
        (t.run d later).exchange.frame.byteAt i = 0 := by
  intro blank
  refine ⟨fun us => ⟨Exchange.lawful_updates_blank us, blank.capacity_updates us,
    Exchange.bytes_updates_blank us, ?_⟩, fun s steps hs => ?_⟩
  · rintro front back i rfl hcut hnone
    rw [Exchange.updates_append]
    refine Exchange.byteAt_updates_of_size_le hcut ?_
    rw [Exchange.capacity_updates]
    exact hnone
  · have hrun : (s.run d steps).exchange = blank.updates (yielded d (updates d) s steps) := by
      rw [exchange_run, hs]
    have hcapacity : (s.run d steps).exchange.frame.capacity = capacity := by
      rw [hrun]
      exact blank.capacity_updates _
    refine ⟨hrun, exchange_recover (s.run d steps) d, fun later i hnone => ?_⟩
    exact byteAt_run_recover (hcapacity ▸ hnone)

/-- A frame of three bytes is lost to a cut, or to the recovery from its transmission, and one byte
is written where its second was. -/
theorem lost_frame_not_found_again :
    let d := Device.stated.driver
    let blank := Exchange.blank 4 { channel := ⟨868100000, .regular .sf7 .khz125 .fourFifths⟩ } 0
    let x := blank.updates [.load [1, 2, 3], .edit (.setLength 0), .edit (.write 1 [9])]
    let s : System Script := { bench [] with exchange := blank }
    let t := (s.run d [.update (.load [1, 2, 3]), .perform .transmit, .setClock 5000]).recover d
    x.frame.bytes = [0, 9, 0, 0] ∧ x.frame.byteAt 2 = 0 ∧
      x.update (.load [1, 2, 3, 4, 5]) = x ∧
      (x.updates [.edit (.write 0 [5, 6]), .edit (.setLength 2)]).frame.bytes = [5, 6] ∧
      (t.run d [.update (.edit (.write 1 [9]))]).exchange.frame.byteAt 2 = 0 := by
  intro d blank x s t
  obtain ⟨hupdates, hsystem⟩ := content_after_any_history d 4
    { channel := ⟨868100000, .regular .sf7 .khz125 .fourFifths⟩ } 0
  obtain ⟨hlawful, -, hbytes, hcut⟩ :=
    hupdates [.load [1, 2, 3], .edit (.setLength 0), .edit (.write 1 [9])]
  obtain ⟨-, -, hlost⟩ :=
    hsystem s [.update (.load [1, 2, 3]), .perform .transmit, .setClock 5000] rfl
  refine ⟨hbytes, ?_, hlawful.refused [1, 2, 3, 4, 5] (by decide),
    hlawful.received [5, 6] (by decide), ?_⟩
  · exact hcut [.load [1, 2, 3], .edit (.setLength 0)] [.edit (.write 1 [9])] 2 rfl (by decide)
      (by decide)
  · refine hlost [.update (.edit (.write 1 [9]))] 2 ?_
    simp [yielded, updates, Exchange.Update.puts?]

end System

end Transceiver
