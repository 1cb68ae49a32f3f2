import Mathlib.Data.Nat.ModEq
import Transceiver.Proofs.Ticks

/-!
Laws of the conversions to ticks.

Milliseconds and microseconds become ticks by one rule, `Converts`, in which only the number of them
that make a second differs. The rule rounds down and then keeps the low word.

To round down is to lose less than a tick, so the parts of a duration have one tick less than the
whole at most. Keeping the low word does not interfere, since what it drops is a multiple of the
circle on which the ticks are added. Order is another matter: it needs that nothing is dropped, and
this is so for all durations only if the clock does not tick faster than the durations are counted.
-/

namespace Transceiver.Ticks

/-- Durations of which `unit` make a second are converted to the exact quotient, of which the low
word is kept. -/
def Converts (rate : UInt32) (unit : Nat) (f : UInt32 → Ticks) : Prop :=
  ∀ d, (f d).toNat = d.toNat * rate.toNat / unit % 2 ^ 32

theorem add_div_eq_or {unit : Nat} (hunit : 0 < unit) (m n : Nat) :
    (m + n) / unit = m / unit + n / unit ∨ (m + n) / unit = m / unit + n / unit + 1 := by
  rw [Nat.add_div hunit]
  split
  · exact .inr rfl
  · exact .inl rfl

namespace Converts

variable {rate : UInt32} {unit : Nat} {f : UInt32 → Ticks}

theorem exact_of_lt (h : Converts rate unit f) {d : UInt32}
    (hd : d.toNat * rate.toNat / unit < 2 ^ 32) :
    (f d).toNat = d.toNat * rate.toNat / unit :=
  (h d).trans (Nat.mod_eq_of_lt hd)

/-- If the ticks of the longer duration fit into a word, so do those of the shorter one. -/
theorem le_of_lt (h : Converts rate unit f) {a b : UInt32} (hab : a ≤ b)
    (hb : b.toNat * rate.toNat / unit < 2 ^ 32) : f a ≤ f b := by
  have hquotient : a.toNat * rate.toNat / unit ≤ b.toNat * rate.toNat / unit :=
    Nat.div_le_div_right (Nat.mul_le_mul_right _ (UInt32.le_iff_toNat_le.mp hab))
  rw [UInt32.le_iff_toNat_le, h.exact_of_lt hb,
    h.exact_of_lt (Nat.lt_of_le_of_lt hquotient hb)]
  exact hquotient

theorem add_eq_or (h : Converts rate unit f) (hunit : 0 < unit) {a b : UInt32}
    (hsum : a.toNat + b.toNat < 2 ^ 32) :
    f (a + b) = f a + f b ∨ f (a + b) = f a + f b + 1 := by
  have hwhole := h (a + b)
  rw [UInt32.toNat_add, Nat.mod_eq_of_lt hsum, Nat.add_mul] at hwhole
  have hfirst := h a
  have hsecond := h b
  rcases add_div_eq_or hunit (a.toNat * rate.toNat) (b.toNat * rate.toNat) with hsplit | hsplit
  · refine .inl (UInt32.toNat_inj.mp ?_)
    rw [UInt32.toNat_add]
    omega
  · refine .inr (UInt32.toNat_inj.mp ?_)
    rw [UInt32.toNat_add, UInt32.toNat_add, UInt32.toNat_one]
    omega

/-- If anything is dropped for some duration, it is for the longest. -/
theorem forall_exact_iff (h : Converts rate unit f) (hunit : 0 < unit) (hword : unit < 2 ^ 32) :
    (∀ d, (f d).toNat = d.toNat * rate.toNat / unit) ↔ rate.toNat ≤ unit := by
  constructor
  · intro hexact
    by_contra hfast
    have hlongest : (4294967295 : UInt32).toNat = 2 ^ 32 - 1 := rfl
    have hdropped : 2 ^ 32 ≤ (2 ^ 32 - 1) * rate.toNat / unit := by
      rw [Nat.le_div_iff_mul_le hunit]
      calc
        2 ^ 32 * unit ≤ (2 ^ 32 - 1) * (unit + 1) := by omega
        _ ≤ (2 ^ 32 - 1) * rate.toNat := Nat.mul_le_mul_left _ (by omega)
    have hkept := (f 4294967295).toNat_lt
    rw [hexact, hlongest] at hkept
    omega
  · intro hslow d
    refine h.exact_of_lt ?_
    calc
      d.toNat * rate.toNat / unit ≤ d.toNat * unit / unit :=
        Nat.div_le_div_right (Nat.mul_le_mul_left _ hslow)
      _ = d.toNat := Nat.mul_div_cancel _ hunit
      _ < 2 ^ 32 := d.toNat_lt

end Converts

/-- What a conversion guarantees, past the range of a word as well. -/
structure Lawful (rate : UInt32) (unit : Nat) (f : UInt32 → Ticks) : Prop where
  converts : Converts rate unit f
  /-- No tick is gained by splitting a duration, and at most one is lost. -/
  split (a b : UInt32) : a.toNat + b.toNat < 2 ^ 32 →
    f (a + b) - f a - f b = 0 ∨ f (a + b) - f a - f b = 1
  exact_iff : (∀ d, (f d).toNat = d.toNat * rate.toNat / unit) ↔ rate.toNat ≤ unit
  monotone (a b : UInt32) : a ≤ b → b.toNat * rate.toNat / unit < 2 ^ 32 → f a ≤ f b

theorem Converts.lawful {rate : UInt32} {unit : Nat} {f : UInt32 → Ticks}
    (h : Converts rate unit f) (hunit : 0 < unit) (hword : unit < 2 ^ 32) :
    Lawful rate unit f where
  converts := h
  split a b hsum := by
    rcases h.add_eq_or hunit hsum with hsplit | hsplit
    · rw [hsplit]
      exact .inl (by grind)
    · rw [hsplit]
      exact .inr (by grind)
  exact_iff := h.forall_exact_iff hunit hword
  monotone _ _ hab hb := h.le_of_lt hab hb

theorem ofMicros_thousand_mul (rate : UInt32) {ms : UInt32} (h : 1000 * ms.toNat < 2 ^ 32) :
    ofMicros rate (1000 * ms) = ofMillis rate ms := by
  have hmicros : (1000 * ms).toNat = 1000 * ms.toNat := by
    rw [UInt32.toNat_mul]
    exact Nat.mod_eq_of_lt h
  have hquotient : 1000 * ms.toNat * rate.toNat / 1000000 = ms.toNat * rate.toNat / 1000 := by
    rw [Nat.mul_assoc]
    exact Nat.mul_div_mul_left (ms.toNat * rate.toNat) 1000 (by decide)
  refine UInt32.toNat_inj.mp ?_
  rw [toNat_ofMicros, toNat_ofMillis, hmicros, hquotient]

/-- At every rate, no product of a conversion overflows, both conversions are lawful, and they agree
on a duration that both can be given. -/
theorem conversions_lawful (rate : UInt32) :
    (∀ d : UInt32, (d.toUInt64 * rate.toUInt64).toNat = d.toNat * rate.toNat) ∧
      Lawful rate 1000 (ofMillis rate) ∧ Lawful rate 1000000 (ofMicros rate) ∧
      ∀ ms : UInt32, 1000 * ms.toNat < 2 ^ 32 → ofMillis rate ms = ofMicros rate (1000 * ms) := by
  have hmillis : Converts rate 1000 (ofMillis rate) := toNat_ofMillis rate
  have hmicros : Converts rate 1000000 (ofMicros rate) := toNat_ofMicros rate
  exact ⟨fun d => toNat_product d rate.toNat_lt, hmillis.lawful (by decide) (by decide),
    hmicros.lawful (by decide) (by decide), fun ms h => (ofMicros_thousand_mul rate h).symm⟩

/-- The fastest clock that can be stated. Its ticks in 4294967 milliseconds are far beyond a word,
as are those in all but the shortest durations. -/
theorem fastest_clock_converted :
    let rate : UInt32 := 4294967295
    ofMillis rate 4294967 = ofMicros rate (1000 * 4294967) ∧
      (ofMicros rate (4294967294 + 1) - ofMicros rate 4294967294 - ofMicros rate 1 = 0 ∨
        ofMicros rate (4294967294 + 1) - ofMicros rate 4294967294 - ofMicros rate 1 = 1) ∧
      (∃ d, (ofMicros rate d).toNat ≠ d.toNat * rate.toNat / 1000000) ∧
      ofMillis rate 999 ≤ ofMillis rate 1000 := by
  intro rate
  obtain ⟨-, hmillis, hmicros, hagree⟩ := conversions_lawful rate
  have hfast : ¬ rate.toNat ≤ 1000000 := by decide
  exact ⟨hagree 4294967 (by decide), hmicros.split 4294967294 1 (by decide),
    not_forall.mp (mt hmicros.exact_iff.mp hfast),
    hmillis.monotone 999 1000 (by decide) (by decide)⟩

end Transceiver.Ticks
