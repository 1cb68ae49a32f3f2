import Mathlib.Algebra.Group.Nat.Defs
import Transceiver.Ticks

/-!
Conversions to ticks as arithmetic, and deadlines on the circle of moments.

The product of two words always fits into 64 bits. A conversion is therefore the exact product and
quotient, of which the low word is kept, and what may be lost is lost in that last step only.

Moments are compared by the sign of their difference, so a deadline means something only from
within half a circle of it. From there it is reached at the deadline and at no moment on the way,
wherever on the circle the way begins.
-/

namespace Transceiver

namespace Ticks

theorem toNat_product (a : UInt32) {b : UInt64} (hb : b.toNat < 2 ^ 32) :
    (a.toUInt64 * b).toNat = a.toNat * b.toNat := by
  rw [UInt64.toNat_mul, UInt32.toNat_toUInt64]
  refine Nat.mod_eq_of_lt ?_
  calc
    a.toNat * b.toNat < 2 ^ 32 * 2 ^ 32 := Nat.mul_lt_mul_of_lt_of_lt a.toNat_lt hb
    _ = 2 ^ 64 := by decide

theorem toNat_mul_div (a : UInt32) {b : UInt64} (hb : b.toNat < 2 ^ 32) (c : UInt64) :
    (a.toUInt64 * b / c).toUInt32.toNat = a.toNat * b.toNat / c.toNat % 2 ^ 32 := by
  rw [UInt64.toNat_toUInt32, UInt64.toNat_div, toNat_product a hb]

theorem toNat_ofMillis (rate ms : UInt32) :
    (ofMillis rate ms).toNat = ms.toNat * rate.toNat / 1000 % 2 ^ 32 :=
  toNat_mul_div ms (b := rate.toUInt64) rate.toNat_lt 1000

theorem toNat_ofMicros (rate us : UInt32) :
    (ofMicros rate us).toNat = us.toNat * rate.toNat / 1000000 % 2 ^ 32 :=
  toNat_mul_div us (b := rate.toUInt64) rate.toNat_lt 1000000

theorem toNat_withMargin (t : Ticks) : t.withMargin.toNat = t.toNat * 110 / 100 % 2 ^ 32 :=
  toNat_mul_div t (by decide) 100

theorem reached_iff {deadline now : Ticks} :
    reached deadline now = true ↔ (now - deadline).toNat < 2 ^ 31 :=
  decide_eq_true_iff

theorem reached_deadline (opens deadline : Ticks) :
    reached deadline (opens + (deadline - opens)) = true := by
  rw [reached_iff, UInt32.add_comm, UInt32.sub_add_cancel, UInt32.sub_self]
  decide

theorem not_reached_of_lt {opens deadline k : Ticks} (hahead : (deadline - opens).toNat < 2 ^ 31)
    (hk : k < deadline - opens) : reached deadline (opens + k) = false := by
  have hlate : opens + k - deadline = k - (deadline - opens) := by grind
  rw [← Bool.not_eq_true, reached_iff, hlate, UInt32.toNat_sub]
  have hlt := UInt32.lt_iff_toNat_lt.mp hk
  omega

end Ticks

end Transceiver
