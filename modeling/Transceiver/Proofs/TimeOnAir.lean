import Mathlib.Algebra.Order.Floor.Semifield
import Mathlib.Data.Rat.Floor
import Mathlib.Tactic.Ring
import Transceiver.Proofs.Airtime

/-!
Time on air as the standard defines it, and in machine words.

The standard gives the time on air as a rational number: a preamble with a fraction of a symbol,
eight symbols of the first block, and a rounded number of further blocks, in symbols of `2 ^ n`
chips. The library counts quarters of a symbol instead and rounds once more at the end. What it
arrives at is the rational number of the standard, rounded up.

A processor has no unbounded numbers. It counts bits and symbols in signed words of 32 bits, in
which the payload may fall below zero, and chips in unsigned words of 64. `airtimeInWords?` does so
step by step and fails as soon as an intermediate result does not fit into its word, which happens
for no modulation and no packet.
-/

namespace Transceiver

theorem ceil_div_eq_divUp (a : ℕ) {b : ℕ} (hb : 0 < b) : ⌈(a / b : ℚ)⌉₊ = divUp a b := by
  have hb' : (0 : ℚ) < b := Nat.cast_pos.mpr hb
  refine eq_of_forall_ge_iff fun c => ?_
  rw [Nat.ceil_le, div_le_iff₀ hb', divUp_le_iff hb]
  exact_mod_cast Iff.rfl

/-- A division toward zero rounds up, once the divisor less one is added. -/
theorem tdiv_eq_divUp (a : ℕ) {b : ℕ} (hb : 0 < b) : ((a : ℤ) + b - 1).tdiv b = divUp a b := by
  have hsum : (a : ℤ) + b - 1 = ((a + b - 1 : ℕ) : ℤ) := by omega
  rw [hsum, ← Int.ofNat_tdiv, divUp]

/-- A kind of machine word, by the numbers that it can hold. -/
structure Word where
  low : ℤ
  high : ℤ

namespace Word

def int32 : Word := ⟨-2147483648, 2147483647⟩

def uint32 : Word := ⟨0, 4294967295⟩

def uint64 : Word := ⟨0, 18446744073709551615⟩

/-- The number, if a word of this kind can hold it. -/
def hold? (w : Word) (n : ℤ) : Option ℤ :=
  if w.low ≤ n ∧ n ≤ w.high then some n else none

theorem hold?_int32 {n : ℤ} (hlow : -2147483648 ≤ n) (hhigh : n ≤ 2147483647) :
    int32.hold? n = some n :=
  if_pos ⟨hlow, hhigh⟩

theorem hold?_uint32 {n : ℤ} (hlow : 0 ≤ n) (hhigh : n ≤ 4294967295) :
    uint32.hold? n = some n :=
  if_pos ⟨hlow, hhigh⟩

theorem hold?_uint64 {n : ℤ} (hlow : 0 ≤ n) (hhigh : n ≤ 18446744073709551615) :
    uint64.hold? n = some n :=
  if_pos ⟨hlow, hhigh⟩

theorem hold?_int32_bind {n : ℤ} (hlow : -2147483648 ≤ n) (hhigh : n ≤ 2147483647)
    (f : ℤ → Option ℤ) : (int32.hold? n >>= f) = f n := by
  rw [hold?_int32 hlow hhigh]
  rfl

theorem hold?_uint64_bind {n : ℤ} (hlow : 0 ≤ n) (hhigh : n ≤ 18446744073709551615)
    (f : ℤ → Option ℤ) : (uint64.hold? n >>= f) = f n := by
  rw [hold?_uint64 hlow hhigh]
  rfl

end Word

namespace Modulation

open Word

variable (m : Modulation) (p : Packet)

/-! ### The formula of the standard -/

/-- Symbols up to the first block. -/
def exactPreamble : ℚ :=
  let programmed : ℚ := p.preamble.elim 8 fun n => n.toNat
  if m.spreading.toNat ≤ 6 then max programmed 12 + 6.25 else programmed + 4.25

/-- Blocks after the first. -/
def exactBlocks : ℕ :=
  let bits : ℤ := 8 * p.length.toNat + 16 - 4 * m.spreading.toNat +
    (if p.explicitHeader then 20 else 0) + (if 7 ≤ m.spreading.toNat then 8 else 0)
  let used : ℤ := if m.lowRate ∧ 7 ≤ m.spreading.toNat then m.spreading.toNat - 2
    else m.spreading.toNat
  ⌈(max 0 bits / (4 * used) : ℚ)⌉₊

/-- Microseconds on the air, before they are rounded. -/
def exactMicros : ℚ :=
  (m.exactPreamble p + 8 + m.exactBlocks p * m.coding.codewordBits) * 2 ^ m.spreading.toNat *
    10 ^ 6 / m.bandwidth.hertz

theorem natCast_blockBits : (m.blockBits : ℤ) =
    4 * if m.lowRate ∧ 7 ≤ m.spreading.toNat then (m.spreading.toNat : ℤ) - 2
      else m.spreading.toNat := by
  cases hlow : m.lowRate <;> by_cases hfast : m.spreading.toNat ≤ 6 <;>
    simp [blockBits, fast, hlow, hfast] <;> omega

theorem exactPreamble_eq : m.exactPreamble p =
    m.preambleSymbols p + (if m.fast then 6 else 4 : ℕ) + 1 / 4 := by
  have hprogrammed : (p.preamble.elim 8 fun n => (n.toNat : ℚ)) =
      ((p.preamble.getD Packet.regularPreamble).toNat : ℚ) := by
    cases p.preamble <;> rfl
  simp only [exactPreamble, preambleSymbols, hprogrammed, fast, decide_eq_true_eq]
  split
  · push_cast
    ring
  · push_cast
    ring

theorem exactBlocks_eq : m.exactBlocks p = m.payloadBlocks p := by
  have hbits : max 0 (8 * p.length.toNat + 16 - 4 * m.spreading.toNat +
      (if p.explicitHeader then 20 else 0) + (if 7 ≤ m.spreading.toNat then 8 else 0) : ℤ) =
        (m.payloadBits p).toNat := by
    simp only [payloadBits, fast, decide_eq_true_eq]
    split <;> split <;> split <;> omega
  rw [exactBlocks, payloadBlocks, ← ceil_div_eq_divUp _ m.blockBits_pos]
  congr 2
  · exact_mod_cast congrArg (Int.cast (R := ℚ)) hbits
  · exact_mod_cast congrArg (Int.cast (R := ℚ)) m.natCast_blockBits.symm

/-- Four quarters of a symbol for a whole one, and the quarter behind the preamble. -/
theorem exactMicros_eq : m.exactMicros p = (m.chips p * 1000000 : ℕ) / m.bandwidth.hertz := by
  have hfive := m.spreading.five_le_toNat
  have hsymbols : m.exactPreamble p + 8 + m.exactBlocks p * m.coding.codewordBits =
      m.wholeSymbols p + 1 / 4 := by
    rw [exactPreamble_eq, exactBlocks_eq, wholeSymbols]
    split
    · push_cast
      ring
    · push_cast
      ring
  have hquarter : (2 : ℚ) ^ m.spreading.toNat = 4 * 2 ^ (m.spreading.toNat - 2) := by
    rw [show (4 : ℚ) = 2 ^ 2 by norm_num, ← pow_add]
    congr 1
    omega
  rw [exactMicros, hsymbols, hquarter, chips, Nat.shiftLeft_eq]
  push_cast
  ring

/-! ### In words -/

/-- Bits that the first block leaves for the others, by additions in turn. -/
def bitsInWords? : Option ℤ := do
  let spreading ← int32.hold? m.spreading.toNat
  let octets ← int32.hold? p.length.toNat
  let bits ← int32.hold? (octets * 2 ^ 3)
  let bits ← int32.hold? (bits + 16)
  let room ← int32.hold? (4 * spreading)
  let bits ← int32.hold? (bits - room)
  let bits ← if p.explicitHeader then int32.hold? (bits + 20) else pure bits
  if spreading ≤ 6 then pure bits else int32.hold? (bits + 8)

/-- Bits of one block. -/
def blockInWords? : Option ℤ := do
  let spreading ← int32.hold? m.spreading.toNat
  if spreading ≤ 6 then int32.hold? (4 * spreading)
  else if m.lowRate then
    let used ← int32.hold? (spreading - 2)
    int32.hold? (4 * used)
  else int32.hold? (4 * spreading)

/-- Whole symbols of a packet. -/
def symbolsInWords? : Option ℤ := do
  let spreading ← int32.hold? m.spreading.toNat
  let preamble ← int32.hold? (p.preamble.getD Packet.regularPreamble).toNat
  let preamble := if spreading ≤ 6 ∧ preamble < 12 then 12 else preamble
  let bits ← m.bitsInWords? p
  let block ← m.blockInWords?
  let sum ← int32.hold? (max bits 0 + block)
  let sum ← int32.hold? (sum - 1)
  let blocks ← int32.hold? (sum.tdiv block)
  let codeword ← int32.hold? m.coding.codewordBits
  let symbols ← int32.hold? (blocks * codeword)
  let symbols ← int32.hold? (symbols + preamble)
  let symbols ← int32.hold? (symbols + 12)
  if spreading ≤ 6 then int32.hold? (symbols + 2) else pure symbols

/-- Microseconds on the air. Quarters of a symbol are signed still, and chips are not. -/
def airtimeInWords? : Option ℤ := do
  let symbols ← m.symbolsInWords? p
  let quarters ← int32.hold? (4 * symbols)
  let quarters ← int32.hold? (quarters + 1)
  let quarters ← uint64.hold? quarters
  let spreading ← int32.hold? m.spreading.toNat
  let shift ← int32.hold? (spreading - 2)
  let chips ← uint64.hold? (quarters * 2 ^ shift.toNat)
  let hertz ← uint64.hold? m.bandwidth.hertz
  let micros ← uint64.hold? (chips * 1000000)
  let micros ← uint64.hold? (micros + hertz)
  let micros ← uint64.hold? (micros - 1)
  let micros ← uint64.hold? (micros.tdiv hertz)
  uint32.hold? micros

theorem payloadBits_bounds : -32 ≤ m.payloadBits p ∧ m.payloadBits p ≤ 2064 := by
  have hfive := m.spreading.five_le_toNat
  have htwelve := m.spreading.toNat_le_twelve
  have hlength := p.length.toNat_lt
  simp only [payloadBits]
  constructor <;> split <;> split <;> omega

theorem blockBits_le_longest : m.blockBits ≤ 48 := by
  have htwelve := m.spreading.toNat_le_twelve
  unfold blockBits
  split <;> omega

theorem wholeSymbols_le_longest : m.wholeSymbols p ≤ 1093 := by
  refine Nat.le_trans (wholeSymbols_le (outlasted_slowest m p)) ?_
  cases m.spreading <;> decide

theorem chips_le_longest : m.chips p ≤ 2765824 := by
  refine Nat.le_trans (chips_le (outlasted_slowest m p)) ?_
  cases m.spreading <;> decide

/-! A result that fits is taken out of its word by rewriting alone. Were the kernel left to see for
itself that the two sides agree, it would open the comparison with the largest word and count there
one by one, so the comparison is never left to it. -/

theorem bitsInWords?_eq : m.bitsInWords? p = some (m.payloadBits p) := by
  have hfive := m.spreading.five_le_toNat
  have htwelve := m.spreading.toNat_le_twelve
  have hlength := p.length.toNat_lt
  simp -implicitDefEqProofs (disch := omega) only [bitsInWords?, hold?_int32, Option.bind_eq_bind,
    Option.bind_some, Option.pure_def]
  simp only [payloadBits, fast, decide_eq_true_eq]
  split <;> split <;> split <;> simp only [Option.some.injEq] <;> omega

theorem blockInWords?_eq : m.blockInWords? = some (m.blockBits : ℤ) := by
  have hfive := m.spreading.five_le_toNat
  have htwelve := m.spreading.toNat_le_twelve
  simp -implicitDefEqProofs (disch := omega) only [blockInWords?, hold?_int32, Option.bind_eq_bind,
    Option.bind_some]
  rw [natCast_blockBits]
  cases m.lowRate <;> simp only [Bool.false_eq_true, true_and, false_and, if_false, if_true] <;>
    split <;> simp only [Option.some.injEq] <;> omega

theorem raised_eq_preambleSymbols :
    (if (m.spreading.toNat : ℤ) ≤ 6 ∧
        ((p.preamble.getD Packet.regularPreamble).toNat : ℤ) < 12 then 12
      else ((p.preamble.getD Packet.regularPreamble).toNat : ℤ)) = m.preambleSymbols p := by
  simp only [preambleSymbols, fast, decide_eq_true_eq]
  split <;> split <;> omega

theorem symbolsInWords?_eq : m.symbolsInWords? p = some (m.wholeSymbols p : ℤ) := by
  have hfive := m.spreading.five_le_toNat
  have htwelve := m.spreading.toNat_le_twelve
  have hpreamble := (p.preamble.getD Packet.regularPreamble).toNat_lt
  have hbits := m.payloadBits_bounds p
  have hblock := m.blockBits_pos
  have hblock' := m.blockBits_le_longest
  have hsymbols := m.wholeSymbols_le_longest p
  have hcodeword : 5 ≤ m.coding.codewordBits ∧ m.coding.codewordBits ≤ 8 := by
    cases m.coding <;> decide
  -- What is added up on the way is bounded by the symbols of which it is a part.
  have hcoded : m.payloadBlocks p * m.coding.codewordBits + m.preambleSymbols p ≤ 1093 := by
    simp only [wholeSymbols] at hsymbols
    omega
  have hblocks : m.payloadBlocks p ≤ 1093 := by
    have hone : m.payloadBlocks p * 1 ≤ m.payloadBlocks p * m.coding.codewordBits :=
      Nat.mul_le_mul_left _ (by omega)
    omega
  have hdivided : divUp (m.payloadBits p).toNat m.blockBits = m.payloadBlocks p := rfl
  have hcast : (m.payloadBlocks p : ℤ) * (m.coding.codewordBits : ℤ) =
      ((m.payloadBlocks p * m.coding.codewordBits : ℕ) : ℤ) := (Int.natCast_mul _ _).symm
  simp -implicitDefEqProofs (disch := omega) only [symbolsInWords?, ↓hold?_int32_bind,
    ↓bitsInWords?_eq, ↓blockInWords?_eq, Option.bind_eq_bind, ↓Option.bind_some, Option.pure_def,
    ← Int.ofNat_toNat, tdiv_eq_divUp, hdivided, raised_eq_preambleSymbols, hcast, hold?_int32]
  simp only [wholeSymbols, fast, decide_eq_true_eq]
  split <;> split <;> simp only [Option.some.injEq] <;> omega

theorem airtimeInWords?_eq : m.airtimeInWords? p = some ((m.airtime p).toNat : ℤ) := by
  have hfive := m.spreading.five_le_toNat
  have htwelve := m.spreading.toNat_le_twelve
  have hsymbols := m.wholeSymbols_le_longest p
  have hchips := m.chips_le_longest p
  have hhertz := m.bandwidth.hertz_pos
  have hhertz' : m.bandwidth.hertz ≤ 500000 := by cases m.bandwidth <;> decide
  have hlongest := m.divUp_chips_le_longest p
  have hshifted : (4 * (m.wholeSymbols p : ℤ) + 1) * 2 ^ ((m.spreading.toNat : ℤ) - 2).toNat =
      (m.chips p : ℤ) := by
    have hshift : ((m.spreading.toNat : ℤ) - 2).toNat = m.spreading.toNat - 2 := by omega
    rw [hshift, chips, Nat.shiftLeft_eq]
    push_cast
    ring
  have hcast : (m.chips p : ℤ) * 1000000 = ((m.chips p * 1000000 : ℕ) : ℤ) := by push_cast; ring
  rw [toNat_airtime]
  have hrounded : ((m.chips p : ℤ) * 1000000 + m.bandwidth.hertz - 1).tdiv m.bandwidth.hertz =
      divUp (m.chips p * 1000000) m.bandwidth.hertz := by
    rw [hcast, tdiv_eq_divUp _ hhertz]
  rw [airtimeInWords?, symbolsInWords?_eq]
  show (int32.hold? (4 * (m.wholeSymbols p : ℤ)) >>= _) = _
  rw [hold?_int32_bind, hold?_int32_bind, hold?_uint64_bind, hold?_int32_bind, hold?_int32_bind,
    hshifted, hold?_uint64_bind, hold?_uint64_bind, hold?_uint64_bind, hold?_uint64_bind,
    hold?_uint64_bind, hrounded, hold?_uint64_bind, hold?_uint32] <;> omega

/-- The time on air of every packet is that of the standard, rounded up to a microsecond. It comes
out of words in which every intermediate result fits. -/
theorem airtime_eq_ceil :
    (m.airtime p).toNat = ⌈m.exactMicros p⌉₊ ∧
      m.airtimeInWords? p = some ((m.airtime p).toNat : ℤ) := by
  constructor
  · rw [exactMicros_eq, ceil_div_eq_divUp _ m.bandwidth.hertz_pos, toNat_airtime]
  · exact m.airtimeInWords?_eq p

/-- The low data rate flag, which is regular here, leaves 40 bits for a block in place of 48. -/
example : (regular .sf12 .khz125 .fourFifths).airtime { explicitHeader := true, length := 13 } =
    1155072 := by decide

end Modulation

end Transceiver
