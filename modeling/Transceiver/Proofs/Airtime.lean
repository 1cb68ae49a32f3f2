import Transceiver.Modulation.Airtime

/-!
Airtime: a packet that is larger in every respect is on the air at least as long.

Time on air is a chain of roundings up, and every link of it is monotone: more bits need no fewer
blocks, larger codewords no fewer symbols, a narrower channel no less time for a chip. So
`airtime_le` holds for any two packets that can be compared at all, at one spreading factor.

The longest packet of a spreading factor is known, and of the eight that exist the longest needs
less than six minutes. That is far less than a word can say, so the narrowing of the result never
cuts anything off.
-/

namespace Transceiver

theorem divUp_le_iff {a b c : Nat} (hb : 0 < b) : divUp a b ≤ c ↔ a ≤ c * b := by
  rw [divUp, Nat.div_le_iff_le_mul_add_pred hb, Nat.mul_comm c]
  omega

theorem divUp_le_divUp {a a' b b' : Nat} (ha : a ≤ a') (hb : b' ≤ b) (hb' : 0 < b') :
    divUp a b ≤ divUp a' b' := by
  rw [divUp_le_iff (Nat.lt_of_lt_of_le hb' hb)]
  calc
    a ≤ a' := ha
    _ ≤ divUp a' b' * b' := (divUp_le_iff hb').mp (Nat.le_refl _)
    _ ≤ divUp a' b' * b := Nat.mul_le_mul_left _ hb

/-- A packet and its modulation are at most as large as another packet and its modulation in all
that has to do with time, at the same spreading factor. -/
structure Outlasted (m : Modulation) (p : Packet) (m' : Modulation) (p' : Packet) : Prop where
  spreading : m.spreading = m'.spreading
  bandwidth : m'.bandwidth.hertz ≤ m.bandwidth.hertz
  coding : m.coding.codewordBits ≤ m'.coding.codewordBits
  lowRate : m.lowRate = true → m'.lowRate = true
  preamble : (p.preamble.getD Packet.regularPreamble).toNat ≤
    (p'.preamble.getD Packet.regularPreamble).toNat
  header : p.explicitHeader = true → p'.explicitHeader = true
  length : p.length ≤ p'.length

namespace Modulation

variable {m m' : Modulation} {p p' : Packet}

theorem blockBits_pos (m : Modulation) : 0 < m.blockBits := by
  have hspreading := m.spreading.five_le_toNat
  unfold blockBits
  split <;> omega

theorem fast_eq (h : Outlasted m p m' p') : m.fast = m'.fast := by
  simp only [fast, h.spreading]

theorem payloadBits_le (h : Outlasted m p m' p') : m.payloadBits p ≤ m'.payloadBits p' := by
  have hlength : p.length.toNat ≤ p'.length.toNat := UInt8.le_iff_toNat_le.mp h.length
  have hheader : (if p.explicitHeader then 20 else 0 : Int) ≤
      if p'.explicitHeader then 20 else 0 := by
    have himp := h.header
    split <;> split <;> simp_all
  simp only [payloadBits, fast_eq h, h.spreading]
  omega

theorem blockBits_le (h : Outlasted m p m' p') : m'.blockBits ≤ m.blockBits := by
  have himp := h.lowRate
  simp only [blockBits, fast_eq h, h.spreading]
  refine Nat.mul_le_mul_left 4 ?_
  split <;> split <;> simp_all

theorem payloadBlocks_le (h : Outlasted m p m' p') : m.payloadBlocks p ≤ m'.payloadBlocks p' :=
  divUp_le_divUp (Int.toNat_le_toNat (payloadBits_le h)) (blockBits_le h) m'.blockBits_pos

theorem preambleSymbols_le (h : Outlasted m p m' p') :
    m.preambleSymbols p ≤ m'.preambleSymbols p' := by
  have hpreamble := h.preamble
  simp only [preambleSymbols, fast_eq h]
  split <;> omega

theorem wholeSymbols_le (h : Outlasted m p m' p') : m.wholeSymbols p ≤ m'.wholeSymbols p' := by
  have hblocks := Nat.mul_le_mul (payloadBlocks_le h) h.coding
  have hpreamble := preambleSymbols_le h
  simp only [wholeSymbols, fast_eq h]
  omega

theorem chips_le (h : Outlasted m p m' p') : m.chips p ≤ m'.chips p' := by
  have hsymbols := wholeSymbols_le h
  simp only [chips, h.spreading, Nat.shiftLeft_eq]
  exact Nat.mul_le_mul_right _ (by omega)

/-- Time on air before it is narrowed to a word. -/
theorem divUp_chips_le (h : Outlasted m p m' p') :
    divUp (m.chips p * 1000000) m.bandwidth.hertz ≤
      divUp (m'.chips p' * 1000000) m'.bandwidth.hertz :=
  divUp_le_divUp (Nat.mul_le_mul_right _ (chips_le h)) h.bandwidth m'.bandwidth.hertz_pos

/-- The slowest modulation at a spreading factor. -/
def slowest (spreading : SpreadingFactor) : Modulation where
  spreading
  bandwidth := .khz7
  coding := .fourEighths
  lowRate := true

/-- The longest packet. -/
def longestPacket : Packet := .headed 255 255

theorem outlasted_slowest (m : Modulation) (p : Packet) :
    Outlasted m p (slowest m.spreading) longestPacket where
  spreading := rfl
  bandwidth := by
    show Bandwidth.khz7.hertz ≤ m.bandwidth.hertz
    cases m.bandwidth <;> decide
  coding := by
    show m.coding.codewordBits ≤ CodingRate.fourEighths.codewordBits
    cases m.coding <;> decide
  lowRate _ := rfl
  preamble := Nat.le_of_lt_succ (UInt8.toNat_lt _)
  header _ := rfl
  length := UInt8.le_iff_toNat_le.mpr (Nat.le_of_lt_succ (UInt8.toNat_lt _))

/-- No packet is on the air for six minutes. -/
theorem divUp_chips_le_longest (m : Modulation) (p : Packet) :
    divUp (m.chips p * 1000000) m.bandwidth.hertz ≤ 354138797 := by
  refine Nat.le_trans (divUp_chips_le (outlasted_slowest m p)) ?_
  cases m.spreading <;> decide

/-- Nothing is cut off when the time on air is narrowed to a word. -/
theorem toNat_airtime (m : Modulation) (p : Packet) :
    (m.airtime p).toNat = divUp (m.chips p * 1000000) m.bandwidth.hertz := by
  have hlongest := divUp_chips_le_longest m p
  rw [airtime, Nat.toUInt32, UInt32.toNat_ofNat']
  exact Nat.mod_eq_of_lt (by omega)

theorem toNat_airtime_le_longest (m : Modulation) (p : Packet) :
    (m.airtime p).toNat ≤ 354138797 :=
  m.toNat_airtime p ▸ m.divUp_chips_le_longest p

theorem airtime_le (h : Outlasted m p m' p') : (m.airtime p).toNat ≤ (m'.airtime p').toNat := by
  rw [toNat_airtime, toNat_airtime]
  exact divUp_chips_le h

end Modulation

end Transceiver
