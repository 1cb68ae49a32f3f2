/-!
LoRa modulation. A symbol is a chirp that sweeps the channel once and carries `spreading.toNat`
bits; four bits of payload are sent as a codeword of five to eight bits. The low data rate flag
spares two bits of every symbol and is called for when symbols get long.
-/

namespace Transceiver

/-- Channel width, named after its size in kilohertz. -/
inductive Bandwidth
  | khz7 | khz10 | khz15 | khz20 | khz31 | khz41 | khz62 | khz125 | khz250 | khz500
  deriving DecidableEq, Repr

namespace Bandwidth

def hertz : Bandwidth → Nat
  | khz7 => 7810
  | khz10 => 10420
  | khz15 => 15630
  | khz20 => 20830
  | khz31 => 31250
  | khz41 => 41670
  | khz62 => 62500
  | khz125 => 125000
  | khz250 => 250000
  | khz500 => 500000

theorem hertz_pos (w : Bandwidth) : 0 < w.hertz := by
  cases w <;> decide

end Bandwidth

/-- The chirp rate: one symbol takes `2 ^ n` chips, so a larger factor is slower and more robust. -/
inductive SpreadingFactor
  | sf5 | sf6 | sf7 | sf8 | sf9 | sf10 | sf11 | sf12
  deriving DecidableEq, Repr

namespace SpreadingFactor

def toNat : SpreadingFactor → Nat
  | sf5 => 5
  | sf6 => 6
  | sf7 => 7
  | sf8 => 8
  | sf9 => 9
  | sf10 => 10
  | sf11 => 11
  | sf12 => 12

theorem five_le_toNat (s : SpreadingFactor) : 5 ≤ s.toNat := by
  cases s <;> decide

theorem toNat_le_twelve (s : SpreadingFactor) : s.toNat ≤ 12 := by
  cases s <;> decide

end SpreadingFactor

/-- Forward error correction, named after the share of payload bits in a codeword. -/
inductive CodingRate
  | fourFifths | fourSixths | fourSevenths | fourEighths
  deriving DecidableEq, Repr

/-- Bits sent for every four bits of payload. -/
def CodingRate.codewordBits : CodingRate → Nat
  | .fourFifths => 5
  | .fourSixths => 6
  | .fourSevenths => 7
  | .fourEighths => 8

/-- What two stations have to agree on beside the carrier frequency. -/
structure Modulation where
  spreading : SpreadingFactor
  bandwidth : Bandwidth
  coding : CodingRate
  /-- Low data rate optimisation. -/
  lowRate : Bool
  deriving DecidableEq, Repr

namespace Modulation

/-- Duration of one symbol, in whole parts of a second of which there are `unit`. -/
def symbolTime (spreading : SpreadingFactor) (bandwidth : Bandwidth) (unit : Nat) : Nat :=
  (1 <<< spreading.toNat) * unit / bandwidth.hertz

/-- The regular choice of the low data rate flag: set when a symbol lasts 16 ms or more. -/
def regular (spreading : SpreadingFactor) (bandwidth : Bandwidth) (coding : CodingRate) :
    Modulation where
  spreading
  bandwidth
  coding
  lowRate := 16 ≤ symbolTime spreading bandwidth 1000

/-- Duration of a symbol in microseconds, rounded down. -/
def symbolMicros (m : Modulation) : UInt32 :=
  (symbolTime m.spreading m.bandwidth 1000000).toUInt32

end Modulation

end Transceiver
