import Transceiver.Document.Format
import Transceiver.Modulation

/-!
The written form of a modulation. The low data rate flag is read as it is written, whether or not
it is the regular one.
-/

namespace Transceiver

namespace Bandwidth

def all : List Bandwidth :=
  [khz7, khz10, khz15, khz20, khz31, khz41, khz62, khz125, khz250, khz500]

def name : Bandwidth → String
  | khz7 => "_7KHz"
  | khz10 => "_10KHz"
  | khz15 => "_15KHz"
  | khz20 => "_20KHz"
  | khz31 => "_31KHz"
  | khz41 => "_41KHz"
  | khz62 => "_62KHz"
  | khz125 => "_125KHz"
  | khz250 => "_250KHz"
  | khz500 => "_500KHz"

def format : Format Bandwidth := .named all name

end Bandwidth

namespace SpreadingFactor

def all : List SpreadingFactor := [sf5, sf6, sf7, sf8, sf9, sf10, sf11, sf12]

def name : SpreadingFactor → String
  | sf5 => "_5"
  | sf6 => "_6"
  | sf7 => "_7"
  | sf8 => "_8"
  | sf9 => "_9"
  | sf10 => "_10"
  | sf11 => "_11"
  | sf12 => "_12"

def format : Format SpreadingFactor := .named all name

end SpreadingFactor

namespace CodingRate

def all : List CodingRate := [fourFifths, fourSixths, fourSevenths, fourEighths]

def name : CodingRate → String
  | fourFifths => "_4_5"
  | fourSixths => "_4_6"
  | fourSevenths => "_4_7"
  | fourEighths => "_4_8"

def format : Format CodingRate := .named all name

end CodingRate

namespace Modulation

def members : Members (SpreadingFactor × Bandwidth × CodingRate × Bool × Unit) :=
  .cons "sf" SpreadingFactor.format <| .cons "bw" Bandwidth.format <|
    .cons "cr" CodingRate.format <| .cons "ldro" Format.bool .none

def format : Format Modulation :=
  .record members (fun (sf, bw, cr, ldro, _) => ⟨sf, bw, cr, ldro⟩)
    fun m => (m.spreading, m.bandwidth, m.coding, m.lowRate, ())

end Modulation

end Transceiver
