/-!
Scheduler time. A tick count is a word that wraps, so moments are compared by the sign of their
difference. A duration becomes a 64-bit product and quotient of which the low word is kept.
-/

namespace Transceiver

/-- A moment or a duration in ticks of the scheduler's clock, modulo `2 ^ 32`. -/
abbrev Ticks := UInt32

namespace Ticks

/-- Ticks per second of a clock that states no other rate: one tick every 16 microseconds. -/
def regularRate : UInt32 := 62500

def ofMillis (rate ms : UInt32) : Ticks :=
  (ms.toUInt64 * rate.toUInt64 / 1000).toUInt32

def ofMicros (rate us : UInt32) : Ticks :=
  (us.toUInt64 * rate.toUInt64 / 1000000).toUInt32

/-- Share of its length to which a duration is stretched before it bounds an operation, so that
clock drift never beats a packet that is still on the air. -/
def marginPercent : UInt64 := 110

/-- The duration with its drift margin, rounded down. -/
def withMargin (t : Ticks) : Ticks :=
  (t.toUInt64 * marginPercent / 100).toUInt32

/-- Whether `deadline` lies in the half circle that ends at `now`. -/
def reached (deadline now : Ticks) : Bool :=
  (now - deadline).toNat < 1 <<< 31

end Ticks

structure Clock where
  /-- Ticks per second. -/
  rate : UInt32 := Ticks.regularRate
  now : Ticks := 0
  deriving DecidableEq, Repr

end Transceiver
