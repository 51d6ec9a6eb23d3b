import Mathlib.Algebra.Order.Ring.Int

/-! `muduo::Timestamp`. -/

namespace Muduo

/-- `microSecondsSinceEpoch_`. The sums and differences formed here are assumed to fit in 64 bits. -/
abbrev Timestamp := Int

namespace Timestamp

def kMicroSecondsPerSecond : Int := 1000 * 1000

def invalid : Timestamp := 0

def valid (t : Timestamp) : Bool := decide (0 < t)

end Timestamp

end Muduo
