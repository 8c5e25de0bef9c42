import Mathlib

/-!
# Quotients of doubles

What a division of floating-point numbers gives, up to rounding: a rational number, or one of
the two values it takes when the divisor is zero. The numbers divided here are not negative, so
there is one infinity. A comparison with a value that is not a number is false.
-/

namespace LiveStream
namespace Lib

inductive Double where
  | finite (x : ℚ)
  | infinite
  | nan
deriving DecidableEq, Repr

namespace Double

/-- The quotient of a number that is not negative. -/
def div (x y : ℚ) : Double :=
  if y ≠ 0 then finite (x / y) else if 0 < x then infinite else nan

/-- Is the value at most this number? -/
def leNumber : Double → ℚ → Bool
  | finite x, y => x ≤ y
  | infinite, _ => false
  | nan, _ => false

/-- Is the value at least this number? -/
def geNumber : Double → ℚ → Bool
  | finite x, y => y ≤ x
  | infinite, _ => true
  | nan, _ => false

/-- Is the value at most the other one? -/
def le : Double → Double → Bool
  | finite x, finite y => x ≤ y
  | finite _, infinite => true
  | infinite, infinite => true
  | _, _ => false

/-- The value under an increasing function without a bound. -/
def map (f : ℚ → ℚ) : Double → Double
  | finite x => finite (f x)
  | infinite => infinite
  | nan => nan

def add : Double → Double → Double
  | nan, _ => nan
  | _, nan => nan
  | infinite, _ => infinite
  | _, infinite => infinite
  | finite x, finite y => finite (x + y)

/-- The quotient of a number of any sign by a value that is not zero. -/
def numberDiv (x : ℚ) : Double → Double
  | finite y => finite (x / y)
  | infinite => finite 0
  | nan => nan

theorem div_of_ne_zero (x : ℚ) {y : ℚ} (h : y ≠ 0) : div x y = finite (x / y) := if_pos h

end Double
end Lib
end LiveStream
