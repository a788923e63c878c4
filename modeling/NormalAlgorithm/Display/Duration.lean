import NormalAlgorithm.Text.Numeral

/-!
# Durations

A duration is given in nanoseconds and written exactly, in the largest unit of which it is at least
one, without zeros at the end of the fraction.
-/

namespace NormalAlgorithm

/-- The digits of a fraction: `part` in units of which `10 ^ places` make one, without the zeros at
    its end. -/
def fractionDigits (places part : Nat) : Text :=
  (((decimal part).leftpad places '0').reverse.dropWhile (· = '0')).reverse

/-- A number of units of `10 ^ places` nanoseconds. -/
def inUnits (places : Nat) (name : Text) (nanoseconds : Nat) : Text :=
  let part := nanoseconds % Nat.pow 10 places
  decimal (nanoseconds / Nat.pow 10 places) ++
    (if part = 0 then [] else ['.'] ++ fractionDigits places part) ++ name

/-- A duration, written out. Model of the debug form of a `Duration`. -/
def duration (nanoseconds : Nat) : Text :=
  if 1000000000 ≤ nanoseconds then inUnits 9 "s".toList nanoseconds
  else if 1000000 ≤ nanoseconds then inUnits 6 "ms".toList nanoseconds
  else if 1000 ≤ nanoseconds then inUnits 3 "µs".toList nanoseconds
  else inUnits 0 "ns".toList nanoseconds

example : duration 2012344 = "2.012344ms".toList ∧ duration 1500 = "1.5µs".toList := by
  decide +kernel

end NormalAlgorithm
