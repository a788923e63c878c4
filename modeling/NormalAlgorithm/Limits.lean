/-!
# Limits

What a program and its run may use. Every limit is hard: to pass it ends the work with a fault.
-/

namespace NormalAlgorithm

/-- The limits in force. Model of `Options`. -/
structure Limits where
  /-- Rules that a program may have as written; from this many rules on, no directive may make
      several out of one. -/
  rules : Nat := 1000
  /-- Directives that a program may have. -/
  directives : Nat := 100
  /-- Steps that a run may take. -/
  steps : Nat := 10000
  /-- The size of the longest text, in 16-bit units. -/
  units : Nat := 1000
  deriving DecidableEq, Repr

/-- The wider limits for programs that are run on their own, where output is cut down for display
    and long runs are expected. Model of `hosted` of the `Options`. -/
def Limits.wide : Limits := { steps := 100000, units := 100000 }

end NormalAlgorithm
