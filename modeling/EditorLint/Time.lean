import EditorLint.Json.Value

/-!
Time, in nanoseconds. Editors and scripts give it in milliseconds, whole or fractional.
-/

namespace EditorLint

/-- An instant or a duration. -/
abbrev Time := Nat

namespace Time

/-- The nanoseconds of a number of milliseconds, to the nearest one; it may be below zero. -/
def ofMilliseconds : Json → Int
  | .int n => n * 1000000
  | .bool b => if b then 1000000 else 0
  | .float (.finite negative significand exponent) =>
    let (num, den) := Binary64.ratio significand exponent
    let magnitude : Int := Binary64.roundedQuotient (num * 1000000) den
    if negative then -magnitude else magnitude
  | _ => 0

/-- A duration in milliseconds with two places, a tie going to the even digit. -/
def milliseconds (duration : Time) : String :=
  let hundredths := Binary64.roundedQuotient duration 10000
  let places := hundredths % 100
  toString (hundredths / 100) ++ "." ++ toString (places / 10) ++ toString (places % 10)

end Time

/-- An event and the time at which it happened. -/
structure Stamped (ε : Type) where
  time : Time
  event : ε
  deriving DecidableEq, Repr

end EditorLint
