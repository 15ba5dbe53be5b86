/-!
Binary floating point of 64 bits, kept as the exact number it stands for. A decimal is read as
the nearest such number, a tie going to the even significand, and a number is cut to a whole
one towards zero.
-/

namespace EditorLint

/-- A signed zero or number `± significand · 2 ^ exponent`, an infinity, or no number. -/
inductive Binary64 where
  | finite (negative : Bool) (significand : Nat) (exponent : Int)
  | infinite (negative : Bool)
  | nan
  deriving DecidableEq, Repr

namespace Binary64

/-- The exponent of the finest grid, on which the smallest numbers lie. -/
def leastExponent : Int := -1074

/-- The greatest exponent of a significand of 53 bits. -/
def greatestExponent : Int := 971

/-- The whole number nearest to `num / den`, a tie going to the even one. -/
def roundedQuotient (num den : Nat) : Nat :=
  let q := num / den
  let r := num % den
  if 2 * r < den then q
  else if den < 2 * r then q + 1
  else if q % 2 = 0 then q else q + 1

/-- `num / den · base ^ power` as a quotient of whole numbers. -/
def scaled (base num den : Nat) (power : Int) : Nat × Nat :=
  if 0 ≤ power then (num * Nat.pow base power.toNat, den)
  else (num, den * Nat.pow base (-power).toNat)

/-- `num / den` measured in steps of `2 ^ exponent`, to the nearest whole number of steps. -/
def stepsOf (num den : Nat) (exponent : Int) : Nat :=
  let (n, d) := scaled 2 num den (-exponent)
  roundedQuotient n d

/-- The exponent of the grid on which `num / den` is rounded: 53 bits of significand, but never
finer than the finest grid. -/
def gridOf (num den : Nat) : Int :=
  let guess : Int := (Nat.log2 num : Int) - (Nat.log2 den : Int)
  let (n, d) := scaled 2 num den (-guess)
  let magnitude := if n < d then guess - 1 else guess
  max (magnitude - 52) leastExponent

/-- The number nearest to `± num / den`, for a positive `den`. -/
def ofRatio (negative : Bool) (num den : Nat) : Binary64 :=
  if num = 0 then .finite negative 0 0
  else
    let grid := gridOf num den
    let steps := stepsOf num den grid
    let (significand, exponent) :=
      if steps = Nat.pow 2 53 then (Nat.pow 2 52, grid + 1) else (steps, grid)
    if greatestExponent < exponent then .infinite negative
    else if significand = 0 then .finite negative 0 0
    else .finite negative significand exponent

/-- The number of decimal digits of a positive number. -/
def digitCount (n : Nat) : Nat := (Nat.toDigits 10 n).length

/-- The number nearest to `± coefficient · 10 ^ power`. Powers so far out that the answer is
zero or infinite are not expanded. -/
def ofDecimal (negative : Bool) (coefficient : Nat) (power : Int) : Binary64 :=
  if coefficient = 0 then .finite negative 0 0
  else
    let magnitude : Int := digitCount coefficient + power
    if 310 < magnitude then .infinite negative
    else if magnitude < -330 then .finite negative 0 0
    else
      let (num, den) := scaled 10 coefficient 1 power
      ofRatio negative num den

/-- `significand · 2 ^ exponent` as a quotient of whole numbers. -/
def ratio (significand : Nat) (exponent : Int) : Nat × Nat :=
  scaled 2 significand 1 exponent

/-- Why a number has no whole part. -/
inductive NotWhole where
  | infinite
  | nan
  deriving DecidableEq, Repr

/-- The whole part, towards zero. -/
def truncate : Binary64 → Except NotWhole Int
  | .finite negative significand exponent =>
    let (num, den) := ratio significand exponent
    let magnitude : Int := ↑(num / den)
    .ok (if negative then -magnitude else magnitude)
  | .infinite _ => .error .infinite
  | .nan => .error .nan

end Binary64

end EditorLint
