import EditorLint.Number.Binary64

/-!
The shortest decimal of a floating-point number: the fewest digits that read back as the same
number, and of those the nearest. It is written with a point between the decimal exponents -4
and 15, and with a power of ten outside them.
-/

namespace EditorLint.Binary64

/-- A decimal `digits · 10 ^ power`. -/
structure Decimal where
  digits : Nat
  power : Int
  deriving DecidableEq, Repr

/-- The decimal exponent of `num / den`: the power of ten of its first digit. -/
def decimalExponent (num den : Nat) : Int :=
  let guess : Int := (digitCount num : Int) - (digitCount den : Int)
  let (n, d) := scaled 10 num den (-guess)
  if n < d then guess - 1 else guess

/-- The two neighbours of `num / den` on the grid of `10 ^ power`, the nearer first, and of two
equally near the even one first. -/
def neighbours (num den : Nat) (power : Int) : List Decimal :=
  let (n, d) := scaled 10 num den (-power)
  let low := n / d
  let rest := n % d
  let lower : Decimal := ⟨low, power⟩
  let upper : Decimal := ⟨low + 1, power⟩
  if 2 * rest < d then [lower, upper]
  else if d < 2 * rest then [upper, lower]
  else if low % 2 = 0 then [lower, upper] else [upper, lower]

/-- The first neighbour that reads back, on grids of `count` digits and more, at most `fuel`
grids. -/
def shortestFrom (value : Binary64) (num den : Nat) (first : Int) :
    Nat → Nat → Option Decimal
  | 0, _ => none
  | fuel + 1, count =>
    let power := first - (count : Int) + 1
    match (neighbours num den power).find? fun d => ofDecimal false d.digits d.power == value with
    | some decimal => some decimal
    | none => shortestFrom value num den first fuel (count + 1)

/-- The shortest decimal of a positive number; seventeen digits always suffice. -/
def shortest (significand : Nat) (exponent : Int) : Option Decimal :=
  let (num, den) := ratio significand exponent
  shortestFrom (.finite false significand exponent) num den (decimalExponent num den) 17 1

/-- Drops trailing zeros of the digits. -/
def stripped : List Char → List Char :=
  fun cs => (cs.reverse.dropWhile (· == '0')).reverse

/-- The exponent of a power of ten, with its sign and two digits at least. -/
def exponentText (e : Int) : List Char :=
  let magnitude := Nat.toDigits 10 e.natAbs
  let padded := if magnitude.length < 2 then '0' :: magnitude else magnitude
  'e' :: (if e < 0 then '-' else '+') :: padded

/-- Writes `0.d₁d₂… · 10 ^ point`: between the limits with a point, which has a digit on either
side, and otherwise with one digit before the point and a power of ten. -/
def decimalText (digits : List Char) (point : Int) : List Char :=
  let exponent := point - 1
  if exponent < -4 ∨ 16 ≤ exponent then
    match digits with
    | [] => ['0']
    | [first] => first :: exponentText exponent
    | first :: rest => (first :: '.' :: rest) ++ exponentText exponent
  else if point ≤ 0 then
    ['0', '.'] ++ List.replicate (-point).toNat '0' ++ digits
  else
    let whole := point.toNat
    if digits.length ≤ whole then
      digits ++ List.replicate (whole - digits.length) '0' ++ ['.', '0']
    else digits.take whole ++ ['.'] ++ digits.drop whole

/-- The text of a number. -/
def text : Binary64 → String
  | .nan => "nan"
  | .infinite negative => if negative then "-inf" else "inf"
  | .finite negative significand exponent =>
    let body :=
      if significand = 0 then ['0', '.', '0']
      else
        match shortest significand exponent with
        | none => []
        | some decimal =>
          let all := Nat.toDigits 10 decimal.digits
          decimalText (stripped all) (decimal.power + all.length)
    String.ofList (if negative then '-' :: body else body)

end EditorLint.Binary64
