import EditorLint.Text.Digit
import Mathlib.Data.Nat.Digits.Defs

/-! Whole numbers that are written in decimal. They are read as what they say unless they have too
many digits.
-/

namespace EditorLint.Text

inductive Sign where
  | plus
  | minus
  deriving DecidableEq, Repr

def Sign.char : Sign → Char
  | .plus => '+'
  | .minus => '-'

def digitChar (digit : Fin 10) : Char :=
  Char.ofNat (0x30 + digit)

/-- A whole number in decimal: a sign if it has one, and digits, of which the first is the most
significant.
-/
structure Numeral where
  sign : Option Sign
  digits : List (Fin 10)
  filled : digits ≠ []
  deriving DecidableEq, Repr

namespace Numeral

def chars (numeral : Numeral) : List Char :=
  numeral.sign.toList.map Sign.char ++ numeral.digits.map digitChar

def text (numeral : Numeral) : String :=
  String.ofList numeral.chars

/-- The number without its sign. -/
def size (numeral : Numeral) : Nat :=
  Nat.ofDigits 10 (numeral.digits.map Fin.val).reverse

def value (numeral : Numeral) : Int :=
  match numeral.sign with
  | some .minus => -numeral.size
  | _ => numeral.size

end Numeral

-----------------------------------------------------------------------------------------
-- Digits
-----------------------------------------------------------------------------------------

theorem digit?_digitChar (digit : Fin 10) : digit? (digitChar digit) = some digit.val := by
  decide +revert

theorem digitChar_ne_underscore (digit : Fin 10) : digitChar digit ≠ '_' := by
  decide +revert

/-- Digits are read one by one, by induction; there is no underscore among them. -/
theorem digits?_map_digitChar {digits : List (Fin 10)} (filled : digits ≠ [])
    : digits? (digits.map digitChar) = some (digits.map Fin.val) := by
  induction digits with
  | nil => exact absurd rfl filled
  | cons first rest ih =>
      cases rest with
      | nil => simp [digits?, digit?_digitChar]
      | cons second more =>
          have plain := digitChar_ne_underscore second
          have others := ih (List.cons_ne_nil second more)
          simp only [List.map_cons] at others ⊢
          rw [digits?, digit?_digitChar, others]
          · rfl
          · exact List.cons_ne_nil _ _
          · intro tail same
            exact plain (List.cons.inj same).1

theorem ofDigits_eq (digits : List Nat) : ofDigits digits = Nat.ofDigits 10 digits.reverse := by
  rw [ofDigits, Nat.ofDigits_eq_foldr, List.foldr_reverse]
  congr 1
  funext value digit
  simp [Nat.mul_comm, Nat.add_comm]

/-- The digits of a number are read as the number without its sign. -/
theorem magnitude?_digits (numeral : Numeral)
    : magnitude? (numeral.digits.map digitChar)
      = if numeral.digits.length ≤ digitLimit then some numeral.size else none := by
  simp [magnitude?, digits?_map_digitChar numeral.filled, Numeral.size, ofDigits_eq]

-----------------------------------------------------------------------------------------
-- Whole numbers
-----------------------------------------------------------------------------------------

theorem not_isNumberBlank_sign (sign : Sign) : isNumberBlank sign.char = false := by
  cases sign <;> decide

theorem not_isNumberBlank_digit (digit : Fin 10) : isNumberBlank (digitChar digit) = false := by
  decide +revert

/-- Nothing is dropped from a text without characters of the class. -/
theorem trimChars_eq_self {isDropped : Char → Bool} {cs : List Char}
    (kept : ∀ c ∈ cs, isDropped c = false)
    : trimChars isDropped cs = cs := by
  have unchanged {part : List Char} (sub : ∀ c ∈ part, isDropped c = false)
      : part.dropWhile isDropped = part := by
    cases part with
    | nil => rfl
    | cons c rest => rw [List.dropWhile_cons_of_neg]; simp [sub c List.mem_cons_self]
  rw [trimChars, unchanged kept, unchanged (by simpa using kept), List.reverse_reverse]

theorem trimChars_numeral (numeral : Numeral)
    : trimChars isNumberBlank numeral.chars = numeral.chars := by
  apply trimChars_eq_self
  intro c member
  rcases List.mem_append.mp member with first | other
  · obtain ⟨sign, _, rfl⟩ := List.mem_map.mp first
    exact not_isNumberBlank_sign sign
  · obtain ⟨digit, _, rfl⟩ := List.mem_map.mp other
    exact not_isNumberBlank_digit digit

/-- A number without a sign begins with none. -/
theorem digitChar_ne_sign (digit : Fin 10) (sign : Sign) : digitChar digit ≠ sign.char := by
  cases sign <;> decide +revert

/-- A decimal number is read as its value if it has no more digits than are read, and not at all
otherwise.
-/
theorem integer?_text (numeral : Numeral)
    : integer? numeral.text
      = if numeral.digits.length ≤ digitLimit then some numeral.value else none := by
  have magnitude := magnitude?_digits numeral
  rw [integer?, Numeral.text, String.toList_ofList, trimChars_numeral, Numeral.chars, Numeral.value]
  by_cases short : numeral.digits.length ≤ digitLimit
  all_goals
    simp only [short, if_true, if_false] at magnitude ⊢
    match signed : numeral.sign with
    | some .plus => simp [Sign.char, magnitude]
    | some .minus => simp [Sign.char, magnitude]
    | none =>
      obtain ⟨first, rest, digits⟩ := List.exists_cons_of_ne_nil numeral.filled
      rw [Option.toList_none, List.map_nil, List.nil_append]
      split
      next same => exact absurd (List.cons.inj (digits ▸ same)).1 (digitChar_ne_sign first .minus)
      next same => exact absurd (List.cons.inj (digits ▸ same)).1 (digitChar_ne_sign first .plus)
      next => simp [magnitude]

end EditorLint.Text
