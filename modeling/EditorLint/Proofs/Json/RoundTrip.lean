import EditorLint.Json.Printer
import EditorLint.Json.Reader
import EditorLint.Proofs.Outcome
import Mathlib.Tactic.IntervalCases

/-! Values that are printed are read back as they were, as long as their numbers are whole and not
too long, they are not nested too deep, and their objects have each key once.
-/

namespace EditorLint.Json

-----------------------------------------------------------------------------------------
-- Values that are read back
-----------------------------------------------------------------------------------------

/-- A value that is nested no deeper than `depth`, without fractions, without numbers of too many
digits and without keys that occur twice.
-/
inductive Printable : Nat → Json → Prop
  | null {depth : Nat}
    : Printable depth .null
  | bool {depth : Nat} (value : Bool)
    : Printable depth (.bool value)
  | int {depth : Nat} {n : Int} (short : (Nat.toDigits 10 n.natAbs).length ≤ Text.digitLimit)
    : Printable depth (.int n)
  | str {depth : Nat} (text : String)
    : Printable depth (.str text)
  | arr {depth : Nat} {items : List Json} (inside : ∀ item ∈ items, Printable depth item)
    : Printable (depth + 1) (.arr items)
  | obj {depth : Nat} {entries : Table Json} (once : entries.keys.Nodup)
    (inside : ∀ entry ∈ entries, Printable depth entry.2)
    : Printable (depth + 1) (.obj entries)

/-- What may come behind a value that is part of another one, or nothing. -/
def Ends (rest : List Char) : Prop :=
  ∀ c ∈ rest.head?, c = ',' ∨ c = ']' ∨ c = '\x7d'

/-- A text is read as what it stands for, and reading goes on behind it. -/
def ReadsAs {α : Type} (reader : Cursor → Except Fault (Parsed α)) (text : List Char) (meant : α) :
    Prop :=
  ∀ offset rest, Ends rest →
    reader ⟨offset, text ++ rest⟩ = .ok (meant, ⟨offset + text.length, rest⟩)

-----------------------------------------------------------------------------------------
-- Strings
-----------------------------------------------------------------------------------------

/-- Four digits of a small number are read as this number. -/
theorem code?_hexDigits {n : Nat} (small : n < 0x20) (next : Char) (rest : List Char)
    : code? (Text.hexDigits 4 n ++ next :: rest) = some n := by
  have values
      : ∀ n < 0x20,
          (Text.hexDigits 4 n).map Text.hexValue?
            = [some 0, some 0, some (n / 16), some (n % 16)] := by
    decide
  obtain ⟨a, b, c, d, digits⟩ : ∃ a b c d, Text.hexDigits 4 n = [a, b, c, d] := ⟨_, _, _, _, rfl⟩
  have read := values n small
  rw [digits] at read ⊢
  obtain ⟨first, second, third, fourth⟩ : _ ∧ _ ∧ _ ∧ _ := by simpa using read
  have whole : n / 16 * 16 + n % 16 = n := by omega
  simp [code?, first, second, third, fourth, whole]

/-- So an escape by code is read as the control that it writes. -/
theorem codeEscape_hexDigits {c : Char} (control : c.toNat < 0x20) (letter : Nat) (next : Char)
    (rest : List Char)
    : codeEscape letter (Text.hexDigits 4 c.toNat ++ next :: rest) = .ok (c, 4) := by
  have low : ¬ 0xD800 ≤ c.toNat := by omega
  simp [codeEscape, code?_hexDigits control, low]

/-- What an escape has taken is passed over, by induction over it. -/
theorem stringChars_skip (opened offset : Nat) (taken rest : List Char)
    : stringChars opened taken.length offset (taken ++ rest)
      = stringChars opened 0 (offset + taken.length) rest := by
  induction taken generalizing offset with
  | nil => rfl
  | cons c more ih =>
      rw [List.length_cons, List.cons_append, stringChars, ih]
      congr 1
      omega

/-- A character that an escape stands for is read, and reading goes on behind the escape. -/
theorem stringChars_of_escape {opened offset : Nat} {c : Char} {taken rest : List Char}
    (escaped : escape opened offset (taken ++ rest) = .ok (c, taken.length))
    : stringChars opened 0 offset ('\\' :: (taken ++ rest))
      = (stringChars opened 0 (offset + (taken.length + 1)) rest).map
          fun read => (c :: read.1, read.2) := by
  have behind := stringChars_skip opened (offset + 1) taken rest
  rw [Nat.add_assoc, Nat.add_comm 1] at behind
  rw [stringChars, if_neg (by decide), if_pos rfl, escaped, ← behind]
  rfl

/-- A character that is not escaped is read. -/
theorem stringChars_of_plain {c : Char} (special : ¬ (c = '"' ∨ c = '\\'))
    (control : ¬ c.toNat < 0x20) (opened offset : Nat) (rest : List Char)
    : stringChars opened 0 offset (c :: rest)
      = (stringChars opened 0 (offset + 1) rest).map fun read => (c :: read.1, read.2) := by
  rw [not_or] at special
  rw [stringChars, if_neg special.1, if_neg special.2, if_neg control]
  rfl

/-- Each character of a string is read as it was written. -/
theorem stringChars_escapedJsonChar (opened offset : Nat) (c : Char) {rest : List Char}
    (some : rest ≠ [])
    : stringChars opened 0 offset (escapedJsonChar c ++ rest)
      = (stringChars opened 0 (offset + (escapedJsonChar c).length) rest).map
          fun read => (c :: read.1, read.2) := by
  unfold escapedJsonChar
  split
  next special =>
    have escaped : escape opened offset ([c] ++ rest) = .ok (c, 1) := by
      rcases special with rfl | rfl <;> rfl
    exact stringChars_of_escape escaped
  next special =>
    split
    next control =>
      obtain ⟨next, more, rfl⟩ := List.exists_cons_of_ne_nil some
      have escaped
          : escape opened offset ('u' :: Text.hexDigits 4 c.toNat ++ next :: more)
            = .ok (c, 5) := by
        rw [List.cons_append, escape, codeEscape_hexDigits control]
        rfl
      exact stringChars_of_escape escaped
    next control => exact stringChars_of_plain special control opened offset rest

/-- The characters of a string are read up to its closing quote, by induction over them. -/
theorem stringChars_flatMap (opened offset : Nat) (cs rest : List Char)
    : stringChars opened 0 offset (cs.flatMap escapedJsonChar ++ '"' :: rest)
      = .ok (cs, ⟨offset + (cs.flatMap escapedJsonChar).length + 1, rest⟩) := by
  induction cs generalizing offset with
  | nil => simp [stringChars]
  | cons c more ih =>
      rw [List.flatMap_cons, List.append_assoc, stringChars_escapedJsonChar _ _ _ (by simp), ih]
      simp [Except.map, Nat.add_assoc]

/-- What a string writes behind its opening quote. -/
def stringTail (text : String) : List Char :=
  text.toList.flatMap escapedJsonChar ++ ['"']

theorem toList_stringText (text : String) : (stringText text).toList = '"' :: stringTail text := by
  simp [stringText, stringTail]

/-- A string is read behind its opening quote, whatever comes after its closing one. -/
theorem string_stringTail (offset : Nat) (text : String) (rest : List Char)
    : string ⟨offset, stringTail text ++ rest⟩
      = .ok (text, ⟨offset + (stringTail text).length, rest⟩) := by
  simp only [string, stringTail, List.append_assoc, List.singleton_append, stringChars_flatMap]
  simp [bind, Except.bind, pure, Except.pure, Nat.add_assoc]

-----------------------------------------------------------------------------------------
-- Numbers
-----------------------------------------------------------------------------------------

/-- What ends a value goes on with no number. -/
theorem Ends.no_number {rest : List Char} (ends : Ends rest)
    : leadingDigits rest = [] ∧ fractionDigits rest = [] ∧ exponent? rest = none := by
  cases rest with
  | nil => exact ⟨rfl, rfl, rfl⟩
  | cons c more =>
      rcases ends c rfl with rfl | rfl | rfl
      · exact ⟨rfl, rfl, rfl⟩
      · exact ⟨rfl, rfl, rfl⟩
      · exact ⟨rfl, rfl, rfl⟩

/-- Decimal digits are plain ones. -/
theorem isPlainDigit_of_mem_toDigits {n : Nat} {c : Char} (member : c ∈ Nat.toDigits 10 n)
    : Text.isPlainDigit c = true := by
  have digit := Nat.isDigit_of_mem_toDigits (by decide) (by decide) member
  simpa [Text.isPlainDigit, Char.isDigit, Char.le_def] using digit

/-- A positive number is not written with a leading zero, by induction over its digits. -/
theorem head?_toDigits_ne {n : Nat} (positive : 0 < n) : (Nat.toDigits 10 n).head? ≠ some '0' := by
  induction n using Nat.strong_induction_on with
  | _ n ih =>
      rw [Nat.toDigits_eq_if (by decide)]
      split
      next small =>
        interval_cases n <;> decide
      next large =>
        rw [List.head?_append_of_ne_nil _ Nat.toDigits_ne_nil]
        exact ih (n / 10) (by omega) (by omega)

/-- The digits of a number are those that are read, up to what ends it. -/
theorem wholeDigits_toDigits (n : Nat) {rest : List Char} (ends : Ends rest)
    : wholeDigits (Nat.toDigits 10 n ++ rest) = Nat.toDigits 10 n := by
  rcases Nat.eq_zero_or_pos n with rfl | positive
  · rfl
  · have leading : leadingDigits (Nat.toDigits 10 n ++ rest) = Nat.toDigits 10 n := by
      rw [leadingDigits, List.takeWhile_append_of_pos fun c => isPlainDigit_of_mem_toDigits]
      have none : rest.takeWhile Text.isPlainDigit = [] := ends.no_number.1
      rw [none, List.append_nil]
    have first := head?_toDigits_ne positive
    cases written : Nat.toDigits 10 n with
    | nil => exact absurd written Nat.toDigits_ne_nil
    | cons c more =>
        rw [written] at first leading
        unfold wholeDigits
        split
        next same => simp_all
        next => exact leading

/-- The digits of a number write it. -/
theorem plainNumber_toDigits (n : Nat) : plainNumber (Nat.toDigits 10 n) = n := by
  conv_rhs => rw [← Nat.ofDigitChars_ten_toDigits (n := n), Nat.ofDigitChars_eq_foldl]
  simp [plainNumber, Text.ofDigits, List.foldl_map, Nat.mul_comm]

/-- The sign of a number, if it has one. -/
def sign (n : Int) : List Char :=
  if n < 0 then ['-'] else []

/-- A number is written by its sign and its digits. -/
theorem toList_print_int (n : Int)
    : (print (.int n)).toList = sign n ++ Nat.toDigits 10 n.natAbs := by
  rw [print, Int.toString_eq_repr, Int.repr_eq_if, sign]
  by_cases negative : n < 0
  · have size : (-n).toNat = n.natAbs := by omega
    rw [if_neg (not_le.mpr negative), if_pos negative, size]
    simp
  · have size : n.toNat = n.natAbs := by omega
    rw [if_pos (not_lt.mp negative), if_neg negative, size]
    simp

/-- Its digits begin with a plain one. -/
theorem exists_toDigits_eq_cons (n : Nat)
    : ∃ c more, Nat.toDigits 10 n = c :: more ∧ Text.isPlainDigit c = true := by
  obtain ⟨c, more, digits⟩ := List.exists_cons_of_ne_nil (Nat.toDigits_ne_nil (n := n) (b := 10))
  refine ⟨c, more, digits, isPlainDigit_of_mem_toDigits (n := n) ?_⟩
  rw [digits]
  exact List.mem_cons_self

/-- A number of not too many digits is read as it was. -/
theorem readsAs_number {n : Int}
    (short : (Nat.toDigits 10 n.natAbs).length ≤ Text.digitLimit)
    : ReadsAs number (sign n ++ Nat.toDigits 10 n.natAbs) (.int n) := by
  intro offset rest ends
  obtain ⟨_, fraction, exponent⟩ := ends.no_number
  have whole := wholeDigits_toDigits n.natAbs ends
  have some : (Nat.toDigits 10 n.natAbs).isEmpty = false := by simp [Nat.toDigits_ne_nil]
  by_cases negative : n < 0
  · have value : -(n.natAbs : Int) = n := by omega
    simp only [number, sign, negative, if_true, List.cons_append, List.nil_append, Cursor.drop,
      List.drop_succ_cons, List.drop_zero, whole, some, List.drop_left, fraction, exponent,
      List.isEmpty_nil, plainNumber_toDigits, not_lt.mpr short, Bool.false_eq_true, if_false, value,
      List.length_cons]
    congr 3
    omega
  · have value : (n.natAbs : Int) = n := by omega
    have unsigned : ∀ cs, Nat.toDigits 10 n.natAbs ++ rest = '-' :: cs → False := by
      intro cs same
      obtain ⟨c, more, digits, plain⟩ := exists_toDigits_eq_cons n.natAbs
      obtain ⟨rfl, _⟩ : c = '-' ∧ _ := by simpa [digits] using same
      exact absurd plain (by decide)
    simp only [number, sign, negative, List.nil_append, Cursor.drop, whole, some, List.drop_left,
      fraction, exponent, List.isEmpty_nil, plainNumber_toDigits, not_lt.mpr short,
      Bool.false_eq_true, if_false, if_true, value]

/-- A plain digit is none of the other characters. -/
theorem ne_of_isPlainDigit {c : Char} (plain : Text.isPlainDigit c = true) (other : Char)
    (differs : Text.isPlainDigit other = false)
    : c ≠ other := by
  intro same
  rw [← same, plain] at differs
  cases differs

/-- A number begins with its sign or a digit. -/
theorem exists_print_int_eq_cons (n : Int)
    : ∃ c more, (print (.int n)).toList = c :: more ∧ (c = '-' ∨ Text.isPlainDigit c = true) := by
  rw [toList_print_int, sign]
  obtain ⟨c, more, digits, plain⟩ := exists_toDigits_eq_cons n.natAbs
  split
  · exact ⟨'-', _, rfl, Or.inl rfl⟩
  · exact ⟨c, more, digits, Or.inr plain⟩

/-- No name of a value begins like a number. -/
theorem find?_names_of_number (n : Int) (rest : List Char)
    : names.find? (fun (name, _) => name.isPrefixOf (sign n ++ Nat.toDigits 10 n.natAbs ++ rest))
      = none := by
  obtain ⟨c, more, digits, plain⟩ := exists_toDigits_eq_cons n.natAbs
  have apart := ne_of_isPlainDigit plain
  rw [digits, sign]
  split <;>
    simp [names, (apart 'n' rfl).symm, (apart 't' rfl).symm, (apart 'f' rfl).symm,
      (apart 'N' rfl).symm, (apart 'I' rfl).symm, (apart '-' rfl).symm]

/-- A number is a value that holds no others. -/
theorem readsAs_scalar_int {n : Int}
    (short : (Nat.toDigits 10 n.natAbs).length ≤ Text.digitLimit)
    : ReadsAs scalar (print (.int n)).toList (.int n) := by
  intro offset rest ends
  rw [toList_print_int, scalar, find?_names_of_number]
  exact readsAs_number short offset rest ends

/-- So are names. -/
theorem readsAs_scalar_null : ReadsAs scalar (print .null).toList .null :=
  fun _ _ _ => rfl

theorem readsAs_scalar_bool (value : Bool)
    : ReadsAs scalar (print (.bool value)).toList (.bool value) := by
  intro offset rest _
  cases value with
  | false => rfl
  | true => rfl

-----------------------------------------------------------------------------------------
-- Arrays and objects
-----------------------------------------------------------------------------------------

/-- Where there is no white space in front, none is passed over. -/
theorem skipWhite_cons {c : Char} (dark : isWhite c = false) (offset : Nat) (more : List Char)
    : Cursor.skipWhite ⟨offset, c :: more⟩ = ⟨offset, c :: more⟩ := by
  simp [Cursor.skipWhite, Cursor.drop, dark]

/-- A value that begins like none of those that hold others is read as one that holds none. -/
theorem value_eq_scalar {fuel depth : Nat} {cursor : Cursor}
    (front : ∀ c ∈ cursor.rest.head?, c ≠ '"' ∧ c ≠ '[' ∧ c ≠ '\x7b')
    : value (fuel + 1) depth cursor = scalar cursor := by
  unfold value
  split
  next same => exact absurd rfl (front '"' (by simp [same])).1
  next same => exact absurd rfl (front '[' (by simp [same])).2.1
  next same => exact absurd rfl (front '\x7b' (by simp [same])).2.2
  next => rfl

/-- The items of an array, with a comma between two of them. -/
def itemsText (items : List Json) : List Char :=
  (Text.joined "," (printItems items)).toList

/-- The entries of an object, with a comma between two of them. -/
def entriesText (entries : Table Json) : List Char :=
  (Text.joined "," (printEntries entries)).toList

theorem toList_print_arr (items : List Json)
    : (print (.arr items)).toList = '[' :: (itemsText items ++ [']']) := by
  simp [print, itemsText]

theorem toList_print_obj (entries : Table Json)
    : (print (.obj entries)).toList = '\x7b' :: (entriesText entries ++ ['\x7d']) := by
  simp [print, entriesText]

theorem itemsText_cons_cons (first second : Json) (rest : List Json)
    : itemsText (first :: second :: rest)
      = (print first).toList ++ ',' :: itemsText (second :: rest) := by
  simp [itemsText, printItems, Text.joined]

theorem entriesText_singleton (entry : String × Json)
    : entriesText [entry] = '"' :: (stringTail entry.1 ++ ':' :: (print entry.2).toList) := by
  simp [entriesText, printEntries, Text.joined, toList_stringText]

theorem entriesText_cons_cons (first second : String × Json) (rest : Table Json)
    : entriesText (first :: second :: rest)
      = '"' :: (stringTail first.1 ++ ':' :: ((print first.2).toList
          ++ ',' :: entriesText (second :: rest))) := by
  simp [entriesText, printEntries, Text.joined, toList_stringText]

/-- A printed value begins neither with white space nor with the end of an array, nor with the
mark that a text may not begin with.
-/
theorem exists_print_eq_cons {depth : Nat} {v : Json} (printable : Printable depth v)
    : ∃ c more, (print v).toList = c :: more ∧ isWhite c = false ∧ c ≠ ']' ∧ c ≠ '\uFEFF' := by
  cases printable with
  | null => exact ⟨_, _, rfl, rfl, by decide⟩
  | bool value =>
      cases value with
      | false => exact ⟨_, _, rfl, rfl, by decide⟩
      | true => exact ⟨_, _, rfl, rfl, by decide⟩
  | @int _ n =>
      obtain ⟨c, more, front, numeric⟩ := exists_print_int_eq_cons n
      refine ⟨c, more, front, ?_⟩
      rcases numeric with rfl | plain
      · decide
      · have apart := ne_of_isPlainDigit plain
        simp [isWhite, apart ' ' rfl, apart '\t' rfl, apart '\n' rfl, apart '\r' rfl, apart ']' rfl,
          apart '\uFEFF' rfl]
  | str text => exact ⟨_, _, by rw [print, toList_stringText], rfl, by decide⟩
  | arr => exact ⟨_, _, toList_print_arr _, rfl, by decide⟩
  | obj => exact ⟨_, _, toList_print_obj _, rfl, by decide⟩

/-- So does a list of items that has any. -/
theorem exists_itemsText_eq_cons {depth : Nat} {x : Json} (printable : Printable depth x)
    (others : List Json)
    : ∃ c more, itemsText (x :: others) = c :: more ∧ isWhite c = false ∧ c ≠ ']' := by
  obtain ⟨c, more, front, dark, open_, _⟩ := exists_print_eq_cons printable
  cases others with
  | nil => exact ⟨c, more, front, dark, open_⟩
  | cons y others =>
      rw [itemsText_cons_cons, front]
      exact ⟨c, _, rfl, dark, open_⟩

/-- Items are read up to the end of their array, by induction over them. -/
theorem readsAs_items {depth : Nat} {xs : List Json} (some : xs ≠ [])
    (printable : ∀ x ∈ xs, Printable depth x)
    (each : ∀ x ∈ xs, ∀ fuel, (print x).toList.length ≤ fuel
      → ReadsAs (value fuel depth) (print x).toList x)
    {fuel : Nat} (enough : (itemsText xs).length < fuel)
    : ReadsAs (items fuel depth) (itemsText xs ++ [']']) xs := by
  intro offset rest ends
  induction xs generalizing fuel offset with
  | nil => exact absurd rfl some
  | cons x others ih =>
      obtain ⟨fuel, rfl⟩ : ∃ more, fuel = more + 1 := ⟨fuel - 1, by omega⟩
      cases others with
      | nil =>
          have alone : itemsText [x] = (print x).toList := rfl
          rw [alone] at enough ⊢
          have first := each x List.mem_cons_self fuel (by omega) offset (']' :: rest)
            (by simp [Ends])
          rw [items, List.append_assoc, List.singleton_append, first]
          simp [bind, Except.bind, skipWhite_cons, isWhite, Cursor.drop, pure, Except.pure,
            Nat.add_assoc]
      | cons y more =>
          rw [itemsText_cons_cons] at enough ⊢
          rw [List.length_append, List.length_cons] at enough
          have first := each x List.mem_cons_self fuel (by omega) offset
            (',' :: (itemsText (y :: more) ++ ']' :: rest)) (by simp [Ends])
          have within : (itemsText (y :: more)).length < fuel := by omega
          have others := ih (by simp) (fun z member => printable z (List.mem_cons_of_mem x member))
            (fun z member => each z (List.mem_cons_of_mem x member)) within
            (offset + (print x).toList.length + 1)
          obtain ⟨c, tail, front, dark, _⟩ := exists_itemsText_eq_cons (printable y (by simp)) more
          simp only [front, List.cons_append, List.append_assoc, List.nil_append] at first others ⊢
          simp only [items, first, bind, Except.bind, skipWhite_cons (c := ',') rfl, Cursor.drop,
            List.drop_succ_cons, List.drop_zero, skipWhite_cons dark, others, pure, Except.pure]
          simp
          omega

/-- A list of entries that has any begins with a key's quote. -/
theorem exists_entriesText_eq_cons (e : String × Json) (others : Table Json)
    : ∃ tail, entriesText (e :: others) = '"' :: tail := by
  cases others with
  | nil => exact ⟨_, entriesText_singleton e⟩
  | cons next more => exact ⟨_, entriesText_cons_cons e next more⟩

/-- Entries are read up to the end of their object and added to those `before`, by induction over
them.
-/
theorem readsAs_entries {depth : Nat} {es before : Table Json} (some : es ≠ [])
    (once : (before ++ es).keys.Nodup) (printable : ∀ e ∈ es, Printable depth e.2)
    (each : ∀ e ∈ es, ∀ fuel, (print e.2).toList.length ≤ fuel
      → ReadsAs (value fuel depth) (print e.2).toList e.2)
    {fuel : Nat} (enough : (entriesText es).length < fuel)
    : ReadsAs (entries fuel depth before) (entriesText es ++ ['\x7d']) (before ++ es) := by
  intro offset rest ends
  induction es generalizing fuel offset before with
  | nil => exact absurd rfl some
  | cons e others ih =>
      obtain ⟨fuel, rfl⟩ : ∃ more, fuel = more + 1 := ⟨fuel - 1, by omega⟩
      obtain ⟨c, tail, front, dark, _⟩ := exists_print_eq_cons (printable e (by simp))
      have added : before.insert e.1 e.2 = before ++ [e] := by
        refine Table.insert_of_not_mem ?_ e.2
        intro known
        have apart := (List.nodup_append.mp (by simpa [Table.keys] using once)).2.2
        exact apart _ known e.1 (by simp) rfl
      cases others with
      | nil =>
          rw [entriesText_singleton] at enough ⊢
          simp only [List.length_cons, List.length_append] at enough
          have first := each e List.mem_cons_self fuel (by omega)
            (offset + 1 + (stringTail e.1).length + 1) ('\x7d' :: rest) (by simp [Ends])
          simp only [front, List.cons_append, List.append_assoc, List.nil_append] at first ⊢
          simp only [entries, Cursor.drop, List.drop_succ_cons, List.drop_zero, string_stringTail,
            bind, Except.bind, skipWhite_cons (c := ':') rfl, skipWhite_cons dark, first,
            skipWhite_cons (c := '\x7d') rfl, added, pure, Except.pure]
          simp
          omega
      | cons next more =>
          rw [entriesText_cons_cons] at enough ⊢
          simp only [List.length_cons, List.length_append] at enough
          have first := each e List.mem_cons_self fuel (by omega)
            (offset + 1 + (stringTail e.1).length + 1)
            (',' :: (entriesText (next :: more) ++ '\x7d' :: rest)) (by simp [Ends])
          have within : (entriesText (next :: more)).length < fuel := by omega
          have known : (before ++ [e] ++ next :: more).keys.Nodup := by simpa using once
          have others := ih (by simp) known
            (fun z member => printable z (List.mem_cons_of_mem e member))
            (fun z member => each z (List.mem_cons_of_mem e member)) within
            (offset + 1 + (stringTail e.1).length + 1 + (print e.2).toList.length + 1)
          obtain ⟨keyed, quote⟩ := exists_entriesText_eq_cons next more
          simp only [front, quote, List.cons_append, List.append_assoc, List.nil_append]
            at first others ⊢
          simp only [entries, Cursor.drop, List.drop_succ_cons, List.drop_zero, string_stringTail,
            bind, Except.bind, skipWhite_cons (c := ':') rfl, skipWhite_cons dark, first,
            skipWhite_cons (c := ',') rfl, skipWhite_cons (c := '"') rfl, added, others]
          simp
          omega

-----------------------------------------------------------------------------------------
-- Whole texts
-----------------------------------------------------------------------------------------

/-- What is read as a value that holds no others is read as a value. -/
theorem readsAs_value_of_scalar {c : Char} {more : List Char} {v : Json}
    (reads : ReadsAs scalar (c :: more) v) (front : c ≠ '"' ∧ c ≠ '[' ∧ c ≠ '\x7b') {fuel : Nat}
    (enough : (c :: more).length ≤ fuel) (depth : Nat)
    : ReadsAs (value fuel depth) (c :: more) v := by
  intro offset rest ends
  obtain ⟨fuel, rfl⟩ : ∃ more, fuel = more + 1 := ⟨fuel - 1, by simp at enough; omega⟩
  rw [value_eq_scalar (by simpa using front)]
  exact reads offset rest ends

/-- A value is read as it was printed, by induction over it. -/
theorem readsAs_value {depth : Nat} {v : Json} (printable : Printable depth v) {fuel : Nat}
    (enough : (print v).toList.length ≤ fuel)
    : ReadsAs (value fuel depth) (print v).toList v := by
  induction printable generalizing fuel with
  | @null depth => exact readsAs_value_of_scalar readsAs_scalar_null (by decide) enough depth
  | @bool depth value =>
      have reads := readsAs_scalar_bool value
      cases value with
      | false => exact readsAs_value_of_scalar reads (by decide) enough depth
      | true => exact readsAs_value_of_scalar reads (by decide) enough depth
  | @int depth n short =>
      have reads := readsAs_scalar_int short
      obtain ⟨c, more, front, numeric⟩ := exists_print_int_eq_cons n
      rw [front] at reads enough ⊢
      refine readsAs_value_of_scalar reads ?_ enough depth
      rcases numeric with rfl | plain
      · decide
      · have apart := ne_of_isPlainDigit plain
        exact ⟨apart '"' rfl, apart '[' rfl, apart '\x7b' rfl⟩
  | str text =>
      intro offset rest _
      rw [print, toList_stringText] at enough ⊢
      obtain ⟨fuel, rfl⟩ : ∃ more, fuel = more + 1 := ⟨fuel - 1, by simp at enough; omega⟩
      simp only [value, List.cons_append, Cursor.drop, List.drop_succ_cons, List.drop_zero,
        string_stringTail, bind, Except.bind, pure, Except.pure]
      simp
      omega
  | @arr depth xs inside ih =>
      intro offset rest ends
      rw [toList_print_arr] at enough ⊢
      simp only [List.length_cons, List.length_append] at enough
      obtain ⟨fuel, rfl⟩ : ∃ more, fuel = more + 1 := ⟨fuel - 1, by omega⟩
      cases xs with
      | nil =>
          have none : itemsText [] = [] := rfl
          simp [value, none, Cursor.drop, skipWhite_cons, isWhite]
      | cons x others =>
          have within : (itemsText (x :: others)).length < fuel := by omega
          have behind := readsAs_items (by simp) inside (fun x member fuel => ih x member) within
            (offset + 1) rest ends
          obtain ⟨c, tail, front, dark, open_⟩ :=
            exists_itemsText_eq_cons (inside x List.mem_cons_self) others
          simp only [front, List.cons_append, List.append_assoc, List.nil_append] at behind ⊢
          simp only [value, Cursor.drop, List.drop_succ_cons, List.drop_zero, Nat.succ_ne_zero,
            if_false, skipWhite_cons dark, Nat.add_sub_cancel, behind, bind, Except.bind, pure,
            Except.pure]
          split
          next same => exact absurd (List.cons.inj same).1 open_
          next =>
            simp
            omega
  | @obj depth es once inside ih =>
      intro offset rest ends
      rw [toList_print_obj] at enough ⊢
      simp only [List.length_cons, List.length_append] at enough
      obtain ⟨fuel, rfl⟩ : ∃ more, fuel = more + 1 := ⟨fuel - 1, by omega⟩
      cases es with
      | nil =>
          have none : entriesText [] = [] := rfl
          simp [value, none, Cursor.drop, skipWhite_cons, isWhite]
      | cons e others =>
          have within : (entriesText (e :: others)).length < fuel := by omega
          have once : (Table.keys ([] ++ e :: others)).Nodup := once
          have behind := readsAs_entries (by simp) once inside (fun e member fuel => ih e member)
            within (offset + 1) rest ends
          obtain ⟨keyed, quote⟩ := exists_entriesText_eq_cons e others
          simp only [quote, List.cons_append, List.append_assoc, List.nil_append] at behind ⊢
          simp only [value, Cursor.drop, List.drop_succ_cons, List.drop_zero, Nat.succ_ne_zero,
            if_false, skipWhite_cons (c := '"') rfl, Nat.add_sub_cancel, behind, bind, Except.bind,
            pure, Except.pure]
          simp
          omega

/-- A whole text that a value was printed to is read as this value. -/
theorem read_print {v : Json} (printable : Printable depthLimit v) : read v.print = .ok v := by
  obtain ⟨c, more, front, dark, _, plain⟩ := exists_print_eq_cons printable
  have enough : v.print.toList.length ≤ 2 * v.print.toList.length + 2 := by omega
  have reads := readsAs_value printable enough 0 [] (by simp [Ends])
  rw [List.append_nil] at reads
  unfold read
  simp only [front] at reads ⊢
  split
  next same => exact absurd (List.cons.inj same).1 plain
  next =>
    rw [skipWhite_cons dark, reads]
    rfl

end EditorLint.Json
