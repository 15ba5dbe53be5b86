import EditorLint.Fix.Data
import EditorLint.Proofs.Finding

/-! What an editor may send back for a fix. A fix that was packed is unpacked as it was, with its
coordinates as numbers. Other values are taken for a fix too: told by what each part of them may
be, and not by how it is read. Nothing but an infinite coordinate is a failure.
-/

namespace EditorLint

-----------------------------------------------------------------------------------------
-- Coordinates as numbers
-----------------------------------------------------------------------------------------

/-- The coordinate as a number. -/
def Coord.plain (c : Coord) : Coord :=
  .int c.value

def Position.plain (p : Position) : Position :=
  ⟨p.row.plain, p.column.plain⟩

/-- The same fix with numbers as coordinates. -/
def Fix.plain (fix : Fix) : Fix :=
  { fix with span := ⟨fix.span.start.plain, fix.span.stop.plain⟩ }

namespace Fix

-----------------------------------------------------------------------------------------
-- What is stored, and what is taken for it
-----------------------------------------------------------------------------------------

/-- A value has the parts of a fix as they are packed, whatever else it has. -/
structure Packs (value : Json) (fix : Fix) : Prop where
  file : value.get? "file" = some (.str fix.file)
  start : value.get? "start" = some (packPosition fix.span.start)
  stop : value.get? "end" = some (packPosition fix.span.stop)
  content : value.get? "content" = some (.str fix.replacement)

/-- Data that a fix is stored in. -/
def IsStored (data : Json) (fix : Fix) : Prop :=
  IsGiven Packs (data.get? dataKey) fix

/-- A value counts as a whole number: it is one or a truth value, a number whose fraction is cut
off, or a text that is written like a whole number.
-/
inductive Counts : Json → Int → Prop
  | int (n : Int)
    : Counts (.int n) n
  | flag (b : Bool)
    : Counts (.bool b) (Coord.flag b).value
  | float {x : Binary64} {n : Int} (cut : x.truncate = .ok n)
    : Counts (.float x) n
  | text {text : String} {n : Int} (written : Text.integer? text = some n)
    : Counts (.str text) n

/-- A value counts as a pair: an array of two items, a text of two characters or an object with two
keys.
-/
inductive Splits : Json → Json → Json → Prop
  | items (first second : Json)
    : Splits (.arr [first, second]) first second
  | characters {text : String} {first second : Char} (two : text.toList = [first, second])
    : Splits (.str text) (.str (String.singleton first)) (.str (String.singleton second))
  | keys (first second : String) (value other : Json)
    : Splits (.obj [(first, value), (second, other)]) (.str first) (.str second)

/-- A value has a start and an end, with these coordinates. -/
structure HasCoordinates (value row column stopRow stopColumn : Json) : Prop where
  start : ∃ part, value.get? "start" = some part ∧ Splits part row column
  stop : ∃ part, value.get? "end" = some part ∧ Splits part stopRow stopColumn

/-- A value is taken for a position: it counts as a pair of values that count as whole numbers. -/
inductive IsPlace : Json → Position → Prop
  | intro {value row column : Json} {r c : Int} (splits : Splits value row column)
    (first : Counts row r) (second : Counts column c)
    : IsPlace value ⟨.int r, .int c⟩

/-- A value is shown as a text. -/
def Shows (value : Json) (text : String) : Prop :=
  text = value.display

/-- A value is taken for a fix: all of its parts are there, and what is no text is shown as one. -/
structure Reads (value : Json) (fix : Fix) : Prop where
  file : IsGiven Shows (value.get? "file") fix.file
  start : IsGiven IsPlace (value.get? "start") fix.span.start
  stop : IsGiven IsPlace (value.get? "end") fix.span.stop
  content : IsGiven Shows (value.get? "content") fix.replacement

/-- Values that count as whole numbers, up to one that is infinite. -/
inductive MeetsInfinite : List Json → Prop
  | here (negative : Bool) (rest : List Json)
    : MeetsInfinite (.float (.infinite negative) :: rest)
  | later {value : Json} {n : Int} {rest : List Json} (counts : Counts value n)
    (more : MeetsInfinite rest)
    : MeetsInfinite (value :: rest)

/-- A value is about to be taken for a fix when an infinite coordinate is met. -/
def Overflows (value : Json) : Prop :=
  ∃ row column stopRow stopColumn,
    HasCoordinates value row column stopRow stopColumn
    ∧ (value.get? "file").isSome
    ∧ MeetsInfinite [row, column, stopRow, stopColumn]

/-- The parts of a value are of the kinds that are stored, as far as they are there. -/
structure Proper (value : Json) : Prop where
  file : ∀ part ∈ value.get? "file", ∃ text, part = .str text
  start : ∀ part ∈ value.get? "start", ∃ items : List Coord, part = .arr (items.map Coord.toJson)
  stop : ∀ part ∈ value.get? "end", ∃ items : List Coord, part = .arr (items.map Coord.toJson)
  content : ∀ part ∈ value.get? "content", ∃ text, part = .str text

-----------------------------------------------------------------------------------------
-- Reading the parts
-----------------------------------------------------------------------------------------

/-- A value is read as a whole number if it counts as one. -/
theorem wholeNumber_eq_ok_iff {value : Json} {n : Int}
    : wholeNumber value = .ok n ↔ Counts value n := by
  constructor
  · intro read
    cases value with
    | null | arr | obj => cases read
    | int m => exact Except.ok.inj read ▸ .int m
    | bool b => exact Except.ok.inj read ▸ .flag b
    | float x =>
        simp only [wholeNumber] at read
        split at read
        next cut => exact .float (Except.ok.inj read ▸ cut)
        next => cases read
        next => cases read
    | str text =>
        simp only [wholeNumber] at read
        split at read
        next written => exact .text (Except.ok.inj read ▸ written)
        next => cases read
  · intro counts
    cases counts with
    | int | flag => rfl
    | float cut => simp only [wholeNumber, cut]
    | text written => simp only [wholeNumber, written]

/-- It is a failure if it is infinite. -/
theorem wholeNumber_eq_infinite_iff {value : Json}
    : wholeNumber value = .error .infinite ↔ ∃ negative, value = .float (.infinite negative) := by
  cases value with
  | null | bool | int | arr | obj => simp [wholeNumber]
  | float x => cases x <;> simp [wholeNumber, Binary64.truncate]
  | str text =>
      simp only [wholeNumber]
      split <;> simp

/-- A value is read as a pair if it counts as one. -/
theorem pair_eq_ok_iff {value first second : Json}
    : pair value = .ok (first, second) ↔ Splits value first second := by
  constructor
  · intro read
    unfold pair at read
    split at read
    · cases read
      exact .items first second
    · cases read
      exact .keys _ _ _ _
    · split at read
      next two =>
        cases read
        exact .characters two
      next => cases read
    · cases read
  · intro splits
    cases splits with
    | items | keys => rfl
    | characters two => simp only [pair, two]

/-- No pair is a failure. -/
theorem pair_ne_infinite {value : Json} : pair value ≠ .error .infinite := by
  unfold pair
  split
  · nofun
  · nofun
  · split <;> nofun
  · nofun

/-- A part is there or not. -/
theorem part_eq_ok_iff {key : String} {entries : Table Json} {value : Json}
    : part key entries = .ok value ↔ entries.get? key = some value := by
  unfold part
  split <;> simp [*]

theorem part_ne_infinite {key : String} {entries : Table Json}
    : part key entries ≠ .error .infinite := by
  unfold part
  split <;> nofun

-----------------------------------------------------------------------------------------
-- Reading a fix
-----------------------------------------------------------------------------------------

/-- An object is read as a fix if it is taken for one. -/
theorem unpack_eq_ok_iff {entries : Table Json} {fix : Fix}
    : unpack entries = .ok fix ↔ Reads (.obj entries) fix := by
  constructor
  · intro read
    obtain ⟨start, started, read⟩ := bind_eq_ok_iff.mp read
    obtain ⟨⟨row, column⟩, begins, read⟩ := bind_eq_ok_iff.mp read
    obtain ⟨stop, stopped, read⟩ := bind_eq_ok_iff.mp read
    obtain ⟨⟨stopRow, stopColumn⟩, ends, read⟩ := bind_eq_ok_iff.mp read
    obtain ⟨file, named, read⟩ := bind_eq_ok_iff.mp read
    obtain ⟨r, first, read⟩ := bind_eq_ok_iff.mp read
    obtain ⟨c, second, read⟩ := bind_eq_ok_iff.mp read
    obtain ⟨sr, third, read⟩ := bind_eq_ok_iff.mp read
    obtain ⟨sc, fourth, read⟩ := bind_eq_ok_iff.mp read
    obtain ⟨content, told, same⟩ := bind_eq_ok_iff.mp read
    obtain rfl := Except.ok.inj same
    exact {
      file := ⟨file, part_eq_ok_iff.mp named, rfl⟩
      start := ⟨start, part_eq_ok_iff.mp started, .intro (pair_eq_ok_iff.mp begins)
        (wholeNumber_eq_ok_iff.mp first) (wholeNumber_eq_ok_iff.mp second)⟩
      stop := ⟨stop, part_eq_ok_iff.mp stopped, .intro (pair_eq_ok_iff.mp ends)
        (wholeNumber_eq_ok_iff.mp third) (wholeNumber_eq_ok_iff.mp fourth)⟩
      content := ⟨content, part_eq_ok_iff.mp told, rfl⟩
    }
  · intro reads
    obtain ⟨_, ⟨_, _⟩, _⟩ := fix
    obtain ⟨file, named, rfl⟩ := reads.file
    obtain ⟨start, started, begins, first, second⟩ := reads.start
    obtain ⟨stop, stopped, ends, third, fourth⟩ := reads.stop
    obtain ⟨content, told, rfl⟩ := reads.content
    refine bind_eq_ok_iff.mpr ⟨start, part_eq_ok_iff.mpr started, ?_⟩
    refine bind_eq_ok_iff.mpr ⟨_, pair_eq_ok_iff.mpr begins, ?_⟩
    refine bind_eq_ok_iff.mpr ⟨stop, part_eq_ok_iff.mpr stopped, ?_⟩
    refine bind_eq_ok_iff.mpr ⟨_, pair_eq_ok_iff.mpr ends, ?_⟩
    refine bind_eq_ok_iff.mpr ⟨file, part_eq_ok_iff.mpr named, ?_⟩
    refine bind_eq_ok_iff.mpr ⟨_, wholeNumber_eq_ok_iff.mpr first, ?_⟩
    refine bind_eq_ok_iff.mpr ⟨_, wholeNumber_eq_ok_iff.mpr second, ?_⟩
    refine bind_eq_ok_iff.mpr ⟨_, wholeNumber_eq_ok_iff.mpr third, ?_⟩
    refine bind_eq_ok_iff.mpr ⟨_, wholeNumber_eq_ok_iff.mpr fourth, ?_⟩
    exact bind_eq_ok_iff.mpr ⟨content, part_eq_ok_iff.mpr told, rfl⟩

/-- The first of several values is infinite, or counts, and one behind it is infinite. -/
theorem meetsInfinite_cons_iff {value : Json} {rest : List Json}
    : MeetsInfinite (value :: rest)
      ↔ (∃ negative, value = .float (.infinite negative))
        ∨ ∃ n, Counts value n ∧ MeetsInfinite rest := by
  constructor
  · intro meets
    cases meets with
    | here negative => exact Or.inl ⟨negative, rfl⟩
    | later counts more => exact Or.inr ⟨_, counts, more⟩
  · intro given
    rcases given with ⟨negative, rfl⟩ | ⟨n, counts, more⟩
    · exact .here negative rest
    · exact .later counts more

section Failing

variable {β : Type} {key : String} {entries : Table Json} {value : Json}

/-- What follows a part fails as it does on this part. -/
theorem part_bind_eq_infinite_iff {next : Json → Except Unreadable β}
    : (part key entries >>= next) = .error .infinite
      ↔ ∃ value, entries.get? key = some value ∧ next value = .error .infinite := by
  simp only [bind_eq_error_iff, part_ne_infinite, false_or, part_eq_ok_iff]

/-- What follows a pair fails as it does on its two parts. -/
theorem pair_bind_eq_infinite_iff {next : Json × Json → Except Unreadable β}
    : (pair value >>= next) = .error .infinite
      ↔ ∃ first second, Splits value first second ∧ next (first, second) = .error .infinite := by
  simp only [bind_eq_error_iff, pair_ne_infinite, false_or, Prod.exists, pair_eq_ok_iff]

/-- A number is infinite, or what follows fails as it does on this number. -/
theorem wholeNumber_bind_eq_infinite_iff {next : Int → Except Unreadable β}
    : (wholeNumber value >>= next) = .error .infinite
      ↔ (∃ negative, value = .float (.infinite negative))
        ∨ ∃ n, Counts value n ∧ next n = .error .infinite := by
  simp only [bind_eq_error_iff, wholeNumber_eq_infinite_iff, wholeNumber_eq_ok_iff]

end Failing

/-- Reading an object as a fix is a failure exactly if an infinite coordinate is met on the way. -/
theorem unpack_eq_infinite_iff {entries : Table Json}
    : unpack entries = .error .infinite ↔ Overflows (.obj entries) := by
  have done (fix : Fix) : (pure fix : Except Unreadable Fix) ≠ .error .infinite := nofun
  have nothing : ¬ MeetsInfinite [] := nofun
  simp only [unpack, part_bind_eq_infinite_iff, pair_bind_eq_infinite_iff,
    wholeNumber_bind_eq_infinite_iff, done, Overflows, meetsInfinite_cons_iff, nothing, and_false,
    exists_const]
  constructor
  · intro read
    obtain ⟨start, started, row, column, begins, stop, stopped, stopRow, stopColumn, ends, file,
      named, meets⟩ := read
    exact ⟨row, column, stopRow, stopColumn, ⟨⟨start, started, begins⟩, ⟨stop, stopped, ends⟩⟩,
      Option.isSome_of_eq_some named, meets⟩
  · intro overflows
    obtain ⟨row, column, stopRow, stopColumn, ⟨⟨start, started, begins⟩, ⟨stop, stopped, ends⟩⟩,
      there, meets⟩ := overflows
    obtain ⟨file, named⟩ := Option.isSome_iff_exists.mp there
    exact ⟨start, started, row, column, begins, stop, stopped, stopRow, stopColumn, ends, file,
      named, meets⟩

-----------------------------------------------------------------------------------------
-- Data that comes back
-----------------------------------------------------------------------------------------

variable {data value : Json} {fix stored : Fix} {failure : Failure}

/-- Only an object has entries. -/
theorem exists_entries_of_get? {key : String} {part : Json} (there : value.get? key = some part)
    : ∃ entries, value = .obj entries := by
  cases value with
  | obj entries => exact ⟨entries, rfl⟩
  | _ => cases there

/-- Only an object is taken for a fix. -/
theorem Reads.exists_entries (reads : Reads value fix) : ∃ entries, value = .obj entries := by
  obtain ⟨_, named, _⟩ := reads.file
  exact exists_entries_of_get? named

/-- Only an object is about to be taken for one. -/
theorem Overflows.exists_entries (overflows : Overflows value)
    : ∃ entries, value = .obj entries := by
  obtain ⟨_, _, _, _, coordinates, _⟩ := overflows
  obtain ⟨_, started, _⟩ := coordinates.start
  exact exists_entries_of_get? started

/-- What holds of objects only holds of what data keeps if that has entries. -/
theorem exists_kept_iff {p : Json → Prop}
    (objects : ∀ value, p value → ∃ entries, value = .obj entries)
    (kept : Option Json)
    : (∃ value, kept = some value ∧ p value)
      ↔ ∃ entries, kept.bind Json.entries? = some entries ∧ p (.obj entries) := by
  constructor
  · intro given
    obtain ⟨value, rfl, holds⟩ := given
    obtain ⟨entries, rfl⟩ := objects value holds
    exact ⟨entries, rfl, holds⟩
  · intro given
    obtain ⟨entries, found, holds⟩ := given
    obtain ⟨value, rfl, isObject⟩ := Option.bind_eq_some_iff.mp found
    cases value with
    | obj others =>
        obtain rfl := Option.some.inj isObject
        exact ⟨_, rfl, holds⟩
    | _ => cases isObject

/-- Data is taken for a fix exactly if what it keeps under its key is. -/
theorem ofData_eq_some_iff
    : ofData data = .ok (some fix) ↔ IsGiven Reads (data.get? dataKey) fix := by
  simp only [IsGiven, exists_kept_iff (fun _ => Reads.exists_entries), ← unpack_eq_ok_iff, ofData]
  cases (data.get? dataKey).bind Json.entries? with
  | none => simp
  | some entries =>
      simp only [Option.some.injEq, exists_eq_left']
      rcases unpack entries with (_ | _) | _ <;> simp

/-- It is a failure exactly if there is an infinite coordinate on the way. -/
theorem ofData_eq_error_iff
    : ofData data = .error failure
      ↔ failure = .infiniteNumber ∧ ∃ value ∈ data.get? dataKey, Overflows value := by
  simp only [Option.mem_def, exists_kept_iff (fun _ => Overflows.exists_entries),
    ← unpack_eq_infinite_iff, ofData]
  cases (data.get? dataKey).bind Json.entries? with
  | none => simp
  | some entries =>
      simp only [Option.some.injEq, exists_eq_left']
      rcases unpack entries with (_ | _) | _ <;> simp [eq_comm]

/-- Packed coordinates count as the numbers that they stand for. -/
theorem counts_toJson (c : Coord) : Counts c.toJson c.value := by
  cases c with
  | int n => exact .int n
  | flag b => exact .flag b

/-- And as no others. -/
theorem eq_of_counts_toJson {c : Coord} {n : Int} (counts : Counts c.toJson n) : n = c.value := by
  cases c <;> cases counts <;> rfl

/-- None of them is infinite. -/
theorem not_meetsInfinite_map (coordinates : List Coord)
    : ¬ MeetsInfinite (coordinates.map Coord.toJson) := by
  induction coordinates with
  | nil => nofun
  | cons c rest ih =>
      rw [List.map_cons, meetsInfinite_cons_iff]
      intro meets
      rcases meets with ⟨negative, infinite⟩ | ⟨_, _, more⟩
      · cases c <;> cases infinite
      · exact ih more

/-- A packed position is taken for a position. -/
theorem isPlace_packPosition (p : Position) : IsPlace (packPosition p) p.plain :=
  .intro (.items _ _) (counts_toJson p.row) (counts_toJson p.column)

/-- What was packed is taken for a fix as it was, with numbers as coordinates. -/
theorem Packs.reads (packs : Packs value stored) : Reads value stored.plain where
  file := ⟨_, packs.file, rfl⟩
  start := ⟨_, packs.start, isPlace_packPosition _⟩
  stop := ⟨_, packs.stop, isPlace_packPosition _⟩
  content := ⟨_, packs.content, rfl⟩

/-- So a fix that is stored is unpacked. -/
theorem ofData_of_isStored (isStored : IsStored data stored)
    : ofData data = .ok (some stored.plain) := by
  obtain ⟨value, there, packs⟩ := isStored
  exact ofData_eq_some_iff.mpr ⟨value, there, packs.reads⟩

/-- And so is one that has been packed. -/
theorem isStored_toData (fix : Fix) : IsStored fix.toData fix :=
  ⟨fix.pack, rfl, rfl, rfl, rfl, rfl⟩

/-- An array counts as a pair if it has two items. -/
theorem splits_arr_iff {items : List Json} {first second : Json}
    : Splits (.arr items) first second ↔ items = [first, second] := by
  constructor
  · intro splits
    cases splits
    rfl
  · intro two
    exact two ▸ .items first second

/-- The two parts of a pair of packed coordinates are packed coordinates. -/
theorem exists_coords_of_splits {part first second : Json}
    (coords : ∃ items : List Coord, part = .arr (items.map Coord.toJson))
    (splits : Splits part first second)
    : ∃ row column : Coord,
        part = packPosition ⟨row, column⟩ ∧ first = row.toJson ∧ second = column.toJson := by
  obtain ⟨items, rfl⟩ := coords
  obtain ⟨row, rest, rfl, rfl, others⟩ := List.map_eq_cons_iff.mp (splits_arr_iff.mp splits)
  obtain ⟨column, none, rfl, rfl, last⟩ := List.map_eq_cons_iff.mp others
  obtain rfl := List.map_eq_nil_iff.mp last
  exact ⟨row, column, rfl, rfl, rfl⟩

/-- Packed coordinates are taken for a position only if one was packed. -/
theorem IsPlace.exists_packPosition {part : Json} {p : Position} (place : IsPlace part p)
    (coords : ∃ items : List Coord, part = .arr (items.map Coord.toJson))
    : ∃ stored : Position, part = packPosition stored ∧ p = stored.plain := by
  obtain ⟨splits, first, second⟩ := place
  obtain ⟨row, column, rfl, rfl, rfl⟩ := exists_coords_of_splits coords splits
  obtain rfl := eq_of_counts_toJson first
  obtain rfl := eq_of_counts_toJson second
  exact ⟨⟨row, column⟩, rfl, rfl⟩

/-- Where the parts are of the kinds that are stored, only what is stored is taken for a fix. -/
theorem Reads.exists_packs (reads : Reads value fix) (proper : Proper value)
    : ∃ stored, Packs value stored ∧ fix = stored.plain := by
  obtain ⟨name, ⟨_, _⟩, text⟩ := fix
  obtain ⟨_, started, begins⟩ := reads.start
  obtain ⟨start, rfl, rfl⟩ := begins.exists_packPosition (proper.start _ started)
  obtain ⟨_, stopped, ends⟩ := reads.stop
  obtain ⟨stop, rfl, rfl⟩ := ends.exists_packPosition (proper.stop _ stopped)
  obtain ⟨_, named, rfl⟩ := reads.file
  obtain ⟨file, rfl⟩ := proper.file _ named
  obtain ⟨_, told, rfl⟩ := reads.content
  obtain ⟨content, rfl⟩ := proper.content _ told
  exact ⟨⟨file, ⟨start, stop⟩, content⟩, ⟨named, started, stopped, told⟩, rfl⟩

/-- And nothing fails. -/
theorem Proper.not_overflows (proper : Proper value) : ¬ Overflows value := by
  intro overflows
  obtain ⟨_, _, _, _, ⟨⟨_, started, begins⟩, ⟨_, stopped, ends⟩⟩, _, meets⟩ := overflows
  obtain ⟨row, column, _, rfl, rfl⟩ := exists_coords_of_splits (proper.start _ started) begins
  obtain ⟨stopRow, stopColumn, _, rfl, rfl⟩ := exists_coords_of_splits (proper.stop _ stopped) ends
  exact not_meetsInfinite_map [row, column, stopRow, stopColumn] meets

/-- What is made of data that comes back. It is taken for a fix exactly if each part of a fix can be
made of what is kept under its key, and is a failure exactly if an infinite coordinate is met on the
way. Where the parts are of the kinds that are stored, nothing fails, and exactly the stored fixes
are unpacked.
-/
theorem ofData_recovers (data : Json)
    : (∀ fix, ofData data = .ok (some fix) ↔ IsGiven Reads (data.get? dataKey) fix)
      ∧ (∀ failure,
          ofData data = .error failure
          ↔ failure = .infiniteNumber ∧ ∃ value ∈ data.get? dataKey, Overflows value)
      ∧ ((∀ value ∈ data.get? dataKey, Proper value)
        → (∃ fix?, ofData data = .ok fix?)
          ∧ ∀ fix,
              ofData data = .ok (some fix)
              ↔ ∃ stored, IsStored data stored ∧ fix = stored.plain) := by
  refine ⟨fun _ => ofData_eq_some_iff, fun _ => ofData_eq_error_iff, ?_⟩
  intro proper
  constructor
  · cases result : ofData data with
    | ok fix? => exact ⟨fix?, rfl⟩
    | error failure =>
        obtain ⟨_, value, there, overflows⟩ := ofData_eq_error_iff.mp result
        exact absurd overflows (proper value there).not_overflows
  · intro fix
    constructor
    · intro read
      obtain ⟨value, there, reads⟩ := ofData_eq_some_iff.mp read
      obtain ⟨stored, packs, same⟩ := reads.exists_packs (proper value there)
      exact ⟨stored, ⟨value, there, packs⟩, same⟩
    · intro given
      obtain ⟨stored, isStored, rfl⟩ := given
      exact ofData_of_isStored isStored

/-- Data of a fix with some of its parts. -/
def dataWith (file content row : Json) : Json :=
  .obj [(dataKey, .obj [("file", file), ("start", .arr [row, .int 0]),
    ("end", .arr [.int 1, .int 0]), ("content", content)])]

/-- A content or a file that is null is taken for a text, and a row that is infinite is a failure,
although no fix is stored so.
-/
theorem ofData_of_null
    : ofData (dataWith (.str "/a.py") .null (.int 0))
        = .ok (some ⟨"/a.py", ⟨⟨.int 0, .int 0⟩, ⟨.int 1, .int 0⟩⟩, "None"⟩)
      ∧ ofData (dataWith .null (.str "") (.str " 0_1 "))
        = .ok (some ⟨"None", ⟨⟨.int 1, .int 0⟩, ⟨.int 1, .int 0⟩⟩, ""⟩)
      ∧ ofData (dataWith (.str "/a.py") (.str "") (.float (.infinite false)))
        = .error .infiniteNumber := by
  decide +kernel

end Fix

end EditorLint
