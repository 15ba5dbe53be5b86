import EditorLint.Proofs.Finding
import EditorLint.Proofs.Json.RoundTrip

/-! Which reports are read. A report is an array of items whose entries are of the right kinds; one
that is not is at fault as a whole. Other entries of the objects, and the order of the entries, make
no difference.
-/

namespace EditorLint

-----------------------------------------------------------------------------------------
-- The kinds of entries
-----------------------------------------------------------------------------------------

/-- A whole number. A truth value counts as one. -/
def IsWhole : Json → Prop
  | .int _ | .bool _ => True
  | _ => False

def IsText : Json → Prop
  | .str _ => True
  | _ => False

/-- An object with a row and a column. -/
structure IsPlace (value : Json) : Prop where
  row : ∃ row ∈ value.get? "row", IsWhole row
  column : ∃ column ∈ value.get? "column", IsWhole column

/-- An object with a text and the two ends of the part that it replaces. -/
structure IsReplacement (value : Json) : Prop where
  content : ∃ content ∈ value.get? "content", IsText content
  start : ∃ start ∈ value.get? "location", IsPlace start
  stop : ∃ stop ∈ value.get? "end_location", IsPlace stop

/-- An object with a rule code or null in its place, a text and two places. The name of a file and a
replacement may be there, absent or null.
-/
structure IsItem (item : Json) : Prop where
  code : ∃ code ∈ item.get? "code", code = .null ∨ IsText code
  text : ∃ text ∈ item.get? "message", IsText text
  start : ∃ start ∈ item.get? "location", IsPlace start
  stop : ∃ stop ∈ item.get? "end_location", IsPlace stop
  file : ∀ file ∈ item.get? "filename", file = .null ∨ IsText file
  fix : ∀ fix ∈ item.get? "fix", fix = .null ∨ IsReplacement fix

section Kinds

variable {α : Type} {kind : Json → Prop} {stands : Json → α → Prop} {entry : Option Json}

/-- Values of a kind are those that stand for something. -/
def IsKindOf (kind : Json → Prop) (stands : Json → α → Prop) : Prop :=
  ∀ value, kind value ↔ ∃ meant, stands value meant

/-- So an entry of the kind stands for something. -/
theorem IsKindOf.exists_isGiven_iff (isKind : IsKindOf kind stands)
    : (∃ value ∈ entry, kind value) ↔ ∃ meant, IsGiven stands entry meant := by
  simp only [isKind _, IsGiven, Option.mem_def]
  constructor
  · intro given
    obtain ⟨value, there, meant, means⟩ := given
    exact ⟨meant, value, there, means⟩
  · intro given
    obtain ⟨meant, value, there, means⟩ := given
    exact ⟨value, there, meant, means⟩

/-- And an entry that may be of the kind stands for something or for nothing. -/
theorem IsKindOf.exists_isOptional_iff (isKind : IsKindOf kind stands)
    : (∀ value ∈ entry, value = .null ∨ kind value) ↔ ∃ meant, IsOptional stands entry meant := by
  cases entry with
  | none => simpa using ⟨none, Or.inl rfl⟩
  | some value =>
      simp only [Option.mem_some, forall_eq', isKind value]
      constructor
      · intro given
        rcases given with null | ⟨meant, means⟩
        · exact ⟨none, Or.inr (congrArg some null)⟩
        · exact ⟨some meant, value, rfl, means⟩
      · intro given
        obtain ⟨_ | meant, means⟩ := given
        · exact Or.inl (by simpa [IsOptional] using means)
        · obtain ⟨_, same, means⟩ := means
          exact Or.inr ⟨meant, Option.some.inj same ▸ means⟩

end Kinds

theorem isKindOf_text : IsKindOf IsText fun value (text : String) => value = .str text := by
  intro value
  cases value <;> simp [IsText]

theorem isKindOf_whole : IsKindOf IsWhole fun value (coord : Coord) => value = coord.toJson := by
  intro value
  constructor
  · intro whole
    cases value with
    | int n => exact ⟨.int n, rfl⟩
    | bool b => exact ⟨.flag b, rfl⟩
    | null | float | str | arr | obj => cases whole
  · intro given
    obtain ⟨coord, rfl⟩ := given
    cases coord <;> trivial

theorem isKindOf_place : IsKindOf IsPlace IsPosition := by
  intro value
  constructor
  · intro place
    obtain ⟨row, _, first, rfl⟩ := isKindOf_whole.exists_isGiven_iff.mp place.row
    obtain ⟨column, _, second, rfl⟩ := isKindOf_whole.exists_isGiven_iff.mp place.column
    exact ⟨⟨row, column⟩, first, second⟩
  · intro given
    obtain ⟨position, first, second⟩ := given
    exact {
      row := isKindOf_whole.exists_isGiven_iff.mpr ⟨_, _, first, rfl⟩
      column := isKindOf_whole.exists_isGiven_iff.mpr ⟨_, _, second, rfl⟩
    }

theorem isKindOf_replacement : IsKindOf IsReplacement IsFix := by
  intro value
  constructor
  · intro replacement
    obtain ⟨content, _, told, rfl⟩ := isKindOf_text.exists_isGiven_iff.mp replacement.content
    obtain ⟨start, begins⟩ := isKindOf_place.exists_isGiven_iff.mp replacement.start
    obtain ⟨stop, ends⟩ := isKindOf_place.exists_isGiven_iff.mp replacement.stop
    exact ⟨⟨content, start, stop⟩, told, begins, ends⟩
  · intro given
    obtain ⟨fix, told, begins, ends⟩ := given
    exact {
      content := isKindOf_text.exists_isGiven_iff.mpr ⟨_, _, told, rfl⟩
      start := isKindOf_place.exists_isGiven_iff.mpr ⟨_, begins⟩
      stop := isKindOf_place.exists_isGiven_iff.mpr ⟨_, ends⟩
    }

/-- Items of the right kinds are those that stand for a finding. -/
theorem isKindOf_item : IsKindOf IsItem Describes := by
  intro item
  constructor
  · intro isItem
    obtain ⟨code, there, kind⟩ := isItem.code
    obtain ⟨text, _, told, rfl⟩ := isKindOf_text.exists_isGiven_iff.mp isItem.text
    obtain ⟨start, begins⟩ := isKindOf_place.exists_isGiven_iff.mp isItem.start
    obtain ⟨stop, ends⟩ := isKindOf_place.exists_isGiven_iff.mp isItem.stop
    obtain ⟨file, filed⟩ := isKindOf_text.exists_isOptional_iff.mp isItem.file
    obtain ⟨fix, fixed⟩ := isKindOf_replacement.exists_isOptional_iff.mp isItem.fix
    rcases kind with rfl | named
    · exact ⟨⟨"", text, start, stop, file, fix⟩,
        Or.inr ⟨there, rfl⟩, told, begins, ends, filed, fixed⟩
    · obtain ⟨name, rfl⟩ := (isKindOf_text code).mp named
      exact ⟨⟨name, text, start, stop, file, fix⟩,
        Or.inl there, told, begins, ends, filed, fixed⟩
  · intro given
    obtain ⟨finding, describes⟩ := given
    exact {
      code := by
        rcases describes.code with named | ⟨null, _⟩
        · exact ⟨_, named, Or.inr trivial⟩
        · exact ⟨_, null, Or.inl rfl⟩
      text := isKindOf_text.exists_isGiven_iff.mpr ⟨_, _, describes.text, rfl⟩
      start := isKindOf_place.exists_isGiven_iff.mpr ⟨_, describes.start⟩
      stop := isKindOf_place.exists_isGiven_iff.mpr ⟨_, describes.stop⟩
      file := isKindOf_text.exists_isOptional_iff.mpr ⟨_, describes.file⟩
      fix := isKindOf_replacement.exists_isOptional_iff.mpr ⟨_, describes.fix⟩
    }

-----------------------------------------------------------------------------------------
-- Other entries
-----------------------------------------------------------------------------------------

/-- Two objects have the same row and the same column, whatever else they have. -/
structure SamePlace (value other : Json) : Prop where
  row : value.get? "row" = other.get? "row"
  column : value.get? "column" = other.get? "column"

/-- Two objects have the same entries of a replacement, whatever else they have. -/
structure SameReplacement (value other : Json) : Prop where
  null : value = .null ↔ other = .null
  content : value.get? "content" = other.get? "content"
  start : Option.Rel SamePlace (value.get? "location") (other.get? "location")
  stop : Option.Rel SamePlace (value.get? "end_location") (other.get? "end_location")

/-- Two objects have the same entries of an item, whatever else they have. -/
structure SameItem (item other : Json) : Prop where
  code : item.get? "code" = other.get? "code"
  text : item.get? "message" = other.get? "message"
  start : Option.Rel SamePlace (item.get? "location") (other.get? "location")
  stop : Option.Rel SamePlace (item.get? "end_location") (other.get? "end_location")
  file : item.get? "filename" = other.get? "filename"
  fix : Option.Rel SameReplacement (item.get? "fix") (other.get? "fix")

section Alike

variable {α : Type} {alike : Json → Json → Prop} {stands : Json → α → Prop}
  {entry other : Option Json}

/-- Values that are alike stand for the same. -/
def Keeps (alike : Json → Json → Prop) (stands : Json → α → Prop) : Prop :=
  ∀ value other meant, alike value other → stands value meant → stands other meant

/-- So entries that are alike stand for the same. -/
theorem Keeps.isGiven (keeps : Keeps alike stands) (same : Option.Rel alike entry other) {meant : α}
    (given : IsGiven stands entry meant)
    : IsGiven stands other meant := by
  obtain ⟨value, rfl, means⟩ := given
  cases same with
  | some same => exact ⟨_, rfl, keeps _ _ _ same means⟩

/-- And they stand for nothing alike, if only null is like null. -/
theorem Keeps.isOptional (keeps : Keeps alike stands)
    (null : ∀ value other, alike value other → value = .null → other = .null)
    (same : Option.Rel alike entry other) {meant : Option α} (given : IsOptional stands entry meant)
    : IsOptional stands other meant := by
  cases meant with
  | some meant => exact keeps.isGiven same given
  | none =>
      cases same with
      | none => exact given
      | some same =>
          have nothing : some _ = some Json.null := given.resolve_left (by simp)
          exact Or.inr (congrArg some (null _ _ same (Option.some.inj nothing)))

/-- So lists of them stand for the same, by induction over the first one. -/
theorem Keeps.forall₂ (keeps : Keeps alike stands) {values others : List Json} {meanings : List α}
    (same : List.Forall₂ alike values others) (means : List.Forall₂ stands values meanings)
    : List.Forall₂ stands others meanings := by
  induction same generalizing meanings with
  | nil => exact means
  | cons first _ ih =>
      obtain ⟨meant, rest, here, more, rfl⟩ := List.forall₂_cons_left_iff.mp means
      exact .cons (keeps _ _ _ first here) (ih more)

end Alike

theorem keeps_isPosition : Keeps SamePlace IsPosition :=
  fun _ _ _ same place => ⟨same.row ▸ place.1, same.column ▸ place.2⟩

theorem keeps_isFix : Keeps SameReplacement IsFix :=
  fun _ _ _ same isFix => {
    content := same.content ▸ isFix.content
    start := keeps_isPosition.isGiven same.start isFix.start
    stop := keeps_isPosition.isGiven same.stop isFix.stop
  }

/-- Items with the same entries stand for the same finding. -/
theorem keeps_describes : Keeps SameItem Describes :=
  fun _ _ _ same describes => {
    code := same.code ▸ describes.code
    text := same.text ▸ describes.text
    start := keeps_isPosition.isGiven same.start describes.start
    stop := keeps_isPosition.isGiven same.stop describes.stop
    file := same.file ▸ describes.file
    fix := keeps_isFix.isOptional (fun _ _ same => same.null.mp) same.fix describes.fix
  }

-----------------------------------------------------------------------------------------
-- Reports
-----------------------------------------------------------------------------------------

namespace Finding

/-- Findings can be given for items exactly if each of them has entries of the right kinds. -/
theorem exists_forall₂_describes_iff {items : List Json}
    : (∃ findings, List.Forall₂ Describes items findings) ↔ ∀ item ∈ items, IsItem item := by
  have read : (∃ findings, items.mapM ofJson = .ok findings) ↔ _ := exists_mapM_eq_ok_iff
  simpa only [mapM_eq_ok_iff, ofJson_eq_ok_iff, ← isKindOf_item _] using read

/-- Only text beyond the limits of the reader is a failure of its own. -/
theorem read_of_reportLimit {text : String} {fault : Json.Fault}
    (unread : ofReport text = .error (.reportLimit fault))
    : Json.read text = .error fault ∧ ∀ what offset, fault ≠ .malformed what offset := by
  unfold ofReport at unread
  split at unread
  next => cases unread
  next other beyond refused =>
    obtain rfl := Failure.reportLimit.inj (Except.error.inj unread)
    exact ⟨refused, beyond⟩
  next =>
    split at unread
    · cases unread
    · cases unread
  next => cases unread

/-- A report is read exactly if it is an array of items, each of which has entries of the right
kinds. Then it gives what its items stand for, in order, and so does a report with the same entries
in its items. A report that is not read is at fault, if its text is within the limits of the reader.
-/
theorem ofReport_grammar {text : String}
    (within
      : ∀ fault, Json.read text = .error fault → ∃ what offset, fault = .malformed what offset)
    : ((∃ findings, ofReport text = .ok findings)
        ↔ ∃ items, Json.read text = .ok (.arr items) ∧ ∀ item ∈ items, IsItem item)
      ∧ (∀ items findings,
          Json.read text = .ok (.arr items)
          → ofReport text = .ok findings
          → List.Forall₂ Describes items findings
            ∧ ∀ other others,
                Json.read other = .ok (.arr others)
                → List.Forall₂ SameItem items others
                → ofReport other = .ok findings)
      ∧ ∀ failure,
          ofReport text = .error failure
          → failure.kind = .toolOutput ∧ ∃ fault, failure = .tool (.badReport fault) none := by
  refine ⟨?_, ?_, ?_⟩
  · simp only [ofReport_eq_ok_iff, ← exists_forall₂_describes_iff]
    constructor
    · intro given
      obtain ⟨findings, items, read, described⟩ := given
      exact ⟨items, read, findings, described⟩
    · intro given
      obtain ⟨items, read, findings, described⟩ := given
      exact ⟨findings, items, read, described⟩
  · intro items findings read accepted
    obtain ⟨_, again, described⟩ := ofReport_eq_ok_iff.mp accepted
    obtain ⟨rfl⟩ := read.symm.trans again
    refine ⟨described, ?_⟩
    intro other others read alike
    exact ofReport_eq_ok_iff.mpr ⟨others, read, keeps_describes.forall₂ alike described⟩
  · intro failure unread
    rcases ofReport_error_cases unread with ⟨fault, rfl⟩ | ⟨fault, rfl⟩
    · exact ⟨rfl, fault, rfl⟩
    · obtain ⟨refused, beyond⟩ := read_of_reportLimit unread
      obtain ⟨what, offset, malformed⟩ := within fault refused
      exact absurd malformed (beyond what offset)

/-- An item with null as its rule code, a truth value as a column, and no name of a file. -/
def briefItem : Json :=
  .obj [("code", .null), ("message", .str "m"),
    ("location", .obj [("row", .int 1), ("column", .bool true)]),
    ("end_location", .obj [("row", .int 2), ("column", .int 0)]),
    ("fix", .obj [("content", .str ""),
      ("location", .obj [("row", .int 1), ("column", .int 0)]),
      ("end_location", .obj [("row", .int 2), ("column", .int 0)])])]

/-- The same item in another order and with more entries. -/
def fullItem : Json :=
  .obj [("fix", .obj [("applicability", .str "safe"),
      ("end_location", .obj [("row", .int 2), ("column", .int 0)]),
      ("location", .obj [("row", .int 1), ("column", .int 0)]), ("content", .str "")]),
    ("location", .obj [("column", .bool true), ("offset", .int 7), ("row", .int 1)]),
    ("end_location", .obj [("row", .int 2), ("column", .int 0)]), ("cell", .null),
    ("message", .str "m"), ("code", .null)]

def briefFinding : Finding :=
  ⟨"", "m", ⟨.int 1, .flag true⟩, ⟨.int 2, .int 0⟩, none,
    some ⟨"", ⟨.int 1, .int 0⟩, ⟨.int 2, .int 0⟩⟩⟩

open Json (Printable) in
theorem printable_place (depth : Nat)
    : Printable (depth + 1) (.obj [("row", .int 1), ("column", .int 0)])
      ∧ Printable (depth + 1) (.obj [("row", .int 2), ("column", .int 0)]) := by
  refine ⟨.obj (by decide) ?_, .obj (by decide) ?_⟩ <;> simp only [List.forall_mem_cons]
  · exact ⟨.int (by decide), .int (by decide), by simp⟩
  · exact ⟨.int (by decide), .int (by decide), by simp⟩

open Json (Printable) in
theorem printable_briefItem (depth : Nat) : Printable (depth + 3) briefItem := by
  obtain ⟨_, last⟩ := printable_place (depth + 1)
  refine .obj (by decide) ?_
  simp only [List.forall_mem_cons]
  refine ⟨.null, .str _, .obj (by decide) ?_, last, .obj (by decide) ?_, by simp⟩
  · simp only [List.forall_mem_cons]
    exact ⟨.int (by decide), .bool _, by simp⟩
  · obtain ⟨first, last⟩ := printable_place depth
    simp only [List.forall_mem_cons]
    exact ⟨.str _, first, last, by simp⟩

open Json (Printable) in
theorem printable_fullItem (depth : Nat) : Printable (depth + 3) fullItem := by
  obtain ⟨_, last⟩ := printable_place (depth + 1)
  refine .obj (by decide) ?_
  simp only [List.forall_mem_cons]
  refine ⟨.obj (by decide) ?_, .obj (by decide) ?_, last, .null, .str _, .null, by simp⟩
  · obtain ⟨first, last⟩ := printable_place depth
    simp only [List.forall_mem_cons]
    exact ⟨.str _, last, first, .str _, by simp⟩
  · simp only [List.forall_mem_cons]
    exact ⟨.bool _, .int (by decide), .int (by decide), by simp⟩

/-- Both items are read alike. A text that ends too early is at fault. -/
theorem ofReport_grammar_of_fullItem
    : SameItem briefItem fullItem
      ∧ Json.read (Json.arr [briefItem]).print = .ok (.arr [briefItem])
      ∧ Json.read (Json.arr [fullItem]).print = .ok (.arr [fullItem])
      ∧ ofReport (Json.arr [briefItem]).print = .ok [briefFinding]
      ∧ ofReport (Json.arr [fullItem]).print = .ok [briefFinding]
      ∧ Json.read "[" = .error (.malformed .noValue 1)
      ∧ ¬ ∃ findings, ofReport "[" = .ok findings := by
  have same : SameItem briefItem fullItem := {
    code := rfl
    text := rfl
    start := .some ⟨rfl, rfl⟩
    stop := .some ⟨rfl, rfl⟩
    file := rfl
    fix := .some ⟨by decide, rfl, .some ⟨rfl, rfl⟩, .some ⟨rfl, rfl⟩⟩
  }
  have brief : Json.read (Json.arr [briefItem]).print = .ok (.arr [briefItem]) :=
    Json.read_print (.arr (List.forall_mem_singleton.mpr (printable_briefItem 986)))
  have full : Json.read (Json.arr [fullItem]).print = .ok (.arr [fullItem]) :=
    Json.read_print (.arr (List.forall_mem_singleton.mpr (printable_fullItem 986)))
  have cut : Json.read "[" = .error (.malformed .noValue 1) := by decide +kernel
  have accepted : ofReport (Json.arr [briefItem]).print = .ok [briefFinding] :=
    ofReport_eq_ok_iff.mpr ⟨_, brief, .cons (ofJson_eq_ok_iff.mp rfl) .nil⟩
  refine ⟨same, brief, full, accepted, ?_, cut, ?_⟩
  · have law := ofReport_grammar fun fault refused => nomatch brief.symm.trans refused
    exact (law.2.1 _ _ brief accepted).2 _ _ full (.cons same .nil)
  · have law := ofReport_grammar fun fault refused =>
      ⟨_, _, (Except.error.inj (cut.symm.trans refused)).symm⟩
    intro read
    obtain ⟨items, array, _⟩ := law.1.mp read
    exact nomatch cut.symm.trans array

end Finding

end EditorLint
