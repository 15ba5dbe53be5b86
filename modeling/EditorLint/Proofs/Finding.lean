import EditorLint.Finding
import EditorLint.Proofs.Outcome

/-! What a report says, told by the entries of its items and not by how they are read: which items
are well-formed, and the finding that each of them stands for.
-/

namespace EditorLint

-----------------------------------------------------------------------------------------
-- Well-formed items
-----------------------------------------------------------------------------------------

/-- A value stands for a position: its row and its column are whole numbers. -/
def IsPosition (value : Json) (position : Position) : Prop :=
  value.get? "row" = some position.row.toJson ∧ value.get? "column" = some position.column.toJson

/-- An entry is there and stands for something. -/
def IsGiven {α : Type} (stands : Json → α → Prop) (entry : Option Json) (meant : α) : Prop :=
  ∃ value, entry = some value ∧ stands value meant

/-- An entry stands for something, or is absent or null and stands for nothing. -/
def IsOptional {α : Type} (stands : Json → α → Prop) (entry : Option Json) : Option α → Prop
  | none => entry = none ∨ entry = some .null
  | some meant => IsGiven stands entry meant

/-- A value stands for a suggested fix: it has a text and two positions. -/
structure IsFix (value : Json) (fix : SuggestedFix) : Prop where
  content : value.get? "content" = some (.str fix.content)
  start : IsGiven IsPosition (value.get? "location") fix.start
  stop : IsGiven IsPosition (value.get? "end_location") fix.stop

/-- An item is well-formed and stands for a finding. What other entries it has does not matter. -/
structure Describes (item : Json) (finding : Finding) : Prop where
  code
    : item.get? "code" = some (.str finding.code)
      ∨ (item.get? "code" = some .null ∧ finding.code = "")
  text : item.get? "message" = some (.str finding.text)
  start : IsGiven IsPosition (item.get? "location") finding.start
  stop : IsGiven IsPosition (item.get? "end_location") finding.stop
  file : IsOptional (fun value file => value = .str file) (item.get? "filename") finding.file
  fix : IsOptional IsFix (item.get? "fix") finding.fix

-----------------------------------------------------------------------------------------
-- Reading items
-----------------------------------------------------------------------------------------

/-- An entry is read as a row or a column if it is one. -/
theorem bind_ofJson?_eq_some_iff {entry : Option Json} {coord : Coord}
    : entry.bind Coord.ofJson? = some coord ↔ entry = some coord.toJson := by
  cases entry with
  | none => simp
  | some value => cases coord <;> cases value <;> simp [Coord.ofJson?, Coord.toJson]

/-- An entry is read as a text if it is one. -/
theorem bind_text?_eq_some_iff {entry : Option Json} {text : String}
    : entry.bind Json.text? = some text ↔ entry = some (.str text) := by
  cases entry with
  | none => simp
  | some value => cases value <;> simp [Json.text?]

namespace Finding

/-- A position is read where there is one. -/
theorem position_eq_ok_iff {field : String} {entry : Option Json} {place : Position}
    : position field entry = .ok place ↔ IsGiven IsPosition entry place := by
  cases entry with
  | none => simp [position, IsGiven]
  | some value =>
      cases value with
      | null | bool | int | float | str | arr =>
          simp [position, IsGiven, IsPosition, Json.get?, Json.entries?]
      | obj entries =>
          simp only [IsGiven, Option.some.injEq, exists_eq_left', IsPosition,
            ← bind_ofJson?_eq_some_iff]
          simp only [position, Json.get?, Json.entries?, Option.bind_some]
          obtain ⟨row, column⟩ := place
          cases (Table.get? entries "row").bind Coord.ofJson? with
          | none => simp
          | some first => cases (Table.get? entries "column").bind Coord.ofJson? <;> simp

/-- A value that is not null is read as a suggested fix by its text and its two positions. -/
theorem suggestedFix_eq_ok_iff_of_ne_null {value : Json} (notNull : value ≠ .null)
    {fix : Option SuggestedFix}
    : suggestedFix (some value) = .ok fix ↔ ∃ meant, fix = some meant ∧ IsFix value meant := by
  cases given : (value.get? "content").bind Json.text? with
  | none =>
      have reads : suggestedFix (some value) = .error (.badFix value) := by
        cases value <;> first | exact (notNull rfl).elim | simp only [suggestedFix, given]
      rw [reads]
      constructor
      · intro read
        cases read
      · intro described
        obtain ⟨meant, _, isFix⟩ := described
        rw [bind_text?_eq_some_iff.mpr isFix.content] at given
        cases given
  | some content =>
      have reads : suggestedFix (some value)
          = (position "fix.location" (value.get? "location")).bind fun start =>
              (position "fix.end_location" (value.get? "end_location")).bind fun stop =>
                .ok (some ⟨content, start, stop⟩) := by
        cases value <;> first | exact (notNull rfl).elim | (simp only [suggestedFix, given]; rfl)
      rw [reads]
      constructor
      · intro read
        obtain ⟨start, begins, more⟩ := bind_eq_ok_iff.mp read
        obtain ⟨stop, ends, same⟩ := bind_eq_ok_iff.mp more
        refine ⟨⟨content, start, stop⟩, (Except.ok.inj same).symm, ?_⟩
        exact ⟨bind_text?_eq_some_iff.mp given, position_eq_ok_iff.mp begins,
          position_eq_ok_iff.mp ends⟩
      · intro described
        obtain ⟨meant, rfl, text, start, stop⟩ := described
        obtain rfl := Option.some.inj (given.symm.trans (bind_text?_eq_some_iff.mpr text))
        exact bind_eq_ok_iff.mpr ⟨_, position_eq_ok_iff.mpr start,
          bind_eq_ok_iff.mpr ⟨_, position_eq_ok_iff.mpr stop, rfl⟩⟩

/-- A suggested fix is read where there is one, and none where there is nothing or null. -/
theorem suggestedFix_eq_ok_iff {entry : Option Json} {fix : Option SuggestedFix}
    : suggestedFix entry = .ok fix ↔ IsOptional IsFix entry fix := by
  cases entry with
  | none => cases fix <;> simp [suggestedFix, IsOptional, IsGiven]
  | some value =>
      by_cases null : value = .null
      · subst null
        have noFix (meant : SuggestedFix) : ¬ IsFix .null meant := fun fix => nomatch fix.content
        cases fix <;> simp [suggestedFix, IsOptional, IsGiven, noFix]
      · rw [suggestedFix_eq_ok_iff_of_ne_null null]
        cases fix <;> simp [IsOptional, IsGiven, null]

/-- The name of a file is read where there is one, and none where there is nothing or null. -/
theorem file?_eq_ok_iff {entry : Option Json} {file : Option String}
    : file? entry = .ok file ↔ IsOptional (fun value file => value = .str file) entry file := by
  cases entry with
  | none => cases file <;> simp [file?, IsOptional, IsGiven]
  | some value => cases value <;> cases file <;> simp [file?, IsOptional, IsGiven]

/-- A rule code is a text, and null stands for the empty one. -/
theorem code?_eq_some_iff {value : Json} {code : String}
    : code? value = some code ↔ value = .str code ∨ (value = .null ∧ code = "") := by
  cases value <;> simp [code?, Json.text?, eq_comm]

/-- An item is read as a finding exactly if it is well-formed and stands for it. -/
theorem ofJson_eq_ok_iff {item : Json} {finding : Finding}
    : ofJson item = .ok finding ↔ Describes item finding := by
  cases item with
  | null | bool | int | float | str | arr =>
      exact ⟨nofun, fun describes => nomatch describes.text⟩
  | obj entries =>
      constructor
      · intro read
        simp only [ofJson] at read
        split at read
        next => cases read
        next code there =>
          split at read
          next named told =>
            obtain ⟨file, filed, read⟩ := bind_eq_ok_iff.mp read
            obtain ⟨start, begins, read⟩ := bind_eq_ok_iff.mp read
            obtain ⟨stop, ends, read⟩ := bind_eq_ok_iff.mp read
            obtain ⟨fix, fixed, read⟩ := bind_eq_ok_iff.mp read
            obtain rfl := Except.ok.inj read
            exact {
              code := by
                rcases code?_eq_some_iff.mp named with rfl | ⟨rfl, empty⟩
                · exact Or.inl there
                · exact Or.inr ⟨there, empty⟩
              text := bind_text?_eq_some_iff.mp told
              start := position_eq_ok_iff.mp begins
              stop := position_eq_ok_iff.mp ends
              file := file?_eq_ok_iff.mp filed
              fix := suggestedFix_eq_ok_iff.mp fixed
            }
          next => cases read
      · intro describes
        obtain ⟨code, there, named⟩
            : ∃ code, Table.get? entries "code" = some code ∧ code? code = some finding.code := by
          rcases describes.code with text | ⟨null, empty⟩
          · exact ⟨_, text, code?_eq_some_iff.mpr (Or.inl rfl)⟩
          · exact ⟨_, null, code?_eq_some_iff.mpr (Or.inr ⟨rfl, empty⟩)⟩
        have told : (Table.get? entries "message").bind Json.text? = some finding.text :=
          bind_text?_eq_some_iff.mpr describes.text
        simp only [ofJson, there, named, told]
        apply bind_eq_ok_iff.mpr
        refine ⟨_, file?_eq_ok_iff.mpr describes.file, bind_eq_ok_iff.mpr ?_⟩
        refine ⟨_, position_eq_ok_iff.mpr describes.start, bind_eq_ok_iff.mpr ?_⟩
        refine ⟨_, position_eq_ok_iff.mpr describes.stop, bind_eq_ok_iff.mpr ?_⟩
        exact ⟨_, suggestedFix_eq_ok_iff.mpr describes.fix, rfl⟩

/-- A report is read exactly if it is an array of well-formed items, and gives what these stand
for, in order.
-/
theorem ofReport_eq_ok_iff {text : String} {findings : List Finding}
    : ofReport text = .ok findings
      ↔ ∃ items, Json.read text = .ok (.arr items) ∧ List.Forall₂ Describes items findings := by
  have alike (items : List Json)
      : items.mapM ofJson = .ok findings ↔ List.Forall₂ Describes items findings := by
    simp only [mapM_eq_ok_iff, ofJson_eq_ok_iff]
  simp only [← alike]
  unfold ofReport
  constructor
  · intro read
    split at read
    next => cases read
    next => cases read
    next items json =>
      split at read
      next found done =>
        obtain rfl := Except.ok.inj read
        exact ⟨items, json, done⟩
      next => cases read
    next => cases read
  · intro given
    obtain ⟨items, json, done⟩ := given
    simp only [json, done]

/-- A report that is not read is at fault, or beyond the limits of the reader. -/
theorem ofReport_error_cases {text : String} {failure : Failure}
    (unread : ofReport text = .error failure)
    : (∃ fault, failure = .tool (.badReport fault) none)
      ∨ ∃ fault, failure = .reportLimit fault := by
  unfold ofReport at unread
  split at unread
  · exact Or.inl ⟨_, (Except.error.inj unread).symm⟩
  · exact Or.inr ⟨_, (Except.error.inj unread).symm⟩
  · split at unread
    · cases unread
    · exact Or.inl ⟨_, (Except.error.inj unread).symm⟩
  · exact Or.inl ⟨_, (Except.error.inj unread).symm⟩

end Finding

end EditorLint
