import EditorLint.Proofs.Editor.CodeAction

/-! How edits of several files are grouped. Each address has the edits of the fixes whose files it
names, in the order of these fixes. So edits of one address can only get in each other's way if
their fixes do, or if these name the file differently. No file of a fix is left out.
-/

namespace EditorLint.Editor

/-- A point in the order of lines and then of characters. -/
def Point.key (p : Point) : ℤ ×ₗ ℤ :=
  toLex (p.line.value, p.character.value)

/-- An edit starts where another one ends, or behind that. -/
def TextEdit.Follows (later earlier : TextEdit) : Prop :=
  earlier.range.stop.key ≤ later.range.start.key

instance (later earlier : TextEdit) : Decidable (later.Follows earlier) :=
  inferInstanceAs (Decidable (_ ≤ _))

-----------------------------------------------------------------------------------------
-- The edit of a fix
-----------------------------------------------------------------------------------------

/-- A coordinate within bounds is taken as it is. -/
theorem eq_of_bounded {axis : Axis} {c coord : Coord} (within : bounded axis c = .ok coord)
    : coord = c := by
  unfold bounded at within
  split at within <;> cases within
  rfl

/-- A point is where its coordinates say. -/
theorem Point.eq_of_of {line character : Coord} {point : Point}
    (made : Point.of line character = .ok point)
    : point = ⟨line, character⟩ := by
  obtain ⟨down, below, more⟩ := bind_eq_ok_iff.mp made
  obtain ⟨along, right, same⟩ := bind_eq_ok_iff.mp more
  cases same
  rw [eq_of_bounded below, eq_of_bounded right]

/-- The edit of a fix replaces what the fix replaces. -/
theorem TextEdit.eq_of_ofFix {fix : Fix} {edit : TextEdit} (made : TextEdit.ofFix fix = .ok edit)
    : edit = ⟨⟨⟨fix.span.start.row, fix.span.start.column⟩,
        ⟨fix.span.stop.row, fix.span.stop.column⟩⟩, fix.replacement⟩ := by
  obtain ⟨range, ranged, same⟩ := bind_eq_ok_iff.mp made
  obtain ⟨start, begun, more⟩ := bind_eq_ok_iff.mp ranged
  obtain ⟨stop, ended, done⟩ := bind_eq_ok_iff.mp more
  cases same
  cases done
  rw [Point.eq_of_of begun, Point.eq_of_of ended]

/-- Edits follow each other as their fixes do. -/
theorem TextEdit.follows_iff {earlier later : TextEdit} {file : String} {f g : Fix}
    (first : earlier.IsOf file f) (second : later.IsOf file g)
    : later.Follows earlier ↔ g.Follows f := by
  rw [TextEdit.eq_of_ofFix first.2, TextEdit.eq_of_ofFix second.2]
  rfl

-----------------------------------------------------------------------------------------
-- The edits of an address
-----------------------------------------------------------------------------------------

namespace WorkspaceEdit

/-- The edits of an address. -/
def editsOf (changes : WorkspaceEdit) (file : String) : List TextEdit :=
  (changes.get? file).getD []

/-- Those of the fixes whose files have an address. -/
def fixesOf (file : String) (fixes : List Fix) : List Fix :=
  fixes.filter fun fix => Uri.ofPath? fix.file = some file

/-- The file of a fix has an address. -/
theorem fileUri_eq_ok_iff {path file : String}
    : fileUri path = .ok file ↔ Uri.ofPath? path = some file := by
  unfold fileUri
  cases Uri.ofPath? path <;> simp

/-- An edit that is added to an address stands behind those there, and no other address has it. -/
theorem editsOf_add (changes : WorkspaceEdit) (uri file : String) (edit : TextEdit)
    : (changes.add uri edit).editsOf file
      = changes.editsOf file ++ if uri = file then [edit] else [] := by
  simp only [editsOf, add, Table.get?_insert]
  by_cases same : file = uri
  · simp [same]
  · simp [same, Ne.symm same]

/-- Fixes add to each address the edits of those among them whose files it names, by induction
over the fixes.
-/
theorem exists_editsOf_of_foldlM {fixes : List Fix} {changes after : WorkspaceEdit}
    (made : fixes.foldlM addFix changes = .ok after) (file : String)
    : ∃ more, after.editsOf file = changes.editsOf file ++ more
        ∧ List.Forall₂ (fun edit fix => edit.IsOf file fix) more (fixesOf file fixes) := by
  induction fixes generalizing changes with
  | nil =>
      obtain rfl : changes = after := Except.ok.inj made
      exact ⟨[], by simp, .nil⟩
  | cons first rest ih =>
      rw [List.foldlM_cons] at made
      obtain ⟨middle, added, remaining⟩ := bind_eq_ok_iff.mp made
      obtain ⟨uri, named, given⟩ := bind_eq_ok_iff.mp added
      obtain ⟨edit, ranged, same⟩ := bind_eq_ok_iff.mp given
      obtain rfl : changes.add uri edit = middle := Except.ok.inj same
      obtain ⟨more, whole, own⟩ := ih remaining
      rw [editsOf_add, List.append_assoc] at whole
      refine ⟨_, whole, ?_⟩
      have address : Uri.ofPath? first.file = some uri := fileUri_eq_ok_iff.mp named
      by_cases here : uri = file
      · subst here
        simpa [fixesOf, address] using List.Forall₂.cons ⟨named, ranged⟩ own
      · simpa [fixesOf, address, here] using own

/-- The edits of an address are those of the fixes whose files it names, in their order. -/
theorem forall₂_editsOf_of_ofFixes {fixes : List Fix} {changes : WorkspaceEdit}
    (made : ofFixes fixes = .ok changes) (file : String)
    : List.Forall₂ (fun edit fix => edit.IsOf file fix) (changes.editsOf file)
        (fixesOf file fixes) := by
  obtain ⟨more, whole, own⟩ := exists_editsOf_of_foldlM made file
  have all : changes.editsOf file = more := by simpa [editsOf] using whole
  exact all ▸ own

/-- Each address stays there once while fixes are added, by induction over the fixes. -/
theorem nodup_keys_of_foldlM {fixes : List Fix} {changes after : WorkspaceEdit}
    (made : fixes.foldlM addFix changes = .ok after) (once : changes.keys.Nodup)
    : after.keys.Nodup := by
  induction fixes generalizing changes with
  | nil => exact Except.ok.inj made ▸ once
  | cons first rest ih =>
      rw [List.foldlM_cons] at made
      obtain ⟨middle, added, remaining⟩ := bind_eq_ok_iff.mp made
      obtain ⟨uri, _, given⟩ := bind_eq_ok_iff.mp added
      obtain ⟨edit, _, same⟩ := bind_eq_ok_iff.mp given
      obtain rfl : changes.add uri edit = middle := Except.ok.inj same
      exact ih remaining (Table.nodup_keys_insert once uri _)

/-- An entry of the edits of fixes has all edits of its address. -/
theorem editsOf_of_mem {fixes : List Fix} {changes : WorkspaceEdit}
    (made : ofFixes fixes = .ok changes) {file : String} {edits : List TextEdit}
    (entry : (file, edits) ∈ changes)
    : changes.editsOf file = edits := by
  have once : changes.keys.Nodup := nodup_keys_of_foldlM made List.nodup_nil
  simp [editsOf, Table.get?_of_mem once entry]

/-- The addresses with edits are those there and those of the files of fixes, by induction over the
fixes.
-/
theorem mem_keys_of_foldlM {fixes : List Fix} {changes after : WorkspaceEdit}
    (made : fixes.foldlM addFix changes = .ok after) (file : String)
    : file ∈ after.keys ↔ file ∈ changes.keys ∨ ∃ fix ∈ fixes, fileUri fix.file = .ok file := by
  induction fixes generalizing changes with
  | nil =>
      obtain rfl : changes = after := Except.ok.inj made
      simp
  | cons first rest ih =>
      rw [List.foldlM_cons] at made
      obtain ⟨middle, added, remaining⟩ := bind_eq_ok_iff.mp made
      obtain ⟨uri, named, given⟩ := bind_eq_ok_iff.mp added
      obtain ⟨edit, _, same⟩ := bind_eq_ok_iff.mp given
      obtain rfl : changes.add uri edit = middle := Except.ok.inj same
      have here : file ∈ (changes.add uri edit).keys ↔ file ∈ changes.keys ∨ uri = file := by
        rw [add, Table.keys_insert]
        split
        next known => exact ⟨Or.inl, fun given => given.elim id fun same => same ▸ known⟩
        next => simp [eq_comm]
      rw [ih remaining, here]
      simp [named, or_assoc]

/-- Every fix has its edit under the address of its file, by induction over the fixes. -/
theorem exists_key_of_foldlM {fixes : List Fix} {changes after : WorkspaceEdit} {fix : Fix}
    (made : fixes.foldlM addFix changes = .ok after) (member : fix ∈ fixes)
    : ∃ file ∈ after.keys, fileUri fix.file = .ok file := by
  induction fixes generalizing changes with
  | nil => cases member
  | cons first rest ih =>
      have whole := made
      rw [List.foldlM_cons] at made
      obtain ⟨middle, added, remaining⟩ := bind_eq_ok_iff.mp made
      rcases List.mem_cons.mp member with rfl | behind
      · obtain ⟨uri, named, _⟩ := bind_eq_ok_iff.mp added
        exact ⟨uri, (mem_keys_of_foldlM whole uri).mpr (Or.inr ⟨fix, member, named⟩), named⟩
      · exact ih remaining behind

end WorkspaceEdit

-----------------------------------------------------------------------------------------
-- The addresses that are edited together
-----------------------------------------------------------------------------------------

/-- The action for all fixes edits an address exactly if one of the messages has a fix in a file of
this address: also a fix that is left out stands for one of its file that is selected.
-/
theorem mem_keys_of_fixAll {messages : List Message} {changes : WorkspaceEdit}
    (made : WorkspaceEdit.ofFixes (selectedFixes messages) = .ok changes) (file : String)
    : file ∈ changes.keys
      ↔ ∃ fix ∈ messages.filterMap (·.fix), fileUri fix.file = .ok file := by
  rw [WorkspaceEdit.mem_keys_of_foldlM made]
  constructor
  · intro given
    rcases given with none | ⟨fix, selected, named⟩
    · cases none
    · exact ⟨fix, Fix.mem_select selected, named⟩
  · intro given
    obtain ⟨fix, member, named⟩ := given
    obtain ⟨other, selected, same⟩ := Fix.exists_mem_select member
    exact Or.inr ⟨other, selected, same ▸ named⟩

/-- Every fix is of a file that the action for all fixes edits. -/
theorem exists_key_of_fixAll {messages : List Message} {changes : WorkspaceEdit} {fix : Fix}
    (made : WorkspaceEdit.ofFixes (selectedFixes messages) = .ok changes)
    (member : fix ∈ messages.filterMap (·.fix))
    : ∃ file ∈ changes.keys, fileUri fix.file = .ok file := by
  obtain ⟨other, selected, same⟩ := Fix.exists_mem_select member
  exact same ▸ WorkspaceEdit.exists_key_of_foldlM made selected

/-- The action for all fixes edits one address alone exactly if every fix of the messages is of a
file of that address.
-/
theorem keys_of_fixAll_eq_singleton_iff {messages : List Message} {changes : WorkspaceEdit}
    (made : WorkspaceEdit.ofFixes (selectedFixes messages) = .ok changes)
    (some : selectedFixes messages ≠ []) (uri : String)
    : changes.keys = [uri]
      ↔ ∀ fix ∈ messages.filterMap (·.fix), fileUri fix.file = .ok uri := by
  constructor
  · intro only fix member
    obtain ⟨file, inside, named⟩ := exists_key_of_fixAll made member
    rw [only] at inside
    exact List.mem_singleton.mp inside ▸ named
  · intro each
    have once : changes.keys.Nodup := WorkspaceEdit.nodup_keys_of_foldlM made List.nodup_nil
    have only : ∀ file ∈ changes.keys, file = uri := by
      intro file inside
      obtain ⟨fix, member, named⟩ := (mem_keys_of_fixAll made file).mp inside
      exact Except.ok.inj (named.symm.trans (each fix member))
    obtain ⟨fix, selected⟩ := List.exists_mem_of_ne_nil _ some
    have member := Fix.mem_select selected
    have inside := (mem_keys_of_fixAll made uri).mpr ⟨fix, member, each fix member⟩
    refine List.perm_singleton.mp ((List.perm_ext_iff_of_nodup once (by simp)).mpr ?_)
    intro file
    rw [List.mem_singleton]
    exact ⟨only file, fun same => same ▸ inside⟩

-----------------------------------------------------------------------------------------
-- Edits that are made together
-----------------------------------------------------------------------------------------

/-- What holds of any two items of a list, the one before the other, holds of what belongs to
them, by induction over both lists.
-/
theorem pairwise_of_forall₂ {α β : Type} {matching : α → β → Prop} {R : β → β → Prop}
    {S : α → α → Prop} {items : List α} {others : List β}
    (matched : List.Forall₂ matching items others) (ordered : others.Pairwise R)
    (carries : ∀ {a b : α} {c d : β}, matching a c → matching b d → R c d → S a b)
    : items.Pairwise S := by
  induction matched with
  | nil => exact .nil
  | cons first rest ih =>
      obtain ⟨ahead, inner⟩ := List.pairwise_cons.mp ordered
      refine .cons ?_ (ih inner)
      intro item member
      obtain ⟨i, inside, rfl⟩ := List.mem_iff_getElem.mp member
      have within : i < _ := rest.length_eq ▸ inside
      exact carries first (rest.get inside within) (ahead _ (List.getElem_mem within))

/-- Of two edits of an address in the action for all fixes, the later one follows the earlier one,
unless they are those of fixes that name the file differently.
-/
theorem pairwise_of_fixAll {messages : List Message} {changes : WorkspaceEdit} {file : String}
    {edits : List TextEdit}
    (made : WorkspaceEdit.ofFixes (selectedFixes messages) = .ok changes)
    (entry : (file, edits) ∈ changes)
    : edits.Pairwise fun earlier later =>
        later.Follows earlier
        ∨ ∃ f ∈ messages.filterMap (·.fix), ∃ g ∈ messages.filterMap (·.fix),
            f.file ≠ g.file ∧ earlier.IsOf file f ∧ later.IsOf file g := by
  have own := WorkspaceEdit.forall₂_editsOf_of_ofFixes made file
  rw [WorkspaceEdit.editsOf_of_mem made entry] at own
  have apart := (Fix.pairwise_select (messages.filterMap (·.fix))).filter
    fun fix => Uri.ofPath? fix.file = some file
  refine pairwise_of_forall₂ own (List.Pairwise.and_mem.mp apart) ?_
  intro earlier later f g first second given
  obtain ⟨fromFirst, fromSecond, follows⟩ := given
  by_cases same : f.file = g.file
  · exact Or.inl ((TextEdit.follows_iff first second).mpr (follows same))
  · refine Or.inr ⟨f, ?_, g, ?_, same, first, second⟩
    · exact Fix.mem_select (List.mem_filter.mp fromFirst).1
    · exact Fix.mem_select (List.mem_filter.mp fromSecond).1

end EditorLint.Editor
