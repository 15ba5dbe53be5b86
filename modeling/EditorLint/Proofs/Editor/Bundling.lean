import EditorLint.Agenda
import EditorLint.Proofs.Editor.WorkspaceEdit
import Mathlib.Data.List.Induction

/-! What becomes of fixes that are bundled. None is lost and none is there twice: the addresses come
in the order in which the fixes first name them, under each stand the edits of its fixes in their
order, and what is bundled after other fixes stands behind what they left.
-/

namespace EditorLint

/-- The file of a fix has an address, and the fix has an edit. -/
structure Fix.Converts (fix : Fix) : Prop where
  address : ∃ uri, Editor.fileUri fix.file = .ok uri
  edit : ∃ edit, Editor.TextEdit.ofFix fix = .ok edit

/-- A value behind others is a new one among them, or they are as many as before. -/
theorem eraseDups_concat (values : List String) (value : String)
    : (values ++ [value]).eraseDups
      = if value ∈ values.eraseDups then values.eraseDups else values.eraseDups ++ [value] := by
  rw [List.eraseDups_append]
  by_cases known : value ∈ values <;> simp [List.removeAll, List.eraseDups_cons, known]

namespace Table

variable {α : Type}

/-- What the entries of a table amount to, after one value was put in the place of another. -/
theorem total_insert (size : α → Nat) (table : Table α) (key : String) (value : α)
    : total (fun entry => size entry.2) (table.insert key value)
        + ((table.get? key).map size).getD 0
      = total (fun entry => size entry.2) table + size value := by
  induction table with
  | nil => simp [insert, total]
  | cons entry rest ih =>
      by_cases same : entry.1 = key
      · simp only [insert, get?_cons, same, if_true, total, Option.map_some, Option.getD_some]
        omega
      · simp only [insert, if_neg same, get?_cons, if_neg (Ne.symm same), total]
        omega

end Table

namespace Editor.WorkspaceEdit

-----------------------------------------------------------------------------------------
-- One more fix
-----------------------------------------------------------------------------------------

/-- How many edits there are under all addresses together. -/
def count (changes : WorkspaceEdit) : Nat :=
  total (fun entry => entry.2.length) changes

/-- An edit that is added is one more. -/
theorem count_add (changes : WorkspaceEdit) (uri : String) (edit : TextEdit)
    : (changes.add uri edit).count = changes.count + 1 := by
  have put := Table.total_insert List.length changes uri (changes.editsOf uri ++ [edit])
  have own : ((changes.get? uri).map List.length).getD 0 = (changes.editsOf uri).length := by
    cases found : changes.get? uri <;> simp [editsOf, found]
  rw [own, List.length_append, List.length_singleton] at put
  simp only [count, add, editsOf] at put ⊢
  omega

/-- Its address is in its place, or comes behind all others. -/
theorem keys_add (changes : WorkspaceEdit) (uri : String) (edit : TextEdit)
    : (changes.add uri edit).keys
      = if uri ∈ changes.keys then changes.keys else changes.keys ++ [uri] :=
  Table.keys_insert changes uri _

/-- A fix is added exactly if it converts. -/
theorem exists_addFix_iff {changes : WorkspaceEdit} {fix : Fix}
    : (∃ after, changes.addFix fix = .ok after) ↔ fix.Converts := by
  simp only [addFix, bind_eq_ok_iff]
  constructor
  · intro given
    obtain ⟨_, uri, named, edit, ranged, _⟩ := given
    exact ⟨⟨uri, named⟩, edit, ranged⟩
  · intro converts
    obtain ⟨⟨uri, named⟩, edit, ranged⟩ := converts
    exact ⟨_, uri, named, edit, ranged, rfl⟩

/-- The edits of fixes with one more fix behind them are theirs and the one of this fix. -/
theorem exists_add_of_concat {fixes : List Fix} {fix : Fix} {after : WorkspaceEdit}
    (made : ofFixes (fixes ++ [fix]) = .ok after)
    : ∃ changes uri edit,
        ofFixes fixes = .ok changes
        ∧ fileUri fix.file = .ok uri
        ∧ changes.add uri edit = after := by
  rw [ofFixes, List.foldlM_append] at made
  obtain ⟨changes, before, last⟩ := bind_eq_ok_iff.mp made
  obtain ⟨_, added, same⟩ := bind_eq_ok_iff.mp last
  obtain ⟨uri, named, given⟩ := bind_eq_ok_iff.mp added
  obtain ⟨edit, _, result⟩ := bind_eq_ok_iff.mp given
  exact ⟨changes, uri, edit, before, named, (Except.ok.inj result).trans (Except.ok.inj same)⟩

-----------------------------------------------------------------------------------------
-- All fixes
-----------------------------------------------------------------------------------------

/-- Fixes are bundled exactly if each of them converts, by induction over the fixes. -/
theorem exists_foldlM_iff {fixes : List Fix} {changes : WorkspaceEdit}
    : (∃ after, fixes.foldlM addFix changes = .ok after) ↔ ∀ fix ∈ fixes, fix.Converts := by
  induction fixes generalizing changes with
  | nil => exact ⟨fun _ _ => nofun, fun _ => ⟨changes, rfl⟩⟩
  | cons first rest ih =>
      simp only [List.foldlM_cons, bind_eq_ok_iff, List.forall_mem_cons]
      constructor
      · intro given
        obtain ⟨after, middle, added, more⟩ := given
        exact ⟨exists_addFix_iff.mp ⟨middle, added⟩, ih.mp ⟨after, more⟩⟩
      · intro converts
        obtain ⟨middle, added⟩ := exists_addFix_iff.mpr converts.1
        obtain ⟨after, more⟩ := ih.mpr converts.2
        exact ⟨after, middle, added, more⟩

/-- The addresses are those of the files of the fixes, in the order in which they first come, by
induction over the fixes from behind.
-/
theorem keys_of_ofFixes {fixes : List Fix} {changes : WorkspaceEdit}
    (made : ofFixes fixes = .ok changes)
    : ∃ uris,
        fixes.mapM (fun fix => fileUri fix.file) = .ok uris ∧ changes.keys = uris.eraseDups := by
  induction fixes using List.reverseRecOn generalizing changes with
  | nil => exact ⟨[], rfl, Except.ok.inj made ▸ rfl⟩
  | append_singleton fixes fix ih =>
      obtain ⟨before, uri, edit, begun, named, rfl⟩ := exists_add_of_concat made
      obtain ⟨uris, each, same⟩ := ih begun
      refine ⟨uris ++ [uri], ?_, ?_⟩
      · have last : [fix].mapM (fun fix => fileUri fix.file) = .ok [uri] :=
          mapM_cons_eq_ok_iff.mpr ⟨uri, [], named, rfl, rfl⟩
        rw [List.mapM_append, each, last]
        rfl
      · rw [keys_add, same, eraseDups_concat]

/-- There are as many edits as fixes, by induction over the fixes from behind. -/
theorem count_of_ofFixes {fixes : List Fix} {changes : WorkspaceEdit}
    (made : ofFixes fixes = .ok changes)
    : changes.count = fixes.length := by
  induction fixes using List.reverseRecOn generalizing changes with
  | nil => exact Except.ok.inj made ▸ rfl
  | append_singleton fixes fix ih =>
      obtain ⟨before, uri, edit, begun, _, rfl⟩ := exists_add_of_concat made
      rw [count_add, ih begun, List.length_append, List.length_singleton]

/-- The edits of an address are those of its fixes, in their order. -/
theorem mapM_fixesOf {fixes : List Fix} {changes : WorkspaceEdit}
    (made : ofFixes fixes = .ok changes) (uri : String)
    : (fixesOf uri fixes).mapM TextEdit.ofFix = .ok (changes.editsOf uri) := by
  have own := (forall₂_editsOf_of_ofFixes made uri).imp fun _ _ isOf => isOf.2
  exact mapM_eq_ok_iff.mpr own.flip

/-- So fixes behind others add their edits to those of the others. -/
theorem editsOf_append {xs ys : List Fix} {first second whole : WorkspaceEdit}
    (begun : ofFixes xs = .ok first) (more : ofFixes ys = .ok second)
    (made : ofFixes (xs ++ ys) = .ok whole) (uri : String)
    : whole.editsOf uri = first.editsOf uri ++ second.editsOf uri := by
  have all := mapM_fixesOf made uri
  have parted : fixesOf uri (xs ++ ys) = fixesOf uri xs ++ fixesOf uri ys :=
    List.filter_append xs ys
  rw [parted, List.mapM_append, mapM_fixesOf begun, mapM_fixesOf more] at all
  exact (Except.ok.inj all).symm

/-- Fixes that convert are bundled without loss and without anything twice. The addresses are those
of their files in the order in which they first come, under each are the edits of its fixes in
their order, and there are as many edits as fixes. Wherever the fixes are cut in two, each address
has the edits of the first ones and then those of the others.
-/
theorem ofFixes_keeps_all {fixes : List Fix} (converts : ∀ fix ∈ fixes, fix.Converts)
    : ∃ changes uris,
        ofFixes fixes = .ok changes
        ∧ fixes.mapM (fun fix => fileUri fix.file) = .ok uris
        ∧ changes.keys = uris.eraseDups
        ∧ (∀ uri edits,
            (uri, edits) ∈ changes → (fixesOf uri fixes).mapM TextEdit.ofFix = .ok edits)
        ∧ changes.count = fixes.length
        ∧ ∀ xs ys,
            xs ++ ys = fixes
            → ∃ first second,
                ofFixes xs = .ok first
                ∧ ofFixes ys = .ok second
                ∧ ∀ uri, changes.editsOf uri = first.editsOf uri ++ second.editsOf uri := by
  obtain ⟨changes, made⟩ := exists_foldlM_iff.mpr converts
  obtain ⟨uris, named, keys⟩ := keys_of_ofFixes made
  refine ⟨changes, uris, made, named, keys, ?_, count_of_ofFixes made, ?_⟩
  · intro uri edits entry
    rw [← editsOf_of_mem made entry]
    exact mapM_fixesOf made uri
  · intro xs ys whole
    subst whole
    obtain ⟨converts, others⟩ := List.forall_mem_append.mp converts
    obtain ⟨first, begun⟩ := exists_foldlM_iff.mpr converts
    obtain ⟨second, more⟩ := exists_foldlM_iff.mpr others
    exact ⟨first, second, begun, more, editsOf_append begun more made⟩

/-- Fixes of two files, one of which is named with a slash in front and without it. -/
def spelledFixes : List Fix :=
  [⟨"/a.py", ⟨⟨.int 0, .int 0⟩, ⟨.int 1, .int 0⟩⟩, ""⟩,
    ⟨"/b.py", ⟨⟨.int 3, .int 2⟩, ⟨.int 3, .flag true⟩⟩, "x"⟩,
    ⟨"a.py", ⟨⟨.int 0, .int 0⟩, ⟨.int 1, .int 0⟩⟩, ""⟩]

/-- Both spellings have one address, and both edits are kept there although they are alike. -/
theorem ofFixes_keeps_all_spelled
    : (∀ fix ∈ spelledFixes, fix.Converts)
      ∧ ∃ changes,
          ofFixes spelledFixes = .ok changes
          ∧ changes.keys = ["file:///a.py", "file:///b.py"]
          ∧ changes.count = 3
          ∧ ∀ edits,
              ("file:///a.py", edits) ∈ changes
              → edits = List.replicate 2 ⟨⟨⟨.int 0, .int 0⟩, ⟨.int 1, .int 0⟩⟩, ""⟩ := by
  have converts : ∀ fix ∈ spelledFixes, fix.Converts := by
    simp only [spelledFixes, List.forall_mem_cons]
    exact ⟨⟨⟨_, rfl⟩, _, rfl⟩, ⟨⟨_, rfl⟩, _, rfl⟩, ⟨⟨_, rfl⟩, _, rfl⟩, by simp⟩
  obtain ⟨changes, uris, made, named, keys, grouped, count, _⟩ := ofFixes_keeps_all converts
  have addresses
      : spelledFixes.mapM (fun fix => fileUri fix.file)
        = .ok ["file:///a.py", "file:///b.py", "file:///a.py"] := by
    decide +kernel
  have both : fixesOf "file:///a.py" spelledFixes = [spelledFixes[0], spelledFixes[2]] := by
    decide +kernel
  obtain rfl := Except.ok.inj (named.symm.trans addresses)
  refine ⟨converts, changes, made, keys, count, ?_⟩
  intro edits entry
  have own := grouped _ edits entry
  rw [both] at own
  exact (Except.ok.inj own).symm

end Editor.WorkspaceEdit

end EditorLint
