import EditorLint.Editor.CodeAction
import EditorLint.Proofs.Text.Split

/-! The kinds of code actions that an editor asks for. A kind is a path of segments with dots in
between, and who asks for a kind asks for all kinds whose segments begin with its own.
-/

namespace EditorLint.Editor

/-- The segments of one kind begin those of another, or are the same. -/
def KindAbove (upper kind : String) : Prop :=
  Text.split '.' upper <+: Text.split '.' kind

theorem KindAbove.trans {upper middle kind : String} (first : KindAbove upper middle)
    (second : KindAbove middle kind)
    : KindAbove upper kind :=
  List.IsPrefix.trans first second

/-- A kind includes exactly those that it is above: what counts character by character, the same
text or a dot behind it, counts segment by segment.
-/
theorem includesKind_iff {asked kind : String}
    : includesKind asked kind = true ↔ KindAbove asked kind := by
  have same : kind = asked ↔ kind.toList = asked.toList := String.toList_inj.symm
  rw [KindAbove, Text.split, Text.split,
    List.prefix_map_iff_of_injective fun _ _ => String.ofList_inj.mp, Text.splitChars_isPrefix_iff,
    ← same]
  simp [includesKind, List.isPrefixOf_iff_prefix]

theorem kindRequested_iff {kind : String} {only : List String}
    : kindRequested kind only = true ↔ only = [] ∨ ∃ asked ∈ only, KindAbove asked kind := by
  simp [kindRequested, includesKind_iff]

theorem kindRequested_singleton {kind asked : String}
    : kindRequested kind [asked] = true ↔ KindAbove asked kind := by
  simp [kindRequested_iff]

/-- Who asks for more kinds, and not for all of them at once, gets no fewer. -/
theorem kindRequested_mono {kind : String} {only more : List String} (some : only ≠ [])
    (grown : only ⊆ more) (requested : kindRequested kind only = true)
    : kindRequested kind more = true := by
  obtain ⟨asked, member, upper⟩ := (kindRequested_iff.mp requested).resolve_left some
  exact kindRequested_iff.mpr (Or.inr ⟨asked, grown member, upper⟩)

/-- Neither the order of the kinds asked for nor how often one is named makes a difference. -/
theorem kindRequested_congr {kind : String} {only other : List String}
    (same : ∀ asked, asked ∈ only ↔ asked ∈ other)
    : kindRequested kind only = kindRequested kind other := by
  have empty : only = [] ↔ other = [] := by
    simp only [List.eq_nil_iff_forall_not_mem, same]
  rw [Bool.eq_iff_iff, kindRequested_iff, kindRequested_iff, empty]
  simp only [same]

/-- A kind is asked for exactly if no kinds are named or one of those named is above it, segment by
segment. So naming more kinds asks for no fewer, the order and the repetition of names make no
difference, and a kind that is above one asked for below it is above all that this includes.
-/
theorem kindRequested_by_segments (kind : String) (only : List String)
    : (kindRequested kind only = true
        ↔ only = [] ∨ ∃ asked ∈ only, Text.split '.' asked <+: Text.split '.' kind)
      ∧ (∀ more,
          only ≠ [] → only ⊆ more → kindRequested kind only = true
          → kindRequested kind more = true)
      ∧ (∀ other,
          (∀ asked, asked ∈ only ↔ asked ∈ other)
          → kindRequested kind only = kindRequested kind other)
      ∧ (∀ middle upper,
          kindRequested kind [middle] = true → kindRequested middle [upper] = true
          → kindRequested kind [upper] = true) := by
  refine ⟨kindRequested_iff, fun more => kindRequested_mono, fun other => kindRequested_congr, ?_⟩
  intro middle upper inner outer
  have above := kindRequested_singleton.mp outer
  exact kindRequested_singleton.mpr (above.trans (kindRequested_singleton.mp inner))

/-- All fixes are asked for by the kind right above theirs, also beside another kind, and so by the
kind above that; the beginning of a segment asks for nothing.
-/
theorem kindRequested_by_segments_of_fixAll
    : kindRequested fixAllKind ["source.fixAll"] = true
      ∧ kindRequested fixAllKind ["quickfix", "source.fixAll"] = true
      ∧ kindRequested fixAllKind ["source"] = true
      ∧ ¬ kindRequested fixAllKind ["source.fix"] = true := by
  obtain ⟨bySegments, more, _, upward⟩ := kindRequested_by_segments fixAllKind ["source.fixAll"]
  have direct : kindRequested fixAllKind ["source.fixAll"] = true :=
    bySegments.mpr (Or.inr ⟨"source.fixAll", List.mem_singleton_self _, by decide⟩)
  refine ⟨direct, more _ (by decide) (by simp) direct, ?_, ?_⟩
  · exact upward "source.fixAll" "source" direct (by decide)
  · rw [(kindRequested_by_segments fixAllKind ["source.fix"]).1]
    decide

end EditorLint.Editor
