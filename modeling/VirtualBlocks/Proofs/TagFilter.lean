import VirtualBlocks.TagFilter

/-!
Contract: what a list of tags decides.

Owns:
- the tags that a list admits, by name or by a wildcard;
- that the entries of a list count, and neither their order nor their number;
- the list in effect: the one that is given, or else the deprecated lists in one.

Does not own: the custom blocks of a component (`Proofs.Plugin.Exports`).
-/

namespace VirtualBlocks.TagSetting

/-- Whether a list admits a tag: it names the tag, or it names all tags and denies neither
this one nor all of them. -/
def Admits (entries : List String) (tag : String) : Prop :=
  tag ∈ entries ∨ ("!" ++ tag ∉ entries ∧ "!*" ∉ entries ∧ "*" ∈ entries)

/-- A tag that is no denial itself is allowed exactly if it is admitted. -/
theorem listAllows_iff_admits (entries : List String) {tag : String}
    (plain : tag.toList.head? ≠ some '!') :
    listAllows entries tag = true ↔ Admits entries tag := by
  have denial : "!" ++ "*" = "!*" := by decide
  unfold listAllows Admits
  simp [plain, denial, and_assoc]

/-- Lists with the same entries decide alike. -/
theorem listAllows_congr {left right : List String}
    (same : ∀ entry, entry ∈ left ↔ entry ∈ right) :
    listAllows left = listAllows right := by
  have contains (entry : String) : left.contains entry = right.contains entry := by
    rw [Bool.eq_iff_iff, List.contains_iff_mem, List.contains_iff_mem, same]
  funext tag
  unfold listAllows
  simp only [contains]

/-- The list that is in effect. The deprecated lists count if there is no explicit setting
and at least one of them is given: first what is denied, each tag behind a `!`, and then
what is allowed. -/
inductive InEffect (setting : Option TagSetting) (allowed denied : Option (List String)) :
    List String → Prop where
  | given {entries : List String} (explicit : setting = some (.tags entries)) :
      InEffect setting allowed denied entries
  | folded (implicit : setting = none)
      (deprecated : allowed.isSome = true ∨ denied.isSome = true) :
      InEffect setting allowed denied
        ((denied.getD []).map (fun tag => "!" ++ tag) ++ allowed.getD [])

section Merge

variable {setting : Option TagSetting} {allowed denied : Option (List String)}

theorem InEffect.merge_eq {entries : List String}
    (inEffect : InEffect setting allowed denied entries) :
    (merge setting allowed denied).1 = some (.tags entries) := by
  cases inEffect with
  | given explicit =>
      rw [explicit]
      rfl
  | folded implicit deprecated =>
      have given : (allowed.isSome || denied.isSome) = true := Bool.or_eq_true_iff.2 deprecated
      rw [implicit]
      unfold merge ofLists
      dsimp only
      rw [if_pos given]

theorem merge_of_isSome (explicit : setting.isSome = true) :
    (merge setting allowed denied).1 = setting := by
  obtain ⟨given, rfl⟩ := Option.isSome_iff_exists.1 explicit
  rfl

theorem merge_none : (merge none none none).1 = none :=
  rfl

end Merge

/-- A name outweighs its denial, and a wildcard does not. -/
example :
    listAllows ["!docs", "*", "docs", "!i18n"] "docs" = true ∧
      listAllows ["!docs", "*", "docs", "!i18n"] "i18n" = false := by
  decide +kernel

end VirtualBlocks.TagSetting
