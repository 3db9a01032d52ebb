import VirtualBlocks.Text.Search

/-!
Contract: what the replacement of every occurrence can bring into a text.

Owns:
- no character that is neither in the text nor in what is written;
- no start that what is written has no part in.

Does not own: how often something is replaced.
-/

namespace VirtualBlocks.Text

variable {old new : List Char}

theorem notMem_replaceAll (nonempty : old ≠ []) {c : Char} (notWritten : c ∉ new)
    {text : List Char} (outside : c ∉ text) : c ∉ replaceAll old new text := by
  induction length : text.length using Nat.strongRecOn generalizing text with
  | ind count inductionHypothesis =>
      by_cases here : old <+: text
      · obtain ⟨rest, rfl⟩ := here
        have positive : 0 < old.length := List.length_pos_iff.2 nonempty
        have shorter : rest.length < count := by
          rw [List.length_append] at length
          omega
        rw [List.mem_append, not_or] at outside
        rw [replaceAll_append nonempty, List.mem_append, not_or]
        exact ⟨notWritten, inductionHypothesis rest.length shorter outside.2 rfl⟩
      · cases text with
        | nil => exact List.not_mem_nil
        | cons first rest =>
            rw [List.length_cons] at length
            rw [List.mem_cons, not_or] at outside
            rw [replaceAll_cons new here, List.mem_cons, not_or]
            exact ⟨outside.1, inductionHypothesis rest.length (by omega) outside.2 rfl⟩

/-- Wherever a start is cut, what comes then disagrees with what is written. -/
def IsApart (start new : List Char) : Prop :=
  ∀ cut < start.length, ¬ start.drop cut <+: new ∧ ¬ new <+: start.drop cut

instance (start new : List Char) : Decidable (IsApart start new) :=
  inferInstanceAs (Decidable (∀ cut < start.length,
    ¬ start.drop cut <+: new ∧ ¬ new <+: start.drop cut))

theorem IsApart.tail {c : Char} {start : List Char} (apart : IsApart (c :: start) new) :
    IsApart start new :=
  fun cut within => apart (cut + 1) (Nat.succ_lt_succ within)

/-- A start that is apart from what is written was there before. -/
theorem IsApart.prefix_of_replaceAll (nonempty : old ≠ []) {start text : List Char}
    (apart : IsApart start new) (starts : start <+: replaceAll old new text) :
    start <+: text := by
  induction text generalizing start with
  | nil => exact starts
  | cons c rest inductionHypothesis =>
      cases start with
      | nil => exact List.nil_prefix
      | cons first others =>
          by_cases here : old <+: c :: rest
          · obtain ⟨behind, whole⟩ := here
            rw [← whole, replaceAll_append nonempty] at starts
            obtain ⟨notInNew, newNotIn⟩ := apart 0 (Nat.succ_pos _)
            rcases List.prefix_or_prefix_of_prefix starts (List.prefix_append _ _) with
              within | beyond
            · exact absurd within notInNew
            · exact absurd beyond newNotIn
          · rw [replaceAll_cons new here, List.cons_prefix_cons] at starts
            exact List.cons_prefix_cons.2 ⟨starts.1, inductionHypothesis apart.tail starts.2⟩

end VirtualBlocks.Text
