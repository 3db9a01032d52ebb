import Mathlib.Data.Set.Card
import VirtualBlocks.Files.Memory
import VirtualBlocks.Proofs.Text.Positions

/-!
Contract: files held in memory, after any changes.

Owns:
- the key of a path, told from its text;
- changes in a row, and the content that is left behind them under a key;
- texts in order: those with one start stand together, so the first one from that start
  on tells whether there is any;
- what reading, taking out, counting and looking for directories answer behind any
  changes.

Does not own: the packages that are found in memory (`Proofs.Package.Candidates`).
-/

namespace VirtualBlocks

/-! ## Keys of a table -/

namespace Table

variable {α : Type} (table : Table α)

theorem nodup_keys : (table.entries.map Prod.fst).Nodup := by
  apply List.pairwise_map.2
  refine table.increasing.imp ?_
  intro left right before same
  exact String.lt_irrefl right.1 (same ▸ before)

/-- The keys are those under which something is found. -/
theorem mem_keys_iff (key : String) :
    key ∈ table.entries.map Prod.fst ↔ ∃ value, table.get? key = some value := by
  unfold get?
  induction table.entries with
  | nil => simp
  | cons first rest inductionHypothesis =>
      simp only [lookup_binding_cons, List.map_cons, List.mem_cons, inductionHypothesis]
      split
      · rename_i same
        simp [same]
      · rename_i other
        simp [other]

section FirstFrom

variable {table} {start : String}

theorem lt_of_firstFrom?_eq_none (nothing : table.firstFrom? start = none) {entry : String × α}
    (member : entry ∈ table.entries) : entry.1 < start := by
  have before := List.find?_eq_none.1 nothing entry member
  simpa using before

/-- The first entry from a start on: those before it are before the start. -/
theorem of_firstFrom?_eq_some {first : String × α} (found : table.firstFrom? start = some first) :
    first ∈ table.entries ∧ ¬ first.1 < start ∧
      ∀ entry ∈ table.entries, entry.1 < first.1 → entry.1 < start := by
  obtain ⟨isBehind, front, rest, entries, inFront⟩ := List.find?_eq_some_iff_append.1 found
  have increasing := table.increasing
  rw [entries] at increasing ⊢
  refine ⟨by simp, by simpa using isBehind, ?_⟩
  intro entry member before
  rcases List.mem_append.1 member with early | late
  · simpa using inFront entry early
  · rcases List.mem_cons.1 late with rfl | inRest
    · exact absurd before (String.lt_irrefl _)
    · have later : first.1 < entry.1 :=
        (List.pairwise_cons.1 (List.pairwise_append.1 increasing).2.1).1 entry inRest
      exact absurd before (String.lt_asymm later)

end FirstFrom

end Table

namespace MemoryFiles

/-! ## The key of a path -/

/-- The text of a path with slashes in the place of backslashes. -/
def slashed (path : Path) : List Char :=
  path.text.toList.map (fun c => if c = '\\' then '/' else c)

/-- A text is the key of a path: a text of one byte, or none, is its own key, and any
other one is the key with slashes behind it, where the key does not end in one. -/
structure IsKey (path : Path) (text : List Char) : Prop where
  short : Text.byteLength (slashed path) ≤ 1 → text = slashed path
  long : 1 < Text.byteLength (slashed path) →
    (∃ closing, slashed path = text ++ closing ∧ ∀ c ∈ closing, c = '/') ∧
      text.getLast? ≠ some '/'

theorem toList_key_of_singleton {path : Path} {c : Char} (single : slashed path = [c]) :
    (key path).toList = [c] := by
  unfold slashed at single
  unfold key
  rw [single]
  exact String.toList_ofList

theorem toList_key_of_other {path : Path} (other : ∀ c, slashed path ≠ [c]) :
    (key path).toList = ((slashed path).reverse.dropWhile (· == '/')).reverse := by
  unfold slashed at other
  unfold key slashed
  dsimp only
  split
  · rename_i c single
    exact absurd single (other c)
  · exact String.toList_ofList

/-- A text is what is left without the slashes at its end, and these slashes. -/
theorem exists_closing (text : List Char) :
    (∃ closing, text = (text.reverse.dropWhile (· == '/')).reverse ++ closing ∧
      ∀ c ∈ closing, c = '/') ∧
      (text.reverse.dropWhile (· == '/')).reverse.getLast? ≠ some '/' := by
  constructor
  · refine ⟨(text.reverse.takeWhile (· == '/')).reverse, ?_, ?_⟩
    · rw [← List.reverse_append, List.takeWhile_append_dropWhile, List.reverse_reverse]
    · intro c member
      have isSlash := List.all_eq_true.1 List.all_takeWhile c (List.mem_reverse.1 member)
      simpa using isSlash
  · rw [List.getLast?_reverse]
    intro slash
    have notDropped := List.head?_dropWhile_not (· == '/') text.reverse
    rw [slash] at notDropped
    simp at notDropped

theorem isKey_key (path : Path) : IsKey path (key path).toList := by
  by_cases single : ∃ c, slashed path = [c]
  · obtain ⟨c, isSingle⟩ := single
    have isText := toList_key_of_singleton isSingle
    refine ⟨fun _ => isText.trans isSingle.symm, fun long => ⟨⟨[], ?_, List.forall_mem_nil _⟩, ?_⟩⟩
    · rw [isText, isSingle, List.append_nil]
    · rw [isText]
      rintro ⟨⟩
      rw [isSingle] at long
      exact absurd long (by decide)
  · have isText := toList_key_of_other (fun c isSingle => single ⟨c, isSingle⟩)
    refine ⟨fun short => ?_, fun _ => isText ▸ exists_closing (slashed path)⟩
    -- a text of at most one byte that is no single character is empty
    have empty : slashed path = [] := by
      have few := Nat.le_trans (Text.length_le_byteLength (slashed path)) short
      cases whole : slashed path with
      | nil => rfl
      | cons c rest =>
          rw [whole, List.length_cons] at few
          have noRest : rest = [] := List.eq_nil_of_length_eq_zero (by omega)
          exact absurd ⟨c, noRest ▸ whole⟩ single
    rw [isText, empty]
    rfl

theorem notMem_slashed (path : Path) : '\\' ∉ slashed path := by
  intro member
  obtain ⟨c, -, isBackslash⟩ := List.mem_map.1 member
  split at isBackslash
  · contradiction
  · rename_i other
    exact other isBackslash

theorem backslash_notMem_key (path : Path) : '\\' ∉ (key path).toList := by
  intro member
  by_cases short : Text.byteLength (slashed path) ≤ 1
  · rw [(isKey_key path).short short] at member
    exact notMem_slashed path member
  · obtain ⟨closing, whole, -⟩ := ((isKey_key path).long (Nat.lt_of_not_le short)).1
    exact notMem_slashed path (whole ▸ List.mem_append_left closing member)

/-- Only the key that is a slash ends in one. -/
theorem key_eq_slash {path : Path} (ends : (key path).toList.getLast? = some '/') :
    key path = "/" := by
  by_cases short : Text.byteLength (slashed path) ≤ 1
  · have whole := (isKey_key path).short short
    have few := Nat.le_trans (Text.length_le_byteLength (slashed path)) short
    rw [← whole] at few
    cases isText : (key path).toList with
    | nil =>
        rw [isText] at ends
        contradiction
    | cons c rest =>
        rw [isText, List.length_cons] at few
        obtain rfl : rest = [] := List.eq_nil_of_length_eq_zero (by omega)
        rw [isText] at ends
        obtain rfl : c = '/' := Option.some.inj ends
        exact String.toList_inj.1 isText
  · exact absurd ends ((isKey_key path).long (Nat.lt_of_not_le short)).2

/-! ## Changes in a row -/

/-- A change of the files. -/
inductive Change where
  | insert (path : Path) (content : List UInt8)
  | remove (path : Path)

namespace Change

def path : Change → Path
  | insert path _ => path
  | remove path => path

def apply (memory : MemoryFiles) : Change → MemoryFiles
  | insert path content => memory.insert path content
  | remove path => memory.remove path

end Change

/-- The files behind changes in a row, of which the first one finds none. -/
def after (changes : List Change) : MemoryFiles :=
  changes.foldl Change.apply {}

/-- The content that changes leave under a key: the last change under it inserts this
content. -/
def Leaves (changes : List Change) (stored : String) (content : List UInt8) : Prop :=
  ∃ before path further, changes = before ++ Change.insert path content :: further ∧
    key path = stored ∧ ∀ change ∈ further, key change.path ≠ stored

/-- The keys under which changes leave something. -/
def liveKeys (changes : List Change) : Set String :=
  {stored | ∃ content, Leaves changes stored content}

theorem not_leaves_nil (stored : String) (content : List UInt8) : ¬ Leaves [] stored content := by
  rintro ⟨before, path, further, whole, -⟩
  simp at whole

/-- The last change decides about its own key, and about no other one. -/
theorem leaves_concat_iff (changes : List Change) (change : Change) (stored : String)
    (content : List UInt8) :
    Leaves (changes ++ [change]) stored content ↔
      if key change.path = stored then ∃ path, change = .insert path content
      else Leaves changes stored content := by
  constructor
  · rintro ⟨before, path, further, whole, isKey, others⟩
    rcases List.eq_nil_or_concat further with rfl | ⟨front, last, rfl⟩
    · obtain ⟨rfl, isLast⟩ := List.append_inj' whole rfl
      obtain rfl := (List.cons.inj isLast).1
      rw [if_pos (show key (Change.insert path content).path = stored from isKey)]
      exact ⟨path, rfl⟩
    · rw [List.concat_eq_append] at whole others
      rw [← List.cons_append, ← List.append_assoc] at whole
      obtain ⟨rfl, isLast⟩ := List.append_inj' whole rfl
      obtain rfl := (List.cons.inj isLast).1
      rw [if_neg (others change (List.mem_append_right front List.mem_cons_self))]
      exact ⟨before, path, front, rfl, isKey,
        fun other member => others other (List.mem_append_left _ member)⟩
  · intro left
    split at left
    · rename_i same
      obtain ⟨path, rfl⟩ := left
      exact ⟨changes, path, [], rfl, same, List.forall_mem_nil _⟩
    · rename_i other
      obtain ⟨before, path, further, rfl, isKey, others⟩ := left
      refine ⟨before, path, further ++ [change], by simp, isKey, ?_⟩
      intro later member
      rcases List.mem_append.1 member with inFurther | isLast
      · exact others later inFurther
      · rw [List.mem_singleton.1 isLast]
        exact other

theorem get?_apply (memory : MemoryFiles) (change : Change) (stored : String) :
    (change.apply memory).files.get? stored =
      if key change.path = stored then
        match change with
        | .insert _ content => some content
        | .remove _ => none
      else memory.files.get? stored := by
  cases change with
  | insert path content =>
      refine (Table.get?_insert memory.files (key path) stored content).trans ?_
      simp only [Change.path, eq_comm]
  | remove path =>
      refine (Table.get?_erase memory.files (key path) stored).trans ?_
      simp only [Change.path, eq_comm]

/-- What is found behind changes is what they leave. -/
theorem get?_after (changes : List Change) (stored : String) (content : List UInt8) :
    (after changes).files.get? stored = some content ↔ Leaves changes stored content := by
  induction changes using List.reverseRecOn with
  | nil => exact iff_of_false nofun (not_leaves_nil stored content)
  | append_singleton changes change inductionHypothesis =>
      have last : after (changes ++ [change]) = change.apply (after changes) := by
        unfold after
        rw [List.foldl_append]
        rfl
      rw [last, get?_apply, leaves_concat_iff]
      by_cases same : key change.path = stored
      · rw [if_pos same, if_pos same]
        cases change <;> simp
      · rw [if_neg same, if_neg same]
        exact inductionHypothesis

theorem get?_after_eq_none_iff (changes : List Change) (stored : String) :
    (after changes).files.get? stored = none ↔ stored ∉ liveKeys changes := by
  rw [Option.eq_none_iff_forall_ne_some]
  simp only [ne_eq, get?_after, liveKeys, Set.mem_ofPred_eq, not_exists]

theorem mem_keys_after_iff (changes : List Change) (stored : String) :
    stored ∈ (after changes).files.entries.map Prod.fst ↔ stored ∈ liveKeys changes := by
  rw [Table.mem_keys_iff]
  exact exists_congr (get?_after changes stored)

/-- Every file is counted once. -/
theorem encard_liveKeys (changes : List Change) :
    (liveKeys changes).encard = (after changes).size := by
  have keys : liveKeys changes = ((after changes).files.entries.map Prod.fst).toFinset := by
    ext stored
    rw [List.coe_toFinset, Set.mem_ofPred_eq, mem_keys_after_iff]
  rw [keys, Set.encard_coe_eq_coe_finsetCard,
    List.toFinset_card_of_nodup (after changes).files.nodup_keys, List.length_map]
  rfl

/-! ## Directories -/

/-- A text with a start does not come before it. -/
theorem not_lt_of_starts {start text : List Char} (starts : start <+: text) : ¬ text < start := by
  obtain ⟨rest, rfl⟩ := starts
  induction start with
  | nil => exact List.not_lt_nil _
  | cons c start inductionHypothesis =>
      rw [List.cons_append, List.cons_lt_cons_iff]
      rintro (less | ⟨-, less⟩)
      · exact Char.lt_irrefl c less
      · exact inductionHypothesis less

/-- Between a start and a text with this start there are only texts with it. -/
theorem prefix_of_between {start between text : List Char} (starts : start <+: text)
    (behindStart : ¬ between < start) (beforeText : ¬ text < between) : start <+: between := by
  induction start generalizing between text with
  | nil => exact List.nil_prefix
  | cons c start inductionHypothesis =>
      obtain ⟨rest, rfl⟩ := starts
      cases between with
      | nil => exact absurd (List.nil_lt_cons c start) behindStart
      | cons first between =>
          rw [List.cons_append] at beforeText
          rw [List.cons_lt_cons_iff] at behindStart beforeText
          obtain rfl : first = c :=
            Char.le_antisymm (Char.not_lt.1 (fun less => beforeText (.inl less)))
              (Char.not_lt.1 (fun less => behindStart (.inl less)))
          refine List.cons_prefix_cons.2 ⟨rfl, ?_⟩
          exact inductionHypothesis (List.prefix_append start rest)
            (fun less => behindStart (.inr ⟨rfl, less⟩))
            (fun less => beforeText (.inr ⟨rfl, less⟩))

/-- The first key from a start on tells as much as all keys do. -/
theorem isDirectory_iff (memory : MemoryFiles) (path : Path) :
    memory.isDirectory path = true ↔
      ∃ stored ∈ memory.files.entries.map Prod.fst, directoryStart path <+: stored.toList := by
  have behind_iff (stored : String) : ¬ stored < String.ofList (directoryStart path) ↔
      ¬ stored.toList < directoryStart path := by
    rw [String.lt_iff, String.toList_ofList]
  unfold isDirectory
  cases found : memory.files.firstFrom? (String.ofList (directoryStart path)) with
  | none =>
      refine iff_of_false nofun ?_
      rintro ⟨stored, isKey, starts⟩
      obtain ⟨entry, member, rfl⟩ := List.mem_map.1 isKey
      exact (behind_iff entry.1).2 (not_lt_of_starts starts)
        (Table.lt_of_firstFrom?_eq_none found member)
  | some first =>
      obtain ⟨isEntry, isBehind, least⟩ := Table.of_firstFrom?_eq_some found
      rw [List.isPrefixOf_iff_prefix]
      constructor
      · intro starts
        exact ⟨first.1, List.mem_map_of_mem isEntry, starts⟩
      · rintro ⟨stored, isKey, starts⟩
        obtain ⟨entry, member, rfl⟩ := List.mem_map.1 isKey
        apply prefix_of_between starts ((behind_iff first.1).1 isBehind)
        intro before
        exact (behind_iff entry.1).2 (not_lt_of_starts starts)
          (least entry member (String.lt_iff.2 before))

/-! ## Reading -/

theorem read_view_eq_ok_iff (memory : MemoryFiles) (path : Path) (content : List UInt8) :
    memory.view.read path = .ok content ↔ memory.get? path = some content := by
  unfold view
  dsimp only
  cases memory.get? path <;> simp

theorem read_view_eq_notFound_iff (memory : MemoryFiles) (path : Path) :
    memory.view.read path = .error (.notFound (key path)) ↔ memory.get? path = none := by
  unfold view
  dsimp only
  cases memory.get? path <;> simp

/-! ## Behind any changes -/

/-- Behind any changes the files are a map from keys to contents: a path shows what the
last change under its key has left. The files are counted by their keys, and a path is a
directory when some key starts with its own key and a slash. -/
theorem answers_after_changes (changes : List Change) (path : Path) :
    let memory := after changes
    let stored := key path
    IsKey path stored.toList ∧
    (∀ content, memory.view.read path = .ok content ↔ Leaves changes stored content) ∧
    (memory.view.read path = .error (.notFound stored) ↔ stored ∉ liveKeys changes) ∧
    (memory.view.isFile path = true ↔ stored ∈ liveKeys changes) ∧
    (∀ content, (memory.take path).1 = some content ↔ Leaves changes stored content) ∧
    (memory.take path).2 = after (changes ++ [.remove path]) ∧
    (liveKeys changes).encard = memory.size ∧
    (memory.view.isDirectory path = true ↔
      ∃ other ∈ liveKeys changes,
        (if stored.toList.getLast? = some '/' then stored.toList else stored.toList ++ ['/']) <+:
          other.toList) ∧
    ∀ entry ∈ memory.files.entries, '\\' ∉ entry.1.toList ∧
      (entry.1 ≠ "/" → entry.1.toList.getLast? ≠ some '/') := by
  intro memory stored
  have found := get?_after changes stored
  have missing := get?_after_eq_none_iff changes stored
  refine ⟨isKey_key path, ?_, ?_, ?_, found, ?_, encard_liveKeys changes, ?_, ?_⟩
  · exact fun content => (read_view_eq_ok_iff memory path content).trans (found content)
  · exact (read_view_eq_notFound_iff memory path).trans missing
  · rw [← not_iff_not, ← missing]
    exact Option.not_isSome_iff_eq_none
  · show memory.remove path = _
    unfold after
    rw [List.foldl_append]
    rfl
  · refine (isDirectory_iff memory path).trans (exists_congr fun other => ?_)
    rw [mem_keys_after_iff]
    rfl
  · intro entry member
    obtain ⟨content, before, other, further, -, isKey, -⟩ :=
      (mem_keys_after_iff changes entry.1).1 (List.mem_map_of_mem member)
    rw [← isKey]
    exact ⟨backslash_notMem_key other, mt key_eq_slash⟩

/-- A name that another one starts with is no directory of it. -/
example :
    let memory := ofList [(⟨"\\app\\src-old"⟩, []), (⟨"/app/src/App.vue//"⟩, [])]
    memory.isDirectory ⟨"/app/src/"⟩ = true ∧ memory.isDirectory ⟨"/app/sr"⟩ = false ∧
      memory.isDirectory ⟨"//"⟩ = true := by
  decide +kernel

end MemoryFiles

end VirtualBlocks
