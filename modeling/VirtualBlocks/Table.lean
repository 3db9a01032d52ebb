/-!
Contract: finite tables keyed by text, kept in the order of their keys.

Owns:
- the table type, whose entries are strictly increasing by key, so that two
  tables with the same bindings are equal;
- look-up, by key and by the first key from some place on;
- binding a key, and overlaying one table on another;
- what is found after a key has been bound or removed, or every value replaced.

A later binding of a key replaces an earlier one.
-/

namespace VirtualBlocks

/-! ## Bindings -/

section Bindings

variable {κ α : Type} [BEq κ] [LawfulBEq κ] [DecidableEq κ]

/-- The first binding of a list counts if it has the key. -/
theorem lookup_binding_cons (key : κ) (first : κ × α) (rest : List (κ × α)) :
    (first :: rest).lookup key = if key = first.1 then some first.2 else rest.lookup key := by
  obtain ⟨name, bound⟩ := first
  by_cases same : key = name
  · simp [same]
  · simp [List.lookup_cons, same, beq_false_of_ne same]

/-- Without the bindings of a key nothing is found under that key, and all else
is. -/
theorem lookup_filter_ne (key other : κ) (entries : List (κ × α)) :
    (entries.filter (fun entry => entry.1 ≠ key)).lookup other =
      if other = key then none else entries.lookup other := by
  induction entries with
  | nil => simp
  | cons first rest inductionHypothesis =>
      by_cases dropped : first.1 = key
      · rw [List.filter_cons_of_neg (by simp [dropped]), inductionHypothesis, lookup_binding_cons]
        by_cases same : other = key
        · simp [same]
        · simp [same, dropped]
      · rw [List.filter_cons_of_pos (by simp [dropped]), lookup_binding_cons, lookup_binding_cons,
          inductionHypothesis]
        by_cases same : other = key
        · have differs : other ≠ first.1 := fun equal => dropped (equal ▸ same)
          rw [if_neg differs, if_pos same, if_pos same]
        · simp [same]

end Bindings

/-! ## Ordered bindings -/

/-- Entries with the binding `key ↦ value` put in its place. -/
def bindEntry {α : Type} (key : String) (value : α) :
    List (String × α) → List (String × α)
  | [] => [(key, value)]
  | entry :: rest =>
      if key < entry.1 then (key, value) :: entry :: rest
      else if entry.1 < key then entry :: bindEntry key value rest
      else (key, value) :: rest

/-- Every key of the result is the bound one or was there before. -/
theorem mem_bindEntry {α : Type} {key : String} {value : α}
    {entries : List (String × α)} {entry : String × α}
    (member : entry ∈ bindEntry key value entries) :
    entry = (key, value) ∨ entry ∈ entries := by
  induction entries with
  | nil => exact Or.inl (List.mem_singleton.1 member)
  | cons first rest inductionHypothesis =>
      simp only [bindEntry] at member
      split at member
      · exact (List.mem_cons.1 member).imp id id
      · split at member
        · rcases List.mem_cons.1 member with isFirst | inRest
          · exact Or.inr (isFirst ▸ List.mem_cons_self)
          · exact (inductionHypothesis inRest).imp id (List.mem_cons_of_mem first)
        · exact (List.mem_cons.1 member).imp id (List.mem_cons_of_mem first)

/-- Binding a key keeps the entries in the order of their keys. -/
theorem pairwise_bindEntry {α : Type} (key : String) (value : α)
    {entries : List (String × α)}
    (increasing : entries.Pairwise (fun left right => left.1 < right.1)) :
    (bindEntry key value entries).Pairwise (fun left right => left.1 < right.1) := by
  induction entries with
  | nil => exact List.pairwise_singleton _ _
  | cons first rest inductionHypothesis =>
      obtain ⟨below, restIncreasing⟩ := List.pairwise_cons.1 increasing
      simp only [bindEntry]
      split
      · rename_i keyFirst
        refine List.pairwise_cons.2 ⟨?_, increasing⟩
        intro entry member
        rcases List.mem_cons.1 member with isFirst | inRest
        · exact isFirst ▸ keyFirst
        · exact String.lt_trans keyFirst (below entry inRest)
      · rename_i notBefore
        split
        · rename_i firstKey
          refine List.pairwise_cons.2 ⟨?_, inductionHypothesis restIncreasing⟩
          intro entry member
          rcases mem_bindEntry member with isBound | inRest
          · exact isBound ▸ firstKey
          · exact below entry inRest
        · rename_i notAfter
          have same : key = first.1 :=
            String.le_antisymm (String.not_lt.1 notAfter) (String.not_lt.1 notBefore)
          refine List.pairwise_cons.2 ⟨?_, restIncreasing⟩
          intro entry member
          exact same ▸ below entry member

/-- Binding a key changes what is found under that key, and nothing else. -/
theorem lookup_bindEntry {α : Type} (key other : String) (value : α)
    (entries : List (String × α)) :
    (bindEntry key value entries).lookup other =
      if other = key then some value else entries.lookup other := by
  induction entries with
  | nil => simp [bindEntry, lookup_binding_cons]
  | cons first rest inductionHypothesis =>
      simp only [bindEntry]
      split
      · exact lookup_binding_cons other (key, value) (first :: rest)
      · rename_i notBefore
        split
        · rename_i firstBefore
          rw [lookup_binding_cons, lookup_binding_cons, inductionHypothesis]
          by_cases same : other = key
          · have differs : other ≠ first.1 := same ▸ (String.ne_of_lt firstBefore).symm
            rw [if_neg differs, if_pos same, if_pos same]
          · simp [same]
        · rename_i notAfter
          have sameName : first.1 = key :=
            String.le_antisymm (String.not_lt.1 notBefore) (String.not_lt.1 notAfter)
          rw [lookup_binding_cons, lookup_binding_cons]
          by_cases same : other = key
          · rw [if_pos same, if_pos same]
          · rw [if_neg same, if_neg same, if_neg (sameName ▸ same)]

/-! ## Tables -/

/-- A table from text to values: its entries, strictly increasing by key. -/
structure Table (α : Type) where
  entries : List (String × α)
  increasing : entries.Pairwise (fun left right => left.1 < right.1)
deriving DecidableEq

namespace Table

variable {α : Type}

def empty : Table α := ⟨[], List.Pairwise.nil⟩

instance : Inhabited (Table α) := ⟨empty⟩

instance : EmptyCollection (Table α) := ⟨empty⟩

def get? (table : Table α) (key : String) : Option α :=
  table.entries.lookup key

def contains (table : Table α) (key : String) : Bool :=
  (table.get? key).isSome

/-- The table with `key` bound to `value` and all else as before. -/
def insert (table : Table α) (key : String) (value : α) : Table α :=
  ⟨bindEntry key value table.entries, pairwise_bindEntry key value table.increasing⟩

/-- The table with each of the bindings put into it in turn. -/
def insertAll (table : Table α) (bindings : List (String × α)) : Table α :=
  bindings.foldl (fun bound binding => bound.insert binding.1 binding.2) table

/-- The table of a list of bindings, of which a later one wins. -/
def ofList (bindings : List (String × α)) : Table α :=
  empty.insertAll bindings

/-- The bindings of `upper` over those of `lower`. -/
def overlay (lower upper : Table α) : Table α :=
  lower.insertAll upper.entries

def erase (table : Table α) (key : String) : Table α :=
  ⟨table.entries.filter (fun entry => entry.1 ≠ key),
    List.Pairwise.filter _ table.increasing⟩

def size (table : Table α) : Nat :=
  table.entries.length

/-- The first entry whose key does not come before `start`. -/
def firstFrom? (table : Table α) (start : String) : Option (String × α) :=
  table.entries.find? (fun entry => !decide (entry.1 < start))

/-- The table with every value replaced by its image. -/
def map {β : Type} (image : α → β) (table : Table α) : Table β :=
  ⟨table.entries.map (fun entry => (entry.1, image entry.2)),
    List.pairwise_map.2 table.increasing⟩

/-- A bound key is found with its value, and all others as before. -/
theorem get?_insert (table : Table α) (key other : String) (value : α) :
    (table.insert key value).get? other =
      if other = key then some value else table.get? other :=
  lookup_bindEntry key other value table.entries

/-- A removed key is not found, and all others are as before. -/
theorem get?_erase (table : Table α) (key other : String) :
    (table.erase key).get? other = if other = key then none else table.get? other :=
  lookup_filter_ne key other table.entries

/-- A key is found with the image of its value. -/
theorem get?_map {β : Type} (image : α → β) (table : Table α) (key : String) :
    (table.map image).get? key = (table.get? key).map image := by
  show (table.entries.map (fun entry => (entry.1, image entry.2))).lookup key =
    (table.entries.lookup key).map image
  induction table.entries with
  | nil => rfl
  | cons first rest inductionHypothesis =>
      rw [List.map_cons, lookup_binding_cons, lookup_binding_cons, inductionHypothesis]
      split <;> rfl

@[simp] theorem get?_empty (key : String) : (empty : Table α).get? key = none := rfl

@[ext] theorem ext {left right : Table α} (equal : left.entries = right.entries) :
    left = right := by
  cases left
  cases right
  exact (Table.mk.injEq ..).mpr equal

end Table

end VirtualBlocks
