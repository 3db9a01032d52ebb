import VirtualBlocks.Json.Record
import VirtualBlocks.Proofs.Json.Tokens

/-!
Contract: written data is read back as the data it was written from.

Owns:
- a reader and a writer of data that fit together: what is written is a plain
  value, and reading undoes writing;
- that texts, flags, lists, tables and optional values have such a reader and
  writer when their parts have;
- the fields of a record, found under their names whether or not some of the
  fields are left out;
- a single field of any object, read if it is given once at most.

Does not own: the records of the library (`Proofs.Json.DataModel`).
-/

namespace VirtualBlocks

/-! ## Tables -/

namespace Table

variable {α : Type}

theorem bindEntry_concat {key : String} {value : α} {entries : List (String × α)}
    (last : ∀ entry ∈ entries, entry.1 < key) :
    bindEntry key value entries = entries ++ [(key, value)] := by
  induction entries with
  | nil => rfl
  | cons first rest inductionHypothesis =>
      obtain ⟨before, others⟩ := List.forall_mem_cons.1 last
      rw [bindEntry, if_neg (String.lt_asymm before), if_pos before, inductionHypothesis others]
      rfl

/-- Bindings that are in the order of their keys, and behind those of a table, are
put at its end. -/
theorem entries_insertAll {bindings : List (String × α)} {table : Table α}
    (increasing : (table.entries ++ bindings).Pairwise (fun left right => left.1 < right.1)) :
    (table.insertAll bindings).entries = table.entries ++ bindings := by
  induction bindings generalizing table with
  | nil => exact (List.append_nil table.entries).symm
  | cons binding rest inductionHypothesis =>
      have last : ∀ entry ∈ table.entries, entry.1 < binding.1 := fun entry member =>
        (List.pairwise_append.1 increasing).2.2 entry member binding List.mem_cons_self
      have inserted : (table.insert binding.1 binding.2).entries = table.entries ++ [binding] :=
        bindEntry_concat last
      have further := @inductionHypothesis (table.insert binding.1 binding.2)
      rw [inserted, List.append_assoc, List.singleton_append] at further
      exact further increasing

/-- A table is the table of its entries. -/
theorem ofList_entries (table : Table α) : Table.ofList table.entries = table :=
  Table.ext (entries_insertAll table.increasing)

end Table

namespace Json

variable {α : Type}

/-! ## Readers and writers -/

/-- What is written is a plain value, and is read as what it was written from. -/
structure ReadsBack (read : Json → Option α) (write : α → Json) : Prop where
  plain : ∀ value, IsPlain (write value)
  read_write : ∀ value, read (write value) = some value

namespace ReadsBack

theorem string : ReadsBack string? Json.string where
  plain content := .text (some content)
  read_write _ := rfl

theorem bool : ReadsBack bool? Json.bool where
  plain value := .bool value
  read_write _ := rfl

variable {read : Json → Option α} {write : α → Json}

theorem mapM_map {β : Type} {reader : β → Option α} {writer : α → β}
    (back : ∀ value, reader (writer value) = some value) (values : List α) :
    (values.map writer).mapM reader = some values := by
  induction values with
  | nil => rfl
  | cons value rest inductionHypothesis =>
      rw [List.map_cons, List.mapM_cons, back, inductionHypothesis]
      rfl

theorem list (back : ReadsBack read write) :
    ReadsBack (list? read) (fun values => .array (values.map write)) where
  plain _ := .array (List.forall_mem_map.2 (fun value _ => back.plain value))
  read_write := mapM_map back.read_write

theorem strings : ReadsBack (list? string?) Json.strings :=
  list string

/-- An optional value is read back unless `null` is written for some value. -/
theorem optional (back : ReadsBack read write) (notNull : ∀ value, write value ≠ .null) :
    ReadsBack (optional? read) (Json.optional write) where
  plain
    | none => .null
    | some value => back.plain value
  read_write
    | none => rfl
    | some value => by
        have present := back.read_write value
        have written := notNull value
        show optional? read (write value) = some (some value)
        unfold optional?
        split
        · contradiction
        · rw [present]
          rfl

theorem optionalString : ReadsBack (optional? string?) (Json.optional Json.string) :=
  string.optional nofun

theorem optionalStrings : ReadsBack (optional? (list? string?)) (Json.optional Json.strings) :=
  strings.optional nofun

end ReadsBack

theorem optionalString_eq_some_iff {value : Json} {content : Option String} :
    optional? string? value = some content ↔ value = Json.optional Json.string content := by
  constructor
  · intro read
    unfold optional? at read
    split at read
    · cases read
      rfl
    · obtain ⟨text, isText, rfl⟩ := Option.map_eq_some_iff.1 read
      unfold string? at isText
      split at isText
      · rw [isText]
        rfl
      · contradiction
  · rintro rfl
    exact ReadsBack.optionalString.read_write content

/-! ## Records -/

theorem isPlain_record {fields : List (String × Json)}
    (all : ∀ field ∈ fields, IsPlain field.2) : IsPlain (record fields) :=
  .object (List.forall_mem_map.2 all)

theorem keyed?_record (fields : List (String × Json)) : (record fields).keyed? = some fields :=
  @ReadsBack.mapM_map (String × Json) (Quoted × Json)
    (fun field => field.1.map (fun key => (key, field.2)))
    (fun field => (some field.1, field.2)) (fun _ => rfl) fields

theorem eq_map_of_mapM_key {entries : List (Quoted × Json)} {fields : List (String × Json)}
    (read : entries.mapM (fun field => field.1.map (fun key => (key, field.2))) = some fields) :
    entries = fields.map (fun field => (some field.1, field.2)) := by
  induction entries generalizing fields with
  | nil =>
      cases read
      rfl
  | cons entry rest inductionHypothesis =>
      obtain ⟨name, value⟩ := entry
      rw [List.mapM_cons] at read
      obtain ⟨first, isFirst, readRest⟩ := Option.bind_eq_some_iff.1 read
      obtain ⟨others, isOthers, isWhole⟩ := Option.bind_eq_some_iff.1 readRest
      obtain ⟨key, isKey, rfl⟩ := Option.map_eq_some_iff.1 isFirst
      cases isWhole
      rw [List.map_cons, ← inductionHypothesis isOthers, ← isKey]

theorem keyed?_eq_some_iff {value : Json} {fields : List (String × Json)} :
    value.keyed? = some fields ↔ value = record fields := by
  constructor
  · intro read
    unfold keyed? at read
    split at read
    · exact congrArg Json.object (eq_map_of_mapM_key read)
    · contradiction
  · rintro rfl
    exact keyed?_record fields

/-- The names that an object gives its fields, if every key is a text. -/
def names? (value : Json) : Option (List String) :=
  value.keyed?.map (·.map Prod.fst)

theorem names?_record (fields : List (String × Json)) :
    (record fields).names? = some (fields.map Prod.fst) := by
  unfold names?
  rw [keyed?_record, Option.map_some]

/-- A record whose fields are among the given ones, and in their order, is read as
its fields. -/
theorem fields?_record {names : List String} (distinct : names.Nodup)
    {fields : List (String × Json)} (listed : (fields.map Prod.fst).Sublist names) :
    (record fields).fields? names = some fields := by
  have known : fields.filter (fun field => names.contains field.1) = fields := by
    rw [List.filter_eq_self]
    intro field member
    exact List.contains_iff_mem.2 (listed.subset (List.mem_map_of_mem member))
  show ((record fields).keyed? >>= _) = _
  rw [keyed?_record]
  simp only [Option.bind_eq_bind, Option.bind_some]
  rw [known, if_pos (distinct.sublist listed)]

theorem Fields.get_cons (name key : String) (value : Json) (rest : Fields)
    (read : Json → Option α) (absent : α) :
    Fields.get ((key, value) :: rest) name read absent =
      if name = key then read value else Fields.get rest name read absent := by
  unfold Fields.get
  rw [lookup_binding_cons]
  by_cases same : name = key
  · rw [if_pos same, if_pos same]
  · rw [if_neg same, if_neg same]

theorem Fields.get_nil (name : String) (read : Json → Option α) (absent : α) :
    Fields.get [] name read absent = some absent := rfl

/-! ## A single field -/

theorem filter_key_eq_nil_iff {name : String} {fields : Fields} :
    fields.filter (fun field => field.1 == name) = [] ↔ name ∉ fields.map Prod.fst := by
  rw [List.filter_eq_nil_iff, List.mem_map, not_exists]
  simp only [beq_iff_eq, not_and]

theorem filter_key_eq_singleton_iff {name : String} {fields : Fields} {field : String × Json} :
    fields.filter (fun field => field.1 == name) = [field] ↔
      ∃ before after, fields = before ++ field :: after ∧ field.1 = name ∧
        name ∉ before.map Prod.fst ∧ name ∉ after.map Prod.fst := by
  rw [List.filter_eq_cons_iff]
  constructor
  · rintro ⟨before, after, rfl, others, same, nothing⟩
    exact ⟨before, after, rfl, beq_iff_eq.1 same,
      filter_key_eq_nil_iff.1 (List.filter_eq_nil_iff.2 others), filter_key_eq_nil_iff.1 nothing⟩
  · rintro ⟨before, after, rfl, same, notBefore, notAfter⟩
    exact ⟨before, after, rfl, List.filter_eq_nil_iff.1 (filter_key_eq_nil_iff.2 notBefore),
      beq_iff_eq.2 same, filter_key_eq_nil_iff.2 notAfter⟩

/-- A single field of a record is read if it is given once at most. -/
theorem get_fields?_record (fields : Fields) (name : String) (read : Json → Option α)
    (absent : α) :
    ((record fields).fields? [name]).bind (fun known => known.get name read absent) =
      match fields.filter (fun field => field.1 == name) with
      | [] => some absent
      | [field] => read field.2
      | _ => none := by
  have sameNames : (fun field : String × Json => [name].contains field.1) =
      (fun field => field.1 == name) := by
    funext field
    rw [List.contains_cons, List.contains_nil, Bool.or_false]
  have known : (record fields).fields? [name] =
      (let known := fields.filter (fun field => field.1 == name)
      if (known.map Prod.fst).Nodup then some known else none) := by
    show ((record fields).keyed? >>= _) = _
    rw [keyed?_record, sameNames]
    rfl
  have allNamed : ∀ field ∈ fields.filter (fun field => field.1 == name), field.1 = name :=
    fun field member => beq_iff_eq.1 (List.mem_filter.1 member).2
  rw [known]
  generalize fields.filter (fun field => field.1 == name) = named at allNamed ⊢
  match named with
  | [] => rfl
  | [(key, value)] =>
      obtain rfl : key = name := allNamed _ List.mem_cons_self
      have alone : ([(key, value)].map Prod.fst).Nodup := by simp
      rw [if_pos alone, Option.bind_some, Fields.get_cons, if_pos rfl]
  | first :: second :: rest =>
      have twice : ¬ ((first :: second :: rest).map Prod.fst).Nodup := by
        have firstNamed := allNamed first List.mem_cons_self
        have secondNamed := allNamed second (List.mem_cons_of_mem _ List.mem_cons_self)
        simp [firstNamed, secondNamed]
      rw [if_neg twice]
      rfl
/-! ## Fields that may be left out -/

/-- A field that is left out when it has no value. -/
def fieldIf (key : String) (value : Option Json) : Fields :=
  (value.map (fun present => (key, present))).toList

theorem Fields.get_fieldIf (name key : String) (value : Option Json) (rest : Fields)
    (read : Json → Option α) (absent : α) :
    Fields.get (fieldIf key value ++ rest) name read absent =
      if name = key then value.elim (Fields.get rest name read absent) read
      else Fields.get rest name read absent := by
  cases value with
  | none => exact (ite_self _).symm
  | some present => exact Fields.get_cons name key present rest read absent

theorem forall_mem_fieldIf {key : String} {value : Option Json} {holds : String × Json → Prop}
    (each : ∀ present ∈ value, holds (key, present)) : ∀ field ∈ fieldIf key value, holds field := by
  unfold fieldIf
  cases value with
  | none => simp
  | some present => simpa using each

theorem names_fieldIf_append {key : String} (value : Option Json) {rest : Fields}
    {names : List String} (listed : (rest.map Prod.fst).Sublist names) :
    ((fieldIf key value ++ rest).map Prod.fst).Sublist (key :: names) := by
  cases value with
  | none => exact listed.cons key
  | some present => exact listed.cons_cons key

theorem ReadsBack.table {read : Json → Option α} {write : α → Json}
    (back : ReadsBack read write) : ReadsBack (table? read) (Json.table write) where
  plain table := by
    apply isPlain_record
    unfold Table.map
    exact List.forall_mem_map.2 (fun entry _ => back.plain entry.2)
  read_write table := by
    have bindings : (table.map write).entries.mapM
        (fun field => (read field.2).map (fun bound => (field.1, bound))) = some table.entries := by
      apply mapM_map
      intro entry
      rw [back.read_write]
      rfl
    unfold table? Json.table
    rw [keyed?_record]
    simp only [Option.bind_eq_bind, Option.bind_some, bindings, Option.pure_def,
      Table.ofList_entries]

end Json

end VirtualBlocks
