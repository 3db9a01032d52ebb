import VirtualBlocks.Block.Descriptor
import VirtualBlocks.Path

/-!
Contract: the current descriptor of each file.

Owns:
- the store, which holds one descriptor a file; two paths name one file when
  their components agree;
- publishing, looking up, removing and counting;
- what is found after a descriptor has been published or removed.
-/

namespace VirtualBlocks

/-- The descriptors by the components of their file. -/
structure Store where
  entries : List (List Path.Component × Descriptor)
  distinct : (entries.map Prod.fst).Nodup

namespace Store

def empty : Store := ⟨[], List.nodup_nil⟩

instance : Inhabited Store := ⟨empty⟩

def get? (store : Store) (file : Path) : Option Descriptor :=
  store.entries.lookup file.components

def contains (store : Store) (file : Path) : Bool :=
  (store.get? file).isSome

def size (store : Store) : Nat :=
  store.entries.length

/-- The entries of all files but one. -/
def others (store : Store) (file : Path) : List (List Path.Component × Descriptor) :=
  store.entries.filter (fun entry => entry.1 ≠ file.components)

private theorem nodup_others (store : Store) (file : Path) :
    ((store.others file).map Prod.fst).Nodup :=
  List.Nodup.sublist (List.Sublist.map Prod.fst List.filter_sublist) store.distinct

private theorem components_notMem_others (store : Store) (file : Path) :
    file.components ∉ (store.others file).map Prod.fst := by
  intro member
  obtain ⟨entry, entryMember, same⟩ := List.mem_map.1 member
  have differs := (List.mem_filter.1 entryMember).2
  simp [same] at differs

/-- The store without the descriptor of a file. -/
def remove (store : Store) (file : Path) : Store :=
  ⟨store.others file, nodup_others store file⟩

/-- The store in which this is the descriptor of a file. -/
def insert (store : Store) (file : Path) (descriptor : Descriptor) : Store :=
  ⟨(file.components, descriptor) :: store.others file,
    List.nodup_cons.2 ⟨components_notMem_others store file, nodup_others store file⟩⟩

/-! ## Descriptors after a change -/

/-- A removed file has no descriptor, and all others are as before. -/
theorem get?_remove (store : Store) (file other : Path) :
    (store.remove file).get? other = if other.SameFile file then none else store.get? other :=
  lookup_filter_ne file.components other.components store.entries

/-- An inserted descriptor is found under every path of its file, and all others
are as before. -/
theorem get?_insert (store : Store) (file other : Path) (descriptor : Descriptor) :
    (store.insert file descriptor).get? other =
      if other.SameFile file then some descriptor else store.get? other := by
  have inserted :=
    lookup_binding_cons other.components (file.components, descriptor) (store.others file)
  have remaining := store.get?_remove file other
  by_cases same : other.SameFile file
  · rw [if_pos same]
    exact inserted.trans (if_pos same)
  · rw [if_neg same] at remaining ⊢
    exact inserted.trans ((if_neg same).trans remaining)

/-- The later of two descriptors of one file replaces the earlier one. -/
theorem insert_insert (store : Store) (file : Path) (first second : Descriptor) :
    (store.insert file first).insert file second = store.insert file second := by
  have sameOthers : (store.insert file first).others file = store.others file := by
    show ((file.components, first) :: store.others file).filter _ = store.others file
    rw [List.filter_cons_of_neg (by simp)]
    exact List.filter_filter.trans (by simp only [Bool.and_self]; rfl)
  have sameEntries :
      ((store.insert file first).insert file second).entries =
        (store.insert file second).entries :=
    congrArg (List.cons (file.components, second)) sameOthers
  generalize (store.insert file first).insert file second = left at sameEntries
  generalize store.insert file second = right at sameEntries
  cases left
  cases right
  cases sameEntries
  rfl

@[simp] theorem get?_empty (file : Path) : empty.get? file = none := rfl

end Store

end VirtualBlocks
