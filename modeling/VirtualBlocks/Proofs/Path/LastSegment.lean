import VirtualBlocks.Proofs.Path.Components

/-!
Contract: the text of a path behind its last slash.

Owns:
- that text, and the path as a folder with it at the end;
- that it is the last step of the path, hence its file name, when it is a name.

Does not own: directories (`Proofs.Path.NormalForm`).
-/

namespace VirtualBlocks.Path

/-- The text of a path behind its last slash. -/
def lastSegment (path : Path) : String :=
  String.ofList (path.text.toList.reverse.takeWhile (· != '/')).reverse

variable {path : Path}

theorem slash_notMem_lastSegment (path : Path) : '/' ∉ path.lastSegment.toList := by
  unfold lastSegment
  rw [String.toList_ofList, List.mem_reverse]
  intro member
  have notSlash := List.all_eq_true.1 List.all_takeWhile _ member
  exact absurd notSlash (by decide)

theorem eq_lastSegment_or (path : Path) :
    path.text.toList = path.lastSegment.toList ∨
      ∃ folder, path.text.toList = folder ++ '/' :: path.lastSegment.toList := by
  let reversed := path.text.toList.reverse
  have last : path.lastSegment.toList = (reversed.takeWhile (· != '/')).reverse :=
    String.toList_ofList
  have whole : path.text.toList = (reversed.dropWhile (· != '/')).reverse ++
      path.lastSegment.toList := by
    rw [last, ← List.reverse_append, List.takeWhile_append_dropWhile, List.reverse_reverse]
  cases remaining : reversed.dropWhile (· != '/') with
  | nil =>
      rw [remaining, List.reverse_nil, List.nil_append] at whole
      exact .inl whole
  | cons c before =>
      have isSlash : c = '/' := by
        have stopped := List.head?_dropWhile_not (· != '/') reversed
        rw [remaining] at stopped
        simpa using stopped
      rw [remaining, isSlash, List.reverse_cons, List.append_assoc] at whole
      exact .inr ⟨before.reverse, whole⟩

/-- The segments of a path end with the last one. -/
theorem exists_splitOn_eq (path : Path) :
    ∃ front, path.text.toList.splitOn '/' = front ++ [path.lastSegment.toList] := by
  have single := List.splitOn_eq_singleton (slash_notMem_lastSegment path)
  rcases eq_lastSegment_or path with whole | ⟨folder, whole⟩
  · exact ⟨[], by rw [whole, single]; rfl⟩
  · exact ⟨folder.splitOn '/', by rw [whole, List.splitOn_append_cons_self, single]⟩

theorem exists_components_eq (isName : IsName path.lastSegment) :
    ∃ before, path.components = before ++ [.name path.lastSegment] := by
  obtain ⟨front, split⟩ := exists_splitOn_eq path
  have last : Component.ofSegment? path.lastSegment.toList = some (.name path.lastSegment) :=
    ofSegment?_of_isName isName
  have steps : ∀ segments, (segments ++ [path.lastSegment.toList]).filterMap
      Component.ofSegment? =
        segments.filterMap Component.ofSegment? ++ [.name path.lastSegment] := by
    intro segments
    rw [List.filterMap_append]
    simp [last]
  unfold components
  split
  · rename_i rest text
    rw [text, ← List.nil_append ('/' :: rest), List.splitOn_append_cons_self, List.splitOn_nil,
      List.singleton_append] at split
    cases front with
    | nil =>
        have noRest := (List.cons.inj split).2
        exact absurd noRest (List.splitOn_ne_nil _ _)
    | cons first front =>
        rw [(List.cons.inj split).2]
        exact ⟨.root :: front.filterMap Component.ofSegment?, congrArg (List.cons _) (steps front)⟩
  · rw [split]
    split
    · rename_i rest current
      cases front with
      | nil =>
          have notCurrent := (List.cons.inj current).1
          exact absurd (String.toList_inj.1 notCurrent) isName.notCurrent
      | cons first front =>
          rw [← (List.cons.inj current).2]
          exact ⟨.current :: front.filterMap Component.ofSegment?,
            congrArg (List.cons _) (steps front)⟩
    · exact ⟨front.filterMap Component.ofSegment?, steps front⟩

/-- A path that ends in a name has that name as its file name. -/
theorem fileName?_of_isName (isName : IsName path.lastSegment) :
    path.fileName? = some path.lastSegment := by
  obtain ⟨before, components⟩ := exists_components_eq isName
  unfold fileName?
  rw [components, List.getLast?_concat]

end VirtualBlocks.Path
