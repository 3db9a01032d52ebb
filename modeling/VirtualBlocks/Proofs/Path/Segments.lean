import VirtualBlocks.Proofs.Path.Components

/-!
Contract: paths written as segments with one slash between two of them.

Owns:
- solid segments, each of which is a step of its own;
- the path of solid segments: its segments and its steps, the path that remains when the last
  segment is taken back, and the path with one more segment behind it.

Does not own: what a step up takes back (`Proofs.Path.Folded`). Here it is a segment like any
other one.
-/

namespace VirtualBlocks.Path

/-! ## Solid segments -/

/-- A segment that is a step wherever it stands. -/
structure IsSolid (segment : List Char) : Prop where
  single : '/' ∉ segment
  nonempty : segment ≠ []
  notCurrent : segment ≠ ['.']

theorem isSolid_parent : IsSolid ['.', '.'] := by
  constructor <;> simp

theorem isSolid_of_isName {name : String} (isName : IsName name) : IsSolid name.toList := by
  constructor
  · exact isName.single
  · simpa using isName.nonempty
  · exact fun same => isName.notCurrent (String.toList_inj.1 same)

namespace IsSolid

variable {segment : List Char} (solid : IsSolid segment)
include solid

theorem isStep (relative : Bool) (before : List (List Char)) :
    isStep relative before segment = true := by
  unfold Path.isStep
  split
  · exact absurd rfl solid.nonempty
  · exact absurd rfl solid.notCurrent
  · rfl

theorem head?_append_ne (rest : List Char) : (segment ++ rest).head? ≠ some '/' := by
  obtain ⟨first, others, rfl⟩ := List.exists_cons_of_ne_nil solid.nonempty
  have notSlash : '/' ≠ first := fun slash => solid.single (slash ▸ List.mem_cons_self)
  simpa using notSlash.symm

theorem getLast?_append_ne (front : List Char) : (front ++ segment).getLast? ≠ some '/' := by
  rcases List.eq_nil_or_concat segment with empty | ⟨others, last, rfl⟩
  · exact absurd empty solid.nonempty
  · rw [List.concat_eq_append] at solid ⊢
    have notSlash : '/' ≠ last := fun slash => solid.single (by simp [← slash])
    rw [← List.append_assoc, List.getLast?_concat]
    simpa using notSlash.symm

end IsSolid

theorem dropIdle_of_solid {segments : List (List Char)} (solid : ∀ s ∈ segments, IsSolid s)
    (relative : Bool) : dropIdle relative segments = segments := by
  cases segments with
  | nil => rfl
  | cons last before => exact if_pos ((solid last List.mem_cons_self).isStep relative before)

theorem splitOn_slash_cons (text : List Char) :
    ('/' :: text).splitOn '/' = [] :: text.splitOn '/' :=
  List.splitOn_append_cons_self [] text

theorem intercalate_concat {separator : Char} {parts : List (List Char)} (nonempty : parts ≠ [])
    (last : List Char) :
    [separator].intercalate (parts ++ [last]) =
      [separator].intercalate parts ++ separator :: last := by
  induction parts with
  | nil => contradiction
  | cons first rest inductionHypothesis =>
      cases rest with
      | nil => simp
      | cons next others =>
          have behind := inductionHypothesis (List.cons_ne_nil next others)
          simp only [List.cons_append, List.intercalate_cons_cons, List.append_assoc] at behind ⊢
          rw [behind]

/-- The steps of a relative path are those of its text, unless a dot starts it. -/
theorem components_of_relative {path : Path} (relative : path.isAbsolute = false)
    (noDot : (path.text.toList.splitOn '/').head? ≠ some ['.']) :
    path.components = steps path.text.toList := by
  unfold components
  split
  · rename_i rest starts
    unfold isAbsolute at relative
    rw [starts] at relative
    contradiction
  · split
    · rename_i rest split
      rw [split] at noDot
      contradiction
    · rfl

/-- A leading dot is a step of its own before those of the text. -/
theorem components_of_dot {path : Path} (relative : path.isAbsolute = false)
    (dot : (path.text.toList.splitOn '/').head? = some ['.']) :
    path.components = .current :: steps path.text.toList := by
  obtain ⟨rest, division⟩ := List.head?_eq_some_iff.1 dot
  unfold components steps
  split
  · rename_i rest starts
    unfold isAbsolute at relative
    rw [starts] at relative
    contradiction
  · rw [division]
    rfl

theorem parents_of_slash {path : Path} {rest : List Char}
    (starts : path.text.toList = '/' :: rest) :
    path.parents = (shortened false (rest.splitOn '/').reverse).map (ofSegments false) := by
  unfold parents
  rw [starts]
  rfl

theorem parents_of_relative {path : Path} (relative : path.isAbsolute = false) :
    path.parents =
      (shortened true (path.text.toList.splitOn '/').reverse).map (ofSegments true) := by
  unfold parents
  split
  · rename_i rest starts
    unfold isAbsolute at relative
    rw [starts] at relative
    contradiction
  · rfl

/-- Behind a path that is not empty and does not end in a slash stands a slash. -/
theorem join_of_getLast?_ne {base tail : Path} (relative : tail.isAbsolute = false)
    (nonempty : base.text.toList ≠ []) (ends : base.text.toList.getLast? ≠ some '/') :
    base.join tail = ⟨base.text ++ "/" ++ tail.text⟩ := by
  unfold join
  rw [relative, if_neg Bool.false_ne_true]
  split
  · rename_i empty
    exact absurd (List.getLast?_eq_none_iff.1 empty) nonempty
  · contradiction
  · rfl

/-! ## The path of solid segments -/

section OfSegments

variable (relative : Bool) {segments : List (List Char)}

theorem toList_ofSegments (segments : List (List Char)) :
    (ofSegments relative segments).text.toList =
      if relative then ['/'].intercalate segments.reverse
      else '/' :: ['/'].intercalate segments.reverse :=
  String.toList_ofList

/-- The text ends with the last segment. -/
theorem exists_append_ofSegments (last : List Char) (before : List (List Char)) :
    ∃ front, (ofSegments relative (last :: before)).text.toList = front ++ last := by
  have joined : ∃ front, ['/'].intercalate (last :: before).reverse = front ++ last := by
    rw [List.reverse_cons]
    by_cases empty : before = []
    · exact ⟨[], by simp [empty]⟩
    · exact ⟨['/'].intercalate before.reverse ++ ['/'], by
        rw [intercalate_concat (by simpa using empty), List.append_assoc]; rfl⟩
  obtain ⟨front, joined⟩ := joined
  rw [toList_ofSegments, joined]
  cases relative with
  | true => exact ⟨front, rfl⟩
  | false => exact ⟨'/' :: front, rfl⟩

variable (solid : ∀ s ∈ segments, IsSolid s)
include solid

theorem head?_intercalate_ne : (['/'].intercalate segments).head? ≠ some '/' := by
  cases segments with
  | nil => simp
  | cons first rest =>
      have firstSolid := solid first List.mem_cons_self
      cases rest with
      | nil => simpa using firstSolid.head?_append_ne []
      | cons next others =>
          rw [List.intercalate_cons_cons, List.append_assoc]
          exact firstSolid.head?_append_ne _

theorem solid_reverse : ∀ s ∈ segments.reverse, IsSolid s :=
  fun s member => solid s (List.mem_reverse.1 member)

theorem isAbsolute_ofSegments : (ofSegments relative segments).isAbsolute = !relative := by
  unfold isAbsolute
  rw [toList_ofSegments]
  cases relative with
  | true => simpa using head?_intercalate_ne (solid_reverse solid)
  | false => rfl

/-- The segments between the slashes are those that the path is made of. -/
theorem splitOn_ofSegments (nonempty : segments ≠ []) :
    (ofSegments relative segments).text.toList.splitOn '/' =
      if relative then segments.reverse else [] :: segments.reverse := by
  have single : ∀ s ∈ segments.reverse, '/' ∉ s := fun s member =>
    (solid_reverse solid s member).single
  have between : (['/'].intercalate segments.reverse).splitOn '/' = segments.reverse :=
    List.splitOn_intercalate '/' single (by simpa using nonempty)
  rw [toList_ofSegments]
  cases relative with
  | true => exact between
  | false =>
      rw [if_neg Bool.false_ne_true, if_neg Bool.false_ne_true, splitOn_slash_cons, between]

theorem components_ofSegments :
    (ofSegments relative segments).components =
      if relative then segments.reverse.filterMap Component.ofSegment?
      else .root :: segments.reverse.filterMap Component.ofSegment? := by
  have single : ∀ s ∈ segments.reverse, '/' ∉ s := fun s member =>
    (solid_reverse solid s member).single
  have absolute := isAbsolute_ofSegments relative solid
  cases relative with
  | true =>
      have noDot : ((ofSegments true segments).text.toList.splitOn '/').head? ≠ some ['.'] := by
        by_cases nonempty : segments = []
        · subst nonempty
          decide
        · rw [splitOn_ofSegments true solid nonempty, if_pos rfl]
          intro dot
          exact (solid_reverse solid _ (List.mem_of_mem_head? dot)).notCurrent rfl
      rw [components_of_relative absolute noDot, toList_ofSegments]
      simp only [if_true, steps_intercalate _ single]
  | false =>
      rw [components_of_isAbsolute absolute, toList_ofSegments]
      simp only [Bool.false_eq_true, if_false, steps_cons, steps_intercalate _ single]

/-- Taking the last segment back leaves the path of the ones before it. -/
theorem parent?_ofSegments {last : List Char} (lastSolid : IsSolid last) :
    (ofSegments relative (last :: segments)).parent? = some (ofSegments relative segments) := by
  have allSolid : ∀ s ∈ last :: segments, IsSolid s := List.forall_mem_cons.2 ⟨lastSolid, solid⟩
  have division := splitOn_ofSegments relative allSolid (List.cons_ne_nil last segments)
  have shorter : (shortened relative (last :: segments)).head? = some segments := by
    rw [shortened, if_pos (lastSolid.isStep relative segments), List.head?_cons,
      dropIdle_of_solid solid]
  unfold parent?
  cases relative with
  | true =>
      rw [parents_of_relative (isAbsolute_ofSegments true allSolid), division, if_pos rfl,
        List.reverse_reverse, List.head?_map, shorter]
      rfl
  | false =>
      have text := toList_ofSegments false (last :: segments)
      simp only [Bool.false_eq_true, if_false] at text division
      rw [text, splitOn_slash_cons] at division
      rw [parents_of_slash text, (List.cons.inj division).2, List.reverse_reverse,
        List.head?_map, shorter]
      rfl

/-- One more segment stands behind the ones before it. -/
theorem join_ofSegments {last : List Char} (lastSolid : IsSolid last) :
    (ofSegments relative segments).join ⟨String.ofList last⟩ =
      ofSegments relative (last :: segments) := by
  have relativeTail : (⟨String.ofList last⟩ : Path).isAbsolute = false := by
    unfold isAbsolute
    simpa using lastSolid.head?_append_ne []
  cases segments with
  | nil =>
      unfold join
      rw [relativeTail, if_neg Bool.false_ne_true]
      cases relative with
      | true => simp [ofSegments]
      | false => simp [ofSegments]
  | cons before others =>
      have beforeSolid := solid before List.mem_cons_self
      obtain ⟨front, text⟩ := exists_append_ofSegments relative before others
      have nonempty : (ofSegments relative (before :: others)).text.toList ≠ [] := by
        rw [text]
        exact List.append_ne_nil_of_right_ne_nil front beforeSolid.nonempty
      have ends : (ofSegments relative (before :: others)).text.toList.getLast? ≠ some '/' := by
        rw [text]
        exact beforeSolid.getLast?_append_ne front
      have joined := @intercalate_concat '/' (before :: others).reverse (by simp) last
      have sameText :
          ((ofSegments relative (before :: others)).text ++ "/" ++ String.ofList last).toList =
            (ofSegments relative (last :: before :: others)).text.toList := by
        rw [toList_ofSegments, List.reverse_cons, joined]
        simp only [String.toList_append, String.toList_ofList, toList_ofSegments]
        cases relative with
        | true => simp
        | false => simp
      rw [join_of_getLast?_ne relativeTail nonempty ends]
      exact congrArg Path.mk (String.toList_inj.1 sameText)

end OfSegments

end VirtualBlocks.Path
