import VirtualBlocks.Markup.Element
import VirtualBlocks.Proofs.Text.Positions

/-!
Contract: the loops that read markup, turn by turn.

Owns:
- a loop over the text that is left, told from its turns;
- what follows when every turn leaves a shorter end of its text: the loop ends,
  and each turn starts further on in the source and between two characters;
- the turns of the four loops: to the next opening tag, through the attributes of
  a tag, to the end of a content, and from element to element.

Does not own: what the loops find (`Proofs.Markup.Layout`).
-/

namespace VirtualBlocks.Markup

open VirtualBlocks.Text

/-! ## Loops -/

/-- One turn of a loop over the text that is left. It ends the loop, or the loop
goes on and its result is finished. -/
inductive Turn (State Result : Type) where
  | ends (result : Result)
  | goesOn (state : State) (left : List Char) (finish : Result → Result)

section Loops

variable {State Result : Type}

/-- The result of a loop whose next turn this is. -/
def Turn.result (run : State → List Char → Result) : Turn State Result → Result
  | .ends result => result
  | .goesOn next left finish => finish (run next left)

/-- A turn over a text leaves a shorter end of it if the loop goes on. -/
def Turn.Shortens (text : List Char) : Turn State Result → Prop
  | .ends _ => True
  | .goesOn _ left _ => left <:+ text ∧ left.length < text.length

/-- A function as a loop, which takes one turn after the other. -/
def IsLoop (run : State → List Char → Result)
    (turn : State → List Char → Turn State Result) : Prop :=
  ∀ state text,
    run state text = (turn state text).result run ∧ (turn state text).Shortens text

/-- Where a loop stands after some turns, if it takes so many. -/
def after? (turn : State → List Char → Turn State Result) :
    Nat → State → List Char → Option (State × List Char)
  | 0, state, text => some (state, text)
  | turns + 1, state, text =>
      match turn state text with
      | .ends _ => none
      | .goesOn next left _ => after? turn turns next left

/-- What a loop does on a source, wherever in the source it starts: one of its
turns is the last, every turn starts between two characters, and each but the
first starts at least one byte behind the turn before it. -/
structure ScansForward (source : String) (run : State → List Char → Result)
    (turn : State → List Char → Turn State Result) : Prop where
  isLoop : IsLoop run turn
  ends : ∀ state text, ∃ turns ≤ text.length, ∃ last left result,
    after? turn turns state text = some (last, left) ∧ turn last left = .ends result
  advances : ∀ {state next text left turns}, text <:+ source.toList →
    after? turn turns state text = some (next, left) →
      left <:+ source.toList ∧ IsOffset source (offsetOf source left) ∧
        offsetOf source text + turns ≤ offsetOf source left

variable {run : State → List Char → Result} {turn : State → List Char → Turn State Result}

theorem IsLoop.of_goesOn (isLoop : IsLoop run turn) {state next : State} {text left : List Char}
    {finish : Result → Result} (goesOn : turn state text = .goesOn next left finish) :
    left <:+ text ∧ left.length < text.length := by
  have shortens := (isLoop state text).2
  rw [goesOn] at shortens
  exact shortens

theorem IsLoop.ends (isLoop : IsLoop run turn) (state : State) (text : List Char) :
    ∃ turns ≤ text.length, ∃ last left result,
      after? turn turns state text = some (last, left) ∧ turn last left = .ends result := by
  induction size : text.length using Nat.strongRecOn generalizing state text with
  | ind length inductionHypothesis =>
      cases first : turn state text with
      | ends result => exact ⟨0, Nat.zero_le _, state, text, result, rfl, first⟩
      | goesOn next inner finish =>
          have shorter := (isLoop.of_goesOn first).2
          rw [size] at shorter
          obtain ⟨turns, few, last, left, result, taken, final⟩ :=
            inductionHypothesis inner.length shorter next inner rfl
          refine ⟨turns + 1, by omega, last, left, result, ?_, final⟩
          unfold after?
          rw [first]
          exact taken

theorem IsLoop.advances (isLoop : IsLoop run turn) {source : String} {state next : State}
    {text left : List Char} (within : text <:+ source.toList) {turns : Nat}
    (taken : after? turn turns state text = some (next, left)) :
    left <:+ source.toList ∧ offsetOf source text + turns ≤ offsetOf source left := by
  induction turns generalizing state text with
  | zero =>
      obtain ⟨-, rfl⟩ := Prod.mk.inj (Option.some.inj taken)
      exact ⟨within, Nat.le_refl _⟩
  | succ turns inductionHypothesis =>
      unfold after? at taken
      cases first : turn state text with
      | ends result =>
          rw [first] at taken
          contradiction
      | goesOn middle inner finish =>
          rw [first] at taken
          obtain ⟨⟨passed, divided⟩, shorter⟩ := isLoop.of_goesOn first
          have nonempty : passed ≠ [] := by
            intro empty
            rw [← divided, empty] at shorter
            exact Nat.lt_irrefl _ shorter
          rw [← divided] at within ⊢
          obtain ⟨leftWithin, further⟩ :=
            inductionHypothesis ((List.suffix_append passed inner).trans within) taken
          have oneTurn := offsetOf_lt_of_append within nonempty
          exact ⟨leftWithin, by omega⟩

theorem IsLoop.scansForward (isLoop : IsLoop run turn) (source : String) :
    ScansForward source run turn where
  isLoop := isLoop
  ends := isLoop.ends
  advances within taken :=
    have ⟨leftWithin, further⟩ := isLoop.advances within taken
    ⟨leftWithin, isOffset_offsetOf leftWithin, further⟩

end Loops

/-! ## What each reader leaves -/

theorem afterFirst_suffix (marker text : List Char) : afterFirst marker text <:+ text := by
  unfold afterFirst
  split
  · rename_i through rest cut
    exact ⟨through, append_of_cutThrough? cut⟩
  · exact List.nil_suffix

theorem toNextTag_suffix (text : List Char) : toNextTag text <:+ text := by
  fun_induction toNextTag text with
  | case1 => exact List.suffix_refl []
  | case2 c rest _ inductionHypothesis => exact inductionHypothesis.trans (List.suffix_cons c rest)
  | case3 c rest _ _ inductionHypothesis => exact inductionHypothesis.trans (afterFirst_suffix _ _)
  | case4 => exact List.nil_suffix
  | case5 c rest _ _ _ _ _ inductionHypothesis =>
      exact inductionHypothesis.trans (afterFirst_suffix _ _)
  | case6 c rest => exact List.suffix_refl (c :: rest)
  | case7 c rest _ _ _ _ _ _ inductionHypothesis =>
      exact inductionHypothesis.trans (List.suffix_cons c rest)

theorem suffix_of_dropWhile_eq {isIn : Char → Bool} {text left : List Char} {c : Char}
    (dropped : text.dropWhile isIn = c :: left) : left <:+ text :=
  (List.suffix_cons c left).trans (dropped ▸ List.dropWhile_suffix isIn)

theorem suffix_of_readAttribute {name : String} {text after : List Char} {value : Attribute}
    (read : readAttribute name text = .ok (value, after)) : after <:+ text := by
  unfold readAttribute at read
  split at read
  · rename_i rest afterBlanks
    have restWithin := suffix_of_dropWhile_eq afterBlanks
    split at read
    · cases read
      exact List.nil_suffix
    · rename_i first inner afterEquals
      have innerWithin := (suffix_of_dropWhile_eq afterEquals).trans restWithin
      split at read
      · split at read
        · contradiction
        · rename_i closing
          cases read
          exact (suffix_of_dropWhile_eq closing).trans innerWithin
      · cases read
        apply (List.dropWhile_suffix isBareValueChar).trans
        rw [← afterEquals]
        exact (List.dropWhile_suffix isMarkupBlank).trans restWithin
  · cases read
    exact List.dropWhile_suffix isMarkupBlank

theorem suffix_of_readAttributes {tag : String} {attributes : Table Attribute}
    {text after : List Char} {opened : OpenTag}
    (read : readAttributes tag attributes text = .ok (opened, after)) : after <:+ text := by
  fun_induction readAttributes tag attributes text with
  | case1 => contradiction
  | case2 attributes text rest separated =>
      cases read
      exact suffix_of_dropWhile_eq separated
  | case3 attributes text rest separated =>
      cases read
      exact (List.suffix_cons '>' after).trans (suffix_of_dropWhile_eq separated)
  | case4 => contradiction
  | case5 attributes text first rest _ _ separated named name value remaining valueRead
      inductionHypothesis =>
      have afterName := @List.dropWhile_suffix Char (first :: rest) isAttributeNameChar
      have afterValue := (suffix_of_readAttribute valueRead).trans afterName
      rw [← separated] at afterValue
      exact (inductionHypothesis read).trans (afterValue.trans (List.dropWhile_suffix _))
  | case6 attributes text first rest _ _ separated _ inductionHypothesis =>
      exact (inductionHypothesis read).trans (suffix_of_dropWhile_eq separated)

theorem suffix_of_readOpenTag {text after : List Char} {opened : OpenTag}
    (read : readOpenTag text = .ok (opened, after)) : after <:+ text :=
  (suffix_of_readAttributes read).trans (List.dropWhile_suffix isTagNameChar)

/-- What follows the next opening tag ends the text. -/
theorem suffix_of_nextTag {text rest inside : List Char} {mark : Char} {opened : OpenTag}
    (found : toNextTag text = mark :: rest) (read : readOpenTag rest = .ok (opened, inside)) :
    inside <:+ text :=
  (suffix_of_readOpenTag read).trans
    ((List.suffix_cons mark rest).trans (found ▸ toNextTag_suffix text))

private theorem exists_closing_of_prepend {piece left text content after : List Char}
    {read : Option (List Char × List Char)} (divided : piece ++ left = text)
    (behind : ∀ {inner}, read = some (inner, after) →
      ∃ closing, inner ++ (closing ++ after) = left)
    (prepended : prepend piece read = some (content, after)) :
    ∃ closing, content ++ (closing ++ after) = text := by
  obtain ⟨inner, innerRead, rfl⟩ := prepend_eq_some prepended
  obtain ⟨closing, innerDivided⟩ := behind innerRead
  exact ⟨closing, by rw [List.append_assoc, innerDivided, divided]⟩

/-- A content that is read starts the text, and what follows its closing tag ends
it. -/
theorem exists_closing_of_body? {name text content after : List Char} {raw : Bool} {depth : Nat}
    (read : body? name raw depth text = some (content, after)) :
    ∃ closing, content ++ (closing ++ after) = text := by
  fun_induction body? name raw depth text generalizing content after with
  | case1 => contradiction
  | case2 _ c rest _ inductionHypothesis =>
      exact exists_closing_of_prepend List.singleton_append inductionHypothesis read
  | case3 => contradiction
  | case4 _ c rest _ _ comment remaining cut inductionHypothesis =>
      exact exists_closing_of_prepend (append_of_cutThrough? cut) inductionHypothesis read
  | case5 c rest =>
      cases read
      exact afterFirst_suffix ['>'] (c :: rest)
  | case6 c rest _ _ _ _ outer inductionHypothesis =>
      exact exists_closing_of_prepend List.singleton_append inductionHypothesis read
  | case7 _ c rest _ _ _ _ inductionHypothesis =>
      exact exists_closing_of_prepend List.singleton_append inductionHypothesis read
  | case8 => contradiction
  | case9 _ c rest _ _ _ _ tag remaining cut _ inductionHypothesis =>
      exact exists_closing_of_prepend (append_of_cutThrough? cut) inductionHypothesis read
  | case10 _ c rest _ _ _ _ tag remaining cut _ inductionHypothesis =>
      exact exists_closing_of_prepend (append_of_cutThrough? cut) inductionHypothesis read
  | case11 _ c rest _ _ _ _ inductionHypothesis =>
      exact exists_closing_of_prepend List.singleton_append inductionHypothesis read

/-! ## Turns -/

def nextTagTurn (_ : Unit) : List Char → Turn Unit (List Char)
  | [] => .ends []
  | c :: rest =>
      if c ≠ '<' then .goesOn () rest id
      else if commentStart.isPrefixOf (c :: rest) then
        .goesOn () (afterFirst commentEnd (c :: rest)) id
      else
        match rest.head? with
        | none => .ends []
        | some next =>
            if opensAside next then .goesOn () (afterFirst ['>'] (c :: rest)) id
            else if next.isAlpha then .ends (c :: rest)
            else .goesOn () rest id

def attributesTurn (tag : String) (attributes : Table Attribute) (text : List Char) :
    Turn (Table Attribute) (Except TagFault (OpenTag × List Char)) :=
  match text.dropWhile isMarkupBlank with
  | [] => .ends (.error (.unclosed tag))
  | '>' :: rest => .ends (.ok (⟨tag, attributes, false⟩, rest))
  | '/' :: '>' :: rest => .ends (.ok (⟨tag, attributes, true⟩, rest))
  | first :: rest =>
      if isAttributeNameChar first then
        let name := String.ofList ((first :: rest).takeWhile isAttributeNameChar)
        match readAttribute name ((first :: rest).dropWhile isAttributeNameChar) with
        | .error fault => .ends (.error fault)
        | .ok (value, after) => .goesOn (attributes.insert name value) after id
      else .goesOn attributes rest id

def bodyTurn (name : List Char) (raw : Bool) (depth : Nat) :
    List Char → Turn Nat (Option (List Char × List Char))
  | [] => .ends none
  | c :: rest =>
      if c ≠ '<' then .goesOn depth rest (prepend [c])
      else if !raw && commentStart.isPrefixOf (c :: rest) then
        match cutThrough? commentEnd (c :: rest) with
        | none => .ends none
        | some (comment, after) => .goesOn depth after (prepend comment)
      else if rest.head? = some '/' then
        if startsWithTag name rest.tail then
          match depth with
          | 0 => .ends (some ([], afterFirst ['>'] (c :: rest)))
          | outer + 1 => .goesOn outer rest (prepend [c])
        else .goesOn depth rest (prepend [c])
      else if !raw && startsWithTag name rest then
        match cutThrough? ['>'] (c :: rest) with
        | none => .ends none
        | some (tag, after) =>
            if endsSelfClosing tag then .goesOn depth after (prepend tag)
            else .goesOn (depth + 1) after (prepend tag)
      else .goesOn depth rest (prepend [c])

/-- A reading with an element before it. -/
def Reading.withFirst (element : Element) (reading : Reading) : Reading :=
  { reading with elements := element :: reading.elements }

def elementsTurn (source : List Char) (_ : Unit) (text : List Char) : Turn Unit Reading :=
  match toNextTag text with
  | [] => .ends ⟨[], none⟩
  | mark :: rest =>
      let start := Place.before source (mark :: rest)
      match readOpenTag rest with
      | .error fault => .ends ⟨[], some ⟨.tag fault, start⟩⟩
      | .ok (tag, inside) =>
          let contentStart := Place.before source inside
          if tag.selfClosing then
            .goesOn () inside (.withFirst ⟨tag, start, contentStart, ""⟩)
          else
            match body? tag.name.toList (isRaw tag.name) 0 inside with
            | none => .ends ⟨[], some ⟨.missingEndTag tag.name, start⟩⟩
            | some (content, after) =>
                .goesOn () after
                  (.withFirst ⟨tag, start, contentStart, String.ofList content⟩)

theorem isLoop_toNextTag : IsLoop (fun _ => toNextTag) nextTagTurn := by
  intro state text
  have afterMarker {marker : List Char} (nonempty : marker ≠ []) (c : Char) (rest : List Char) :
      afterFirst marker (c :: rest) <:+ c :: rest ∧
        (afterFirst marker (c :: rest)).length < (c :: rest).length :=
    ⟨afterFirst_suffix marker (c :: rest), length_afterFirst_lt nonempty (List.cons_ne_nil c rest)⟩
  dsimp only
  fun_cases toNextTag text with
  | case1 => exact ⟨rfl, trivial⟩
  | case2 c rest other =>
      rw [nextTagTurn, if_pos other]
      exact ⟨rfl, List.suffix_cons c rest, Nat.lt_succ_self _⟩
  | case3 c rest mark comment =>
      rw [nextTagTurn, if_neg mark, if_pos comment]
      exact ⟨rfl, afterMarker (by decide) c rest⟩
  | case4 c rest mark noComment last =>
      rw [nextTagTurn, if_neg mark, if_neg noComment, last]
      exact ⟨rfl, trivial⟩
  | case5 c rest mark noComment next follows aside =>
      rw [nextTagTurn, if_neg mark, if_neg noComment, follows]
      dsimp only
      rw [if_pos aside]
      exact ⟨rfl, afterMarker (by decide) c rest⟩
  | case6 c rest mark noComment next follows noAside letter =>
      rw [nextTagTurn, if_neg mark, if_neg noComment, follows]
      dsimp only
      rw [if_neg noAside, if_pos letter]
      exact ⟨rfl, trivial⟩
  | case7 c rest mark noComment next follows noAside noLetter =>
      rw [nextTagTurn, if_neg mark, if_neg noComment, follows]
      dsimp only
      rw [if_neg noAside, if_neg noLetter]
      exact ⟨rfl, List.suffix_cons c rest, Nat.lt_succ_self _⟩

theorem isLoop_readAttributes (tag : String) :
    IsLoop (readAttributes tag) (attributesTurn tag) := by
  intro attributes text
  fun_cases readAttributes tag attributes text with
  | case1 separated =>
      rw [attributesTurn, separated]
      exact ⟨rfl, trivial⟩
  | case2 rest separated =>
      rw [attributesTurn, separated]
      exact ⟨rfl, trivial⟩
  | case3 rest separated =>
      rw [attributesTurn, separated]
      exact ⟨rfl, trivial⟩
  | case4 first rest _ _ separated named name fault read =>
      have ends : attributesTurn tag attributes text = .ends (.error fault) := by
        simp only [attributesTurn, separated]
        rw [if_pos named, read]
      rw [ends]
      exact ⟨rfl, trivial⟩
  | case5 first rest _ _ separated named name value after read =>
      have goesOn : attributesTurn tag attributes text =
          .goesOn (attributes.insert name value) after id := by
        simp only [attributesTurn, separated]
        rw [if_pos named, read]
      have afterName := @List.dropWhile_suffix Char (first :: rest) isAttributeNameChar
      have within := (suffix_of_readAttribute read).trans afterName
      have shorter := length_le_of_readAttribute read
      have nameLength := length_dropWhile_le isAttributeNameChar rest
      have blanks := length_dropWhile_le isMarkupBlank text
      rw [List.dropWhile_cons_of_pos named] at shorter
      rw [← separated] at within
      rw [separated, List.length_cons] at blanks
      rw [goesOn]
      exact ⟨rfl, within.trans (List.dropWhile_suffix isMarkupBlank), by omega⟩
  | case6 first rest _ _ separated notNamed =>
      have goesOn : attributesTurn tag attributes text = .goesOn attributes rest id := by
        simp only [attributesTurn, separated]
        rw [if_neg notNamed]
      have blanks := length_dropWhile_le isMarkupBlank text
      rw [separated, List.length_cons] at blanks
      rw [goesOn]
      exact ⟨rfl, suffix_of_dropWhile_eq separated, by omega⟩

theorem isLoop_body? (name : List Char) (raw : Bool) :
    IsLoop (body? name raw) (bodyTurn name raw) := by
  intro depth text
  have behindFirst (c : Char) (rest : List Char) :
      rest <:+ c :: rest ∧ rest.length < (c :: rest).length :=
    ⟨List.suffix_cons c rest, Nat.lt_succ_self _⟩
  have behindMarker {marker text through after : List Char} (nonempty : marker ≠ [])
      (cut : cutThrough? marker text = some (through, after)) :
      after <:+ text ∧ after.length < text.length :=
    ⟨⟨through, append_of_cutThrough? cut⟩, length_lt_of_cutThrough? nonempty cut⟩
  rw [bodyTurn.eq_def]
  fun_cases body? name raw depth text with
  | case1 depth => exact ⟨rfl, trivial⟩
  | case2 depth c rest other =>
      dsimp only
      rw [if_pos other]
      exact ⟨rfl, behindFirst c rest⟩
  | case3 depth c rest mark comment cut =>
      dsimp only
      rw [if_neg mark, if_pos comment, cut]
      exact ⟨rfl, trivial⟩
  | case4 depth c rest mark comment through after cut =>
      dsimp only
      rw [if_neg mark, if_pos comment, cut]
      exact ⟨rfl, behindMarker (by decide) cut⟩
  | case5 c rest mark noComment closes named =>
      dsimp only
      rw [if_neg mark, if_neg noComment, if_pos closes, if_pos named]
      exact ⟨rfl, trivial⟩
  | case6 c rest mark noComment closes named outer =>
      dsimp only
      rw [if_neg mark, if_neg noComment, if_pos closes, if_pos named]
      exact ⟨rfl, behindFirst c rest⟩
  | case7 depth c rest mark noComment closes otherName =>
      dsimp only
      rw [if_neg mark, if_neg noComment, if_pos closes, if_neg otherName]
      exact ⟨rfl, behindFirst c rest⟩
  | case8 depth c rest mark noComment opens named cut =>
      dsimp only
      rw [if_neg mark, if_neg noComment, if_neg opens, if_pos named, cut]
      exact ⟨rfl, trivial⟩
  | case9 depth c rest mark noComment opens named tag after cut selfClosing =>
      dsimp only
      rw [if_neg mark, if_neg noComment, if_neg opens, if_pos named, cut]
      dsimp only
      rw [if_pos selfClosing]
      exact ⟨rfl, behindMarker (by decide) cut⟩
  | case10 depth c rest mark noComment opens named tag after cut notSelfClosing =>
      dsimp only
      rw [if_neg mark, if_neg noComment, if_neg opens, if_pos named, cut]
      dsimp only
      rw [if_neg notSelfClosing]
      exact ⟨rfl, behindMarker (by decide) cut⟩
  | case11 depth c rest mark noComment opens otherName =>
      dsimp only
      rw [if_neg mark, if_neg noComment, if_neg opens, if_neg otherName]
      exact ⟨rfl, behindFirst c rest⟩

theorem isLoop_readElements (source : List Char) :
    IsLoop (fun _ => readElements source) (elementsTurn source) := by
  intro state text
  have behindTag {mark : Char} {rest inside : List Char} {tag : OpenTag}
      (found : toNextTag text = mark :: rest) (opened : readOpenTag rest = .ok (tag, inside)) :
      inside <:+ text ∧ inside.length < text.length := by
    have restWithin := (List.suffix_cons mark rest).trans (found ▸ toNextTag_suffix text)
    have tagLength := length_toNextTag_le text
    have openLength := length_le_of_readOpenTag opened
    rw [found, List.length_cons] at tagLength
    exact ⟨(suffix_of_readOpenTag opened).trans restWithin, by omega⟩
  rw [elementsTurn]
  dsimp only
  fun_cases readElements source text with
  | case1 found =>
      rw [found]
      exact ⟨rfl, trivial⟩
  | case2 mark rest found start fault opened =>
      simp only [found, opened]
      exact ⟨rfl, trivial⟩
  | case3 mark rest found start tag inside opened contentStart selfClosing further =>
      simp only [found, opened]
      rw [if_pos selfClosing]
      exact ⟨rfl, behindTag found opened⟩
  | case4 mark rest found start tag inside opened notSelfClosing closed =>
      simp only [found, opened]
      rw [if_neg notSelfClosing, closed]
      exact ⟨rfl, trivial⟩
  | case5 mark rest found start tag inside opened contentStart notSelfClosing content after closed
      further =>
      simp only [found, opened]
      rw [if_neg notSelfClosing, closed]
      obtain ⟨insideWithin, insideLength⟩ := behindTag found opened
      obtain ⟨closing, divided⟩ := exists_closing_of_body? closed
      have afterLength := length_lt_of_body? closed
      have afterWithin : after <:+ inside :=
        ⟨content ++ closing, by rw [List.append_assoc, divided]⟩
      exact ⟨rfl, afterWithin.trans insideWithin, by omega⟩

/-! ## One turn of each reader -/

theorem readAttributes_eq_turn (tag : String) (attributes : Table Attribute) (text : List Char) :
    readAttributes tag attributes text =
      (attributesTurn tag attributes text).result (readAttributes tag) :=
  (isLoop_readAttributes tag attributes text).1

theorem body?_eq_turn (name : List Char) (raw : Bool) (depth : Nat) (text : List Char) :
    body? name raw depth text = (bodyTurn name raw depth text).result (body? name raw) :=
  (isLoop_body? name raw depth text).1

theorem readElements_eq_turn (source text : List Char) :
    readElements source text =
      (elementsTurn source () text).result (fun _ => readElements source) :=
  (isLoop_readElements source () text).1

end VirtualBlocks.Markup
