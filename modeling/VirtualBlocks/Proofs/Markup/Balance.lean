import VirtualBlocks.Proofs.Markup.RawText

/-!
Contract: where a content ends in which elements nest.

Owns:
- the pieces of such a content: characters, comments, and the tags of the name of its
  element;
- that the content ends before the closing tag that balances its element, when each
  opening tag goes as far as its next `>`;
- that any other reader of opening tags finds the same end, if it agrees on those that
  are met.

Does not own: raw text (`Proofs.Markup.RawText`).
-/

namespace VirtualBlocks.Markup

open VirtualBlocks.Text

/-! ## Pieces of a content -/

/-- A reader of opening tags. Behind the `<` of a tag it tells whether the tag closes
itself, and what follows the tag. -/
abbrev TagReader :=
  List Char → Option (Bool × List Char)

/-- An opening tag goes through its next `>`. -/
def cutAtEnd : TagReader := fun rest =>
  (cutThrough? ['>'] ('<' :: rest)).map (fun (tag, left) => (endsSelfClosing tag, left))

/-- A piece of a content. Of a closing tag this is the mark: what follows it is read on. -/
inductive BodyPiece where
  | character (c : Char)
  | comment (text : List Char)
  | opening (tag : List Char) (selfClosing : Bool)
  | closing

namespace BodyPiece

def text : BodyPiece → List Char
  | character c => [c]
  | comment text => text
  | opening tag _ => tag
  | closing => ['<']

def opens : BodyPiece → Bool
  | opening _ selfClosing => !selfClosing
  | _ => false

def closes : BodyPiece → Bool
  | closing => true
  | _ => false

/-- How many elements are open behind a piece, unless it closes the element that the
content is in. -/
def depthBehind? (depth : Nat) : BodyPiece → Option Nat
  | opening _ false => some (depth + 1)
  | closing => if depth = 0 then none else some (depth - 1)
  | _ => some depth

end BodyPiece

/-- A text starts with a piece, and what is left follows it. -/
inductive StartsWithPiece (name : List Char) (readTag : TagReader) :
    List Char → BodyPiece → List Char → Prop where
  | character {c : Char} {left : List Char} (plain : ¬ StartsMarkup name (c :: left)) :
      StartsWithPiece name readTag (c :: left) (.character c) left
  | comment {comment left : List Char} (isComment : IsComment comment) :
      StartsWithPiece name readTag (comment ++ left) (.comment comment) left
  | opening {rest tag left : List Char} {selfClosing : Bool}
      (opens : StartsOpening name ('<' :: rest)) (read : readTag rest = some (selfClosing, left))
      (divided : tag ++ left = '<' :: rest) :
      StartsWithPiece name readTag ('<' :: rest) (.opening tag selfClosing) left
  | closing {rest : List Char} (closes : StartsClosing name ('<' :: rest)) :
      StartsWithPiece name readTag ('<' :: rest) .closing rest

/-- A text is read as these pieces, up to the text `rest`. -/
inductive ReadsPieces (name : List Char) (readTag : TagReader) :
    List Char → List BodyPiece → List Char → Prop where
  | nothing (rest : List Char) : ReadsPieces name readTag rest [] rest
  | piece {text left rest : List Char} {piece : BodyPiece} {pieces : List BodyPiece}
      (starts : StartsWithPiece name readTag text piece left)
      (further : ReadsPieces name readTag left pieces rest) :
      ReadsPieces name readTag text (piece :: pieces) rest

/-- Pieces close every element that they open and `depth` more, and never more than are
open. -/
structure Settles (depth : Nat) (pieces : List BodyPiece) : Prop where
  neverBelow : ∀ front, front <+: pieces →
    front.countP BodyPiece.closes ≤ depth + front.countP BodyPiece.opens
  settled : pieces.countP BodyPiece.closes = depth + pieces.countP BodyPiece.opens

/-- A content and the closing tag behind it, which balances the opening tag before the
content while `depth` more elements are open. -/
def EndsBalanced (name : List Char) (readTag : TagReader) (depth : Nat)
    (text content closing : List Char) : Prop :=
  ∃ pieces, ReadsPieces name readTag text pieces closing ∧ Settles depth pieces ∧
    content = pieces.flatMap BodyPiece.text ∧ StartsClosing name closing

section Pieces

variable {name text rest left closing : List Char} {readTag : TagReader} {piece : BodyPiece}
  {pieces : List BodyPiece} {depth next : Nat}

/-- A text without `<` is read as its characters. -/
theorem readsPieces_of_notMem {front : List Char} (notIn : '<' ∉ front) (rest : List Char) :
    ReadsPieces name readTag (front ++ rest) (front.map .character) rest := by
  induction front with
  | nil => exact .nothing rest
  | cons c others inductionHypothesis =>
      rw [List.mem_cons, not_or] at notIn
      refine .piece (.character ?_) (inductionHypothesis notIn.2)
      intro starts
      obtain ⟨_, divided⟩ := starts.exists_rest
      exact notIn.1 (List.cons.inj divided).1.symm

theorem settles_nil_iff (depth : Nat) : Settles depth [] ↔ depth = 0 := by
  constructor
  · exact fun settles => settles.settled.symm
  · rintro rfl
    refine ⟨?_, rfl⟩
    intro front within
    rw [List.prefix_nil.1 within]
    exact Nat.le_refl 0

/-- Pieces are settled from the depth behind the first of them on. -/
theorem settles_cons_iff (depth : Nat) (piece : BodyPiece) (pieces : List BodyPiece) :
    Settles depth (piece :: pieces) ↔
      ∃ next, piece.depthBehind? depth = some next ∧ Settles next pieces := by
  -- what a piece opens and closes is the difference that it makes to the depth
  have counts : ∀ {next}, piece.depthBehind? depth = some next →
      next + (if piece.closes then 1 else 0) = depth + (if piece.opens then 1 else 0) := by
    intro next behind
    unfold BodyPiece.depthBehind? at behind
    split at behind
    · cases behind
      rfl
    · split at behind
      · contradiction
      · cases behind
        simp only [BodyPiece.closes, BodyPiece.opens, if_true, Bool.false_eq_true, if_false]
        omega
    · cases behind
      cases piece with
      | opening tag selfClosing => cases selfClosing <;> simp_all [BodyPiece.closes, BodyPiece.opens]
      | closing => simp_all
      | character => rfl
      | comment => rfl
  constructor
  · intro settles
    cases behind : piece.depthBehind? depth with
    | none =>
        -- only a closing tag of the element itself has no depth behind it
        have here := settles.neverBelow [piece] (List.prefix_append [piece] pieces)
        unfold BodyPiece.depthBehind? at behind
        split at behind
        · contradiction
        · split at behind
          · subst depth
            exact absurd here (by decide)
          · contradiction
        · contradiction
    | some next =>
        have difference := counts behind
        refine ⟨next, rfl, ?_, ?_⟩
        · intro front within
          have whole := settles.neverBelow (piece :: front) (List.cons_prefix_cons.2 ⟨rfl, within⟩)
          rw [List.countP_cons, List.countP_cons] at whole
          omega
        · have whole := settles.settled
          rw [List.countP_cons, List.countP_cons] at whole
          omega
  · intro ⟨next, behind, settles⟩
    have difference := counts behind
    constructor
    · intro front within
      cases front with
      | nil => exact Nat.zero_le _
      | cons first others =>
          obtain ⟨rfl, inner⟩ := List.cons_prefix_cons.1 within
          have further := settles.neverBelow others inner
          rw [List.countP_cons, List.countP_cons]
          omega
    · have further := settles.settled
      rw [List.countP_cons, List.countP_cons]
      omega

theorem settles_characters (front : List Char) : Settles 0 (front.map .character) := by
  induction front with
  | nil => exact (settles_nil_iff 0).2 rfl
  | cons c rest inductionHypothesis =>
      rw [List.map_cons, settles_cons_iff]
      exact ⟨0, rfl, inductionHypothesis⟩

theorem flatMap_characters (front : List Char) :
    (front.map BodyPiece.character).flatMap BodyPiece.text = front := by
  induction front with
  | nil => rfl
  | cons c rest inductionHypothesis =>
      rw [List.map_cons, List.flatMap_cons, inductionHypothesis]
      rfl

/-- A content that is one element of the name without further tags in it. -/
theorem endsBalanced_element {tag front : List Char}
    (opens : StartsOpening name ('<' :: rest)) (read : readTag rest = some (false, left))
    (divided : tag ++ left = '<' :: rest) (isLeft : left = '<' :: (front ++ closing))
    (closesInner : StartsClosing name left) (plain : '<' ∉ front)
    (closes : StartsClosing name closing) :
    EndsBalanced name readTag 0 ('<' :: rest) (tag ++ '<' :: front) closing := by
  subst isLeft
  refine ⟨.opening tag false :: .closing :: front.map .character,
    .piece (.opening opens read divided)
      (.piece (.closing closesInner) (readsPieces_of_notMem plain closing)), ?_, ?_, closes⟩
  · rw [settles_cons_iff]
    refine ⟨1, rfl, ?_⟩
    rw [settles_cons_iff]
    exact ⟨0, rfl, settles_characters front⟩
  · rw [List.flatMap_cons, List.flatMap_cons, flatMap_characters]
    rfl

end Pieces

/-! ## The turns of the search -/

section Turns

variable {name text rest left content after closing : List Char} {piece : BodyPiece}
  {depth next : Nat}

/-- A piece that does not close the element is passed over. -/
theorem StartsWithPiece.bodyTurn_eq (isName : IsTagName name)
    (starts : StartsWithPiece name cutAtEnd text piece left)
    (behind : piece.depthBehind? depth = some next) :
    bodyTurn name false depth text = .goesOn next left (prepend piece.text) := by
  cases starts with
  | character plain =>
      cases behind
      unfold StartsMarkup at plain
      rw [not_or, not_or] at plain
      exact bodyTurn_of_character plain.2.2 (fun _ => ⟨plain.1, plain.2.1⟩) depth
  | comment isComment =>
      cases behind
      exact bodyTurn_of_comment isComment depth left
  | @opening rest tag left selfClosing opens read divided =>
      obtain ⟨⟨through, remaining⟩, cut, isRead⟩ := Option.map_eq_some_iff.1 read
      obtain ⟨rfl, rfl⟩ := Prod.mk.inj isRead
      have whole := append_of_cutThrough? cut
      obtain rfl := List.append_cancel_right (divided.trans whole.symm)
      rw [bodyTurn_of_opening isName opens, cut]
      dsimp only
      cases closesItself : endsSelfClosing tag with
      | true =>
          rw [closesItself] at behind
          cases behind
          rfl
      | false =>
          rw [closesItself] at behind
          cases behind
          rfl
  | closing closes =>
      rw [bodyTurn_of_closing closes]
      cases depth with
      | zero => contradiction
      | succ outer =>
          cases behind
          rfl

/-- The search passes over a piece, ends at the closing tag of the element, or finds no
end. -/
theorem bodyTurn_cases (isName : IsTagName name) (depth : Nat) (text : List Char) :
    (∃ piece left next, StartsWithPiece name cutAtEnd text piece left ∧
        piece.depthBehind? depth = some next) ∨
      depth = 0 ∧ StartsClosing name text ∨ bodyTurn name false depth text = .ends none := by
  by_cases startsComment : commentStart <+: text
  · cases cut : cutThrough? commentEnd text with
    | none =>
        right
        right
        rw [bodyTurn_of_commentStart startsComment, cut]
    | some parts =>
        obtain ⟨comment, left⟩ := parts
        left
        rw [← append_of_cutThrough? cut]
        exact ⟨.comment comment, left, depth, .comment (isComment_of_cutThrough? startsComment cut),
          rfl⟩
  by_cases opens : StartsOpening name text
  · obtain ⟨rest, rfl⟩ := opens.exists_rest
    cases cut : cutThrough? ['>'] ('<' :: rest) with
    | none =>
        right
        right
        rw [bodyTurn_of_opening isName opens, cut]
    | some parts =>
        obtain ⟨tag, left⟩ := parts
        left
        refine ⟨.opening tag (endsSelfClosing tag), left,
          if endsSelfClosing tag then depth else depth + 1,
          .opening opens ?_ (append_of_cutThrough? cut), ?_⟩
        · unfold cutAtEnd
          rw [cut]
          rfl
        · cases endsSelfClosing tag <;> rfl
  by_cases closes : StartsClosing name text
  · cases depth with
    | zero => exact .inr (.inl ⟨rfl, closes⟩)
    | succ outer =>
        left
        obtain ⟨spelled, following, rfl, tag⟩ := closes
        exact ⟨.closing, _, outer, .closing ⟨spelled, following, rfl, tag⟩, rfl⟩
  cases text with
  | nil => exact .inr (.inr rfl)
  | cons c rest =>
      left
      refine ⟨.character c, rest, depth, .character ?_, rfl⟩
      rintro (isComment | isOpening | isClosing)
      · exact startsComment isComment
      · exact opens isOpening
      · exact closes isClosing

/-! ## The end of a content -/

theorem body?_of_piece (isName : IsTagName name)
    (starts : StartsWithPiece name cutAtEnd text piece left)
    (behind : piece.depthBehind? depth = some next) :
    body? name false depth text = prepend piece.text (body? name false next left) := by
  rw [body?_eq_turn, starts.bodyTurn_eq isName behind]
  rfl

/-- A content is read up to the closing tag that balances its element. -/
theorem body?_eq_some_iff (isName : IsTagName name) (depth : Nat)
    (text content after : List Char) :
    body? name false depth text = some (content, after) ↔
      ∃ closing, EndsBalanced name cutAtEnd depth text content closing ∧
        after = afterFirst ['>'] closing := by
  constructor
  · intro read
    induction size : text.length using Nat.strongRecOn generalizing text depth content with
    | ind length inductionHypothesis =>
        rcases bodyTurn_cases isName depth text with
          ⟨piece, left, next, starts, behind⟩ | ⟨rfl, closes⟩ | ended
        · have goesOn := starts.bodyTurn_eq isName behind
          have shorter := ((isLoop_body? name false).of_goesOn goesOn).2
          rw [body?_of_piece isName starts behind] at read
          obtain ⟨inner, innerRead, rfl⟩ := prepend_eq_some read
          obtain ⟨closing, ⟨pieces, reads, settles, rfl, closes⟩, isAfter⟩ :=
            inductionHypothesis left.length (size ▸ shorter) next left inner innerRead rfl
          exact ⟨closing, ⟨piece :: pieces, .piece starts reads,
            (settles_cons_iff depth piece pieces).2 ⟨next, behind, settles⟩, rfl, closes⟩, isAfter⟩
        · rw [body?_of_startsClosing false closes] at read
          cases read
          exact ⟨text, ⟨[], .nothing text, (settles_nil_iff 0).2 rfl, rfl, closes⟩, rfl⟩
        · rw [body?_eq_turn, ended] at read
          contradiction
  · intro ⟨closing, ⟨pieces, reads, settles, isContent, closes⟩, isAfter⟩
    rw [isContent, isAfter]
    clear isContent isAfter
    induction reads generalizing depth with
    | nothing =>
        obtain rfl := (settles_nil_iff depth).1 settles
        exact body?_of_startsClosing false closes
    | piece starts _ inductionHypothesis =>
        obtain ⟨next, behind, further⟩ := (settles_cons_iff depth _ _).1 settles
        rw [body?_of_piece isName starts behind, inductionHypothesis next further closes]
        rfl

end Turns

/-! ## Other readers of opening tags -/

/-- Looking for the end of a content, the search gets to an opening tag of the name while
`inner` elements are open. It starts at a text with `depth` of them. -/
def MeetsOpening (name : List Char) (depth : Nat) (text : List Char) (inner : Nat)
    (rest : List Char) : Prop :=
  StartsOpening name ('<' :: rest) ∧
    ∃ turns, after? (bodyTurn name false) turns depth text = some (inner, '<' :: rest)

/-- A reader takes every opening tag that is met for the text through its next `>`. -/
def AgreesOnMet (name : List Char) (readTag : TagReader) (depth : Nat) (text : List Char) :
    Prop :=
  ∀ inner rest, MeetsOpening name depth text inner rest → readTag rest = cutAtEnd rest

section Readers

variable {name text rest left content closing : List Char} {readTag other : TagReader}
  {piece : BodyPiece} {pieces : List BodyPiece} {depth next : Nat}

/-- A tag that is met ends the text that is searched. -/
theorem MeetsOpening.suffix {inner : Nat} (meets : MeetsOpening name depth text inner rest) :
    '<' :: rest <:+ text := by
  obtain ⟨-, turns, taken⟩ := meets
  have whole : (String.ofList text).toList = text := String.toList_ofList
  have within : text <:+ (String.ofList text).toList := by rw [whole]
  have left := ((isLoop_body? name false).advances within taken).1
  rwa [whole] at left

theorem AgreesOnMet.here (agrees : AgreesOnMet name readTag depth ('<' :: rest))
    (opens : StartsOpening name ('<' :: rest)) : readTag rest = cutAtEnd rest :=
  agrees depth rest ⟨opens, 0, rfl⟩

theorem AgreesOnMet.further {finish : Option (List Char × List Char) → Option (List Char × List Char)}
    (agrees : AgreesOnMet name readTag depth text)
    (goesOn : bodyTurn name false depth text = .goesOn next left finish) :
    AgreesOnMet name readTag next left := by
  intro inner rest ⟨opens, turns, taken⟩
  refine agrees inner rest ⟨opens, turns + 1, ?_⟩
  unfold after?
  rw [goesOn]
  exact taken

/-- Two readers that agree on every opening tag that is met read the same pieces. -/
theorem ReadsPieces.congr (isName : IsTagName name)
    (reads : ReadsPieces name readTag text pieces closing) (settles : Settles depth pieces)
    (agrees : AgreesOnMet name readTag depth text) (agreesOther : AgreesOnMet name other depth text) :
    ReadsPieces name other text pieces closing := by
  have readAs {text left : List Char} {piece : BodyPiece} {depth : Nat} {first second : TagReader}
      (starts : StartsWithPiece name first text piece left)
      (agrees : AgreesOnMet name first depth text)
      (agreesOther : AgreesOnMet name second depth text) :
      StartsWithPiece name second text piece left := by
    cases starts with
    | character plain => exact .character plain
    | comment isComment => exact .comment isComment
    | opening opens read divided =>
        rw [agrees.here opens, ← agreesOther.here opens] at read
        exact .opening opens read divided
    | closing closes => exact .closing closes
  induction reads generalizing depth with
  | nothing rest => exact .nothing rest
  | piece starts _ inductionHypothesis =>
      obtain ⟨next, behind, further⟩ := (settles_cons_iff depth _ _).1 settles
      have cutStarts := readAs starts agrees (fun _ _ _ => rfl)
      have goesOn := cutStarts.bodyTurn_eq isName behind
      exact .piece (readAs starts agrees agreesOther)
        (inductionHypothesis further (agrees.further goesOn) (agreesOther.further goesOn))

/-- A reader that agrees with the search finds the same end of a content. -/
theorem AgreesOnMet.endsBalanced_iff (agrees : AgreesOnMet name readTag depth text)
    (isName : IsTagName name) :
    EndsBalanced name cutAtEnd depth text content closing ↔
      EndsBalanced name readTag depth text content closing := by
  have agreesCut : AgreesOnMet name cutAtEnd depth text := fun _ _ _ => rfl
  constructor
  · intro ⟨pieces, reads, settles, ends⟩
    exact ⟨pieces, reads.congr isName settles agreesCut agrees, settles, ends⟩
  · intro ⟨pieces, reads, settles, ends⟩
    exact ⟨pieces, reads.congr isName settles agrees agreesCut, settles, ends⟩

end Readers

end VirtualBlocks.Markup
