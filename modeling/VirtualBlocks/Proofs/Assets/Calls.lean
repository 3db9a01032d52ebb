import VirtualBlocks.Proofs.Assets.Imports

/-!
Contract: which calls of a code are rewritten, and what is written for them.

Owns:
- literals and calls as texts, apart from the way they are read;
- code as text and calls in turn, each call the leftmost one behind the call
  before it, and that every code is so in exactly one way;
- the rewritten code in these terms.

Does not own: when the imports declare each binding once (`Proofs.Assets.Imports`).
-/

namespace VirtualBlocks.Assets

/-! ## Literals -/

/-- What stands between two quotes: characters other than the quote and the
backslash, and backslashes that each take a character of their line with them. -/
inductive IsBody (quote : Char) : List Char → Prop
  | nil : IsBody quote []
  | char {c : Char} {rest : List Char} (notQuote : c ≠ quote) (notBackslash : c ≠ '\\')
      (others : IsBody quote rest) : IsBody quote (c :: rest)
  | escape {c : Char} {rest : List Char} (sameLine : c ≠ '\n')
      (others : IsBody quote rest) : IsBody quote ('\\' :: c :: rest)

/-- A text that is not empty, between two equal quotes of either kind. -/
inductive IsLiteral : List Char → Prop
  | quoted {quote : Char} {body : List Char} (isQuote : quote = '"' ∨ quote = '\'')
      (isBody : IsBody quote body) (filled : body ≠ []) :
      IsLiteral (quote :: (body ++ [quote]))

theorem ne_backslash_of_isQuote {quote : Char} (isQuote : quote = '"' ∨ quote = '\'') :
    quote ≠ '\\' := by
  obtain rfl | rfl := isQuote <;> decide

theorem literalBody?_append {quote : Char} (notBackslash : quote ≠ '\\') {body : List Char}
    (isBody : IsBody quote body) (rest : List Char) :
    literalBody? quote (body ++ quote :: rest) = some (body ++ [quote], rest) := by
  induction isBody with
  | nil => simp [literalBody?, notBackslash]
  | char notQuote plain others inductionHypothesis =>
      simp [literalBody?, notQuote, plain, inductionHypothesis]
  | escape sameLine others inductionHypothesis =>
      simp [literalBody?, sameLine, inductionHypothesis]

theorem isBody_of_literalBody? {quote : Char} {text body rest : List Char}
    (read : literalBody? quote text = some (body, rest)) :
    ∃ inner, IsBody quote inner ∧ body = inner ++ [quote] := by
  fun_induction literalBody? quote text generalizing body rest with
  | case1 => contradiction
  | case2 => contradiction
  | case3 escaped tail sameLine inductionHypothesis =>
      obtain ⟨⟨inner, remaining⟩, innerRead, equal⟩ := Option.map_eq_some_iff.1 read
      obtain ⟨rfl, rfl⟩ := Prod.mk.inj equal
      obtain ⟨body, isBody, rfl⟩ := inductionHypothesis innerRead
      exact ⟨'\\' :: escaped :: body, .escape sameLine isBody, rfl⟩
  | case4 tail =>
      cases read
      exact ⟨[], .nil, rfl⟩
  | case5 => contradiction
  | case6 c tail notEscape notQuote notBackslash inductionHypothesis =>
      obtain ⟨⟨inner, remaining⟩, innerRead, equal⟩ := Option.map_eq_some_iff.1 read
      obtain ⟨rfl, rfl⟩ := Prod.mk.inj equal
      obtain ⟨body, isBody, rfl⟩ := inductionHypothesis innerRead
      exact ⟨c :: body, .char notQuote notBackslash isBody, rfl⟩

theorem IsBody.head?_ne {quote : Char} {body : List Char} (isBody : IsBody quote body)
    (filled : body ≠ []) (notBackslash : quote ≠ '\\') : body.head? ≠ some quote := by
  cases isBody with
  | nil => contradiction
  | char notQuote _ _ => simpa using notQuote
  | escape _ _ => simpa using notBackslash.symm

theorem literal?_append {literal : List Char} (isLiteral : IsLiteral literal)
    (rest : List Char) : literal? (literal ++ rest) = some (literal, rest) := by
  cases isLiteral with
  | @quoted quote body isQuote isBody filled =>
      have notBackslash := ne_backslash_of_isQuote isQuote
      have first : (body ++ quote :: rest).head? ≠ some quote := by
        rw [List.head?_append_of_ne_nil _ filled]
        exact isBody.head?_ne filled notBackslash
      rw [List.cons_append, List.append_assoc, List.singleton_append]
      unfold literal?
      simp only
      rw [if_pos ⟨isQuote, first⟩, literalBody?_append notBackslash isBody]
      rfl

theorem isLiteral_of_literal? {text literal rest : List Char}
    (read : literal? text = some (literal, rest)) : IsLiteral literal := by
  unfold literal? at read
  split at read
  · rename_i quote tail
    split at read
    · rename_i opens
      obtain ⟨⟨inner, remaining⟩, innerRead, equal⟩ := Option.map_eq_some_iff.1 read
      obtain ⟨rfl, rfl⟩ := Prod.mk.inj equal
      obtain ⟨body, isBody, rfl⟩ := isBody_of_literalBody? innerRead
      refine .quoted opens.1 isBody ?_
      rintro rfl
      exact opens.2 (by rw [append_of_literalBody? innerRead]; rfl)
    · contradiction
  · contradiction

/-! ## Calls -/

/-- A call is read exactly where its text stands. -/
theorem call?_eq_some_iff {text literal rest : List Char} :
    call? text = some (literal, rest) ↔
      IsLiteral literal ∧ text = (Piece.call literal).text ++ rest := by
  constructor
  · intro read
    constructor
    · unfold call? at read
      split at read
      · split at read
        · rename_i literalRead
          cases read
          exact isLiteral_of_literal? literalRead
        · contradiction
      · contradiction
    · rw [append_of_call? read]
      simp [Piece.text]
  · rintro ⟨isLiteral, rfl⟩
    have whole : (Piece.call literal).text ++ rest = callStart ++ (literal ++ ')' :: rest) := by
      simp [Piece.text]
    have starts : callStart.isPrefixOf (callStart ++ (literal ++ ')' :: rest)) = true :=
      List.isPrefixOf_iff_prefix.2 (List.prefix_append _ _)
    unfold call?
    rw [whole, if_pos starts, List.drop_left, literal?_append isLiteral]
    rfl

/-- The text starts with a call. -/
def StartsWithCall (text : List Char) : Prop :=
  ∃ literal rest, IsLiteral literal ∧ text = (Piece.call literal).text ++ rest

theorem call?_eq_none_iff {text : List Char} : call? text = none ↔ ¬ StartsWithCall text := by
  rw [Option.eq_none_iff_forall_ne_some]
  constructor
  · rintro nothing ⟨literal, rest, starts⟩
    exact nothing (literal, rest) (call?_eq_some_iff.2 starts)
  · intro nothing ⟨literal, rest⟩ read
    exact nothing ⟨literal, rest, call?_eq_some_iff.1 read⟩

theorem pieces_of_call {literal : List Char} (isLiteral : IsLiteral literal)
    (rest : List Char) :
    pieces ((Piece.call literal).text ++ rest) = .call literal :: pieces rest := by
  have read : call? ((Piece.call literal).text ++ rest) = some (literal, rest) :=
    call?_eq_some_iff.2 ⟨isLiteral, rfl⟩
  generalize (Piece.call literal).text ++ rest = text at read
  cases text with
  | nil => contradiction
  | cons c tail =>
      rw [pieces]
      split
      · rename_i read'
        cases read.symm.trans read'
        rfl
      · rename_i read'
        cases read.symm.trans read'

theorem pieces_of_not_startsWithCall {c : Char} {rest : List Char}
    (nothing : ¬ StartsWithCall (c :: rest)) :
    pieces (c :: rest) = .plain c :: pieces rest := by
  have unread : call? (c :: rest) = none := call?_eq_none_iff.2 nothing
  rw [pieces]
  split
  · rename_i read
    cases unread.symm.trans read
  · rfl

/-- No call starts in the text when `behind` follows it. -/
def FreeOfCalls (text behind : List Char) : Prop :=
  ∀ rest, rest <:+ text → rest ≠ [] → ¬ StartsWithCall (rest ++ behind)

theorem freeOfCalls_nil (behind : List Char) : FreeOfCalls [] behind := by
  intro rest isSuffix filled
  exact absurd (List.suffix_nil.1 isSuffix) filled

theorem freeOfCalls_cons {c : Char} {text behind : List Char} :
    FreeOfCalls (c :: text) behind ↔
      ¬ StartsWithCall (c :: (text ++ behind)) ∧ FreeOfCalls text behind := by
  unfold FreeOfCalls
  simp only [List.suffix_cons_iff]
  constructor
  · intro free
    exact ⟨free (c :: text) (.inl rfl) nofun,
      fun rest isSuffix => free rest (.inr isSuffix)⟩
  · rintro ⟨first, others⟩ rest (rfl | isSuffix) filled
    · exact first
    · exact others rest isSuffix filled

/-! ## Text and calls in turn -/

/-- A call, and the text between it and the call in front of it. -/
structure Call where
  before : List Char
  literal : List Char

namespace Call

def code (call : Call) : List Char :=
  call.before ++ (Piece.call call.literal).text

/-- The text and, for the call, its binding. -/
def rewritten (call : Call) : List Char :=
  call.before ++ binding call.literal

end Call

/-- Calls with the text in front of each, and the text behind the last one. -/
structure Decomposition where
  calls : List Call
  last : List Char

namespace Decomposition

def code (cut : Decomposition) : List Char :=
  cut.calls.flatMap Call.code ++ cut.last

def rewritten (cut : Decomposition) : List Char :=
  cut.calls.flatMap Call.rewritten ++ cut.last

def literals (cut : Decomposition) : List (List Char) :=
  cut.calls.map Call.literal

/-- Each call is the leftmost one behind the call in front of it, and no call starts
behind the last one. -/
inductive IsLeftmost : Decomposition → Prop
  | last {text : List Char} (free : FreeOfCalls text []) : IsLeftmost ⟨[], text⟩
  | call {before literal : List Char} {calls : List Call} {last : List Char}
      (isLiteral : IsLiteral literal)
      (free : FreeOfCalls before ((Piece.call literal).text ++ code ⟨calls, last⟩))
      (others : IsLeftmost ⟨calls, last⟩) : IsLeftmost ⟨⟨before, literal⟩ :: calls, last⟩

/-! ## From pieces -/

/-- One more character in front of the first text. -/
def withFirst (c : Char) : Decomposition → Decomposition
  | ⟨[], last⟩ => ⟨[], c :: last⟩
  | ⟨call :: calls, last⟩ => ⟨{ call with before := c :: call.before } :: calls, last⟩

@[simp]
theorem code_withFirst (c : Char) (cut : Decomposition) :
    (cut.withFirst c).code = c :: cut.code := by
  obtain ⟨_ | ⟨call, calls⟩, last⟩ := cut <;> simp [withFirst, code, Call.code]

@[simp]
theorem rewritten_withFirst (c : Char) (cut : Decomposition) :
    (cut.withFirst c).rewritten = c :: cut.rewritten := by
  obtain ⟨_ | ⟨call, calls⟩, last⟩ := cut <;> simp [withFirst, rewritten, Call.rewritten]

@[simp]
theorem literals_withFirst (c : Char) (cut : Decomposition) :
    (cut.withFirst c).literals = cut.literals := by
  obtain ⟨_ | ⟨call, calls⟩, last⟩ := cut <;> rfl

theorem IsLeftmost.withFirst {c : Char} {cut : Decomposition} (leftmost : cut.IsLeftmost)
    (nothing : ¬ StartsWithCall (c :: cut.code)) : (cut.withFirst c).IsLeftmost := by
  cases leftmost with
  | last free =>
      refine .last (freeOfCalls_cons.2 ⟨?_, free⟩)
      rwa [List.append_nil]
  | call isLiteral free others =>
      refine .call isLiteral (freeOfCalls_cons.2 ⟨?_, free⟩) others
      simpa [Decomposition.code, Call.code] using nothing

/-- The text and the calls that the pieces of a code make up. -/
def ofPieces : List Piece → Decomposition
  | [] => ⟨[], []⟩
  | .plain c :: rest => (ofPieces rest).withFirst c
  | .call literal :: rest => ⟨⟨[], literal⟩ :: (ofPieces rest).calls, (ofPieces rest).last⟩

theorem code_ofPieces (cut : List Piece) : (ofPieces cut).code = cut.flatMap Piece.text := by
  induction cut with
  | nil => rfl
  | cons piece rest inductionHypothesis =>
      rw [List.flatMap_cons, ← inductionHypothesis]
      cases piece with
      | plain c => exact code_withFirst c (ofPieces rest)
      | call literal => simp [ofPieces, code, Call.code]

theorem rewritten_ofPieces (cut : List Piece) :
    (ofPieces cut).rewritten = cut.flatMap Piece.withBinding := by
  induction cut with
  | nil => rfl
  | cons piece rest inductionHypothesis =>
      rw [List.flatMap_cons, ← inductionHypothesis]
      cases piece with
      | plain c => exact rewritten_withFirst c (ofPieces rest)
      | call literal => simp [ofPieces, rewritten, Call.rewritten, Piece.withBinding]

theorem literals_ofPieces (cut : List Piece) : (ofPieces cut).literals = Assets.literals cut := by
  induction cut with
  | nil => rfl
  | cons piece rest inductionHypothesis =>
      cases piece with
      | plain c => exact (literals_withFirst c (ofPieces rest)).trans inductionHypothesis
      | call literal => exact congrArg (literal :: ·) inductionHypothesis

theorem isLeftmost_ofPieces (code : List Char) : (ofPieces (pieces code)).IsLeftmost := by
  fun_induction pieces code with
  | case1 => exact .last (freeOfCalls_nil [])
  | case2 c rest literal after read inductionHypothesis =>
      exact .call (call?_eq_some_iff.1 read).1 (freeOfCalls_nil _) inductionHypothesis
  | case3 c rest unread inductionHypothesis =>
      refine inductionHypothesis.withFirst ?_
      rw [code_ofPieces, flatMap_text_pieces]
      exact call?_eq_none_iff.1 unread

/-- The calls of a code are found by reading it from the left. -/
theorem IsLeftmost.eq_ofPieces {cut : Decomposition} (leftmost : cut.IsLeftmost) :
    cut = ofPieces (pieces cut.code) := by
  induction leftmost with
  | @last text free =>
      have whole : code ⟨[], text⟩ = text := rfl
      rw [whole]
      induction text with
      | nil => simp [pieces, ofPieces]
      | cons c rest inductionHypothesis =>
          obtain ⟨nothing, others⟩ := freeOfCalls_cons.1 free
          rw [List.append_nil] at nothing
          rw [pieces_of_not_startsWithCall nothing, ofPieces, ← inductionHypothesis others rfl]
          rfl
  | @call before literal calls last isLiteral free others inductionHypothesis =>
      have whole (text : List Char) : code ⟨⟨text, literal⟩ :: calls, last⟩ =
          text ++ ((Piece.call literal).text ++ code ⟨calls, last⟩) := by
        simp [code, Call.code]
      rw [whole]
      induction before with
      | nil =>
          rw [List.nil_append, pieces_of_call isLiteral, ofPieces, ← inductionHypothesis]
      | cons c rest further =>
          obtain ⟨nothing, free⟩ := freeOfCalls_cons.1 free
          rw [List.cons_append, pieces_of_not_startsWithCall nothing, ofPieces, ← further free]
          rfl

end Decomposition

/-! ## Rewritten code -/

/-- Code is text and calls in turn in exactly one way in which each call is the
leftmost one. The rewritten code is one import for each different literal, in the order
of first occurrence, and then the texts with a binding, which depends on the literal
alone, in place of each call. Code in which no call starts is kept. -/
theorem requireToImport_touches_calls (code : String) :
    ∃ cut : Decomposition,
      (cut.IsLeftmost ∧ cut.code = code.toList) ∧
      (∀ other : Decomposition, other.IsLeftmost → other.code = code.toList → other = cut) ∧
      (∃ distinct, ListsFirst distinct cut.literals ∧
        (requireToImport code).toList =
          distinct.flatMap (fun literal =>
            "import ".toList ++ binding literal ++ " from ".toList ++ literal ++ ['\n']) ++
            cut.rewritten) ∧
      (FreeOfCalls code.toList [] → requireToImport code = code) := by
  have whole : (Decomposition.ofPieces (pieces code.toList)).code = code.toList := by
    rw [Decomposition.code_ofPieces, flatMap_text_pieces]
  have only : ∀ other : Decomposition, other.IsLeftmost → other.code = code.toList →
      other = Decomposition.ofPieces (pieces code.toList) := by
    intro other leftmost same
    rw [← same]
    exact leftmost.eq_ofPieces
  have written : (requireToImport code).toList =
      (Decomposition.ofPieces (pieces code.toList)).literals.eraseDups.flatMap importLine ++
        (Decomposition.ofPieces (pieces code.toList)).rewritten := by
    unfold requireToImport
    rw [String.toList_ofList, Decomposition.literals_ofPieces, Decomposition.rewritten_ofPieces]
  refine ⟨Decomposition.ofPieces (pieces code.toList),
    ⟨Decomposition.isLeftmost_ofPieces _, whole⟩, only, ⟨_, listsFirst_eraseDups _, written⟩, ?_⟩
  intro free
  rw [← only ⟨[], code.toList⟩ (.last free) rfl] at written
  exact String.toList_inj.1 written

end VirtualBlocks.Assets
