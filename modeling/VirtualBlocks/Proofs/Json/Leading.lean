import VirtualBlocks.Proofs.Json.Record
import VirtualBlocks.Proofs.Json.RoundTrip

/-!
Contract: a JSON value at the start of a text that goes on with something else.

Owns:
- reading tokens until a value is complete, and what follows then;
- that the compact form of a value is read this way, whatever follows that does not
  go on with a number;
- that the compact form has no control characters, so that it stands on one line.

Does not own: reading a whole text (`Json.Reader`).
-/

namespace VirtualBlocks.Json

/-! ## Reading at the start -/

/-- Tokens are read until a value is complete. What follows it need not be JSON. -/
def State.read? (state : State) (text : List Char) : Option (Json × List Char) :=
  match state with
  | .complete settled => some (settled, text)
  | unsettled =>
      match _read : nextToken? (text.dropWhile isSpace) with
      | none => none
      | some (token, after) =>
          match unsettled.step? token with
          | none => none
          | some next => next.read? after
termination_by text.length
decreasing_by
  have shorter := length_lt_of_nextToken? _read
  have whole := Text.length_dropWhile_le isSpace text
  omega

/-- The value at the start of a text, as the data it stands for, and what follows it. -/
def leading? {α : Type} (read : Json → Option α) (text : List Char) : Option (α × List Char) :=
  ((State.value []).read? text).bind (fun found =>
    (read found.1).map (fun value => (value, found.2)))

theorem State.read?_complete (settled : Json) (text : List Char) :
    (State.complete settled).read? text = some (settled, text) := by
  rw [State.read?]

theorem dropWhile_isSpace_of_nextToken? {text after : List Char} {token : Token}
    (read : nextToken? text = some (token, after)) : text.dropWhile isSpace = text := by
  cases text with
  | nil => rfl
  | cons c rest =>
      cases isBlank : isSpace c with
      | false => exact List.dropWhile_cons_of_neg (by simp [isBlank])
      | true =>
          simp only [isSpace, Bool.or_eq_true, beq_iff_eq] at isBlank
          rcases isBlank with ((rfl | rfl) | rfl) | rfl <;> cases read

theorem State.read?_of_step? {state next : State} {text after : List Char} {token : Token}
    (read : nextToken? text = some (token, after)) (step : state.step? token = some next) :
    state.read? text = next.read? after := by
  have unsettled : ∀ settled, state = .complete settled → False := by
    rintro settled rfl
    cases token <;> cases step
  rw [← dropWhile_isSpace_of_nextToken? read] at read
  rw [State.read?.eq_2 state text unsettled]
  split
  · rename_i unread
    rw [read] at unread
    cases unread
  · rename_i other later readHere
    rw [read] at readHere
    cases readHere
    rw [step]

/-! ## Tokens at the start -/

/-- A text starts with these tokens, each right behind the one before, and goes on with a
rest. -/
inductive Lexes : List Char → List Token → List Char → Prop where
  | nothing (rest : List Char) : Lexes rest [] rest
  | token {text after rest : List Char} {first : Token} {others : List Token}
      (read : nextToken? text = some (first, after)) (further : Lexes after others rest) :
      Lexes text (first :: others) rest

theorem Lexes.append {text middle rest : List Char} {first second : List Token}
    (lexes : Lexes text first middle) (further : Lexes middle second rest) :
    Lexes text (first ++ second) rest := by
  induction lexes with
  | nothing => exact further
  | token read _ inductionHypothesis => exact .token read (inductionHypothesis further)

/-- Tokens that complete a value are read as that value, and not beyond: a complete value
takes no further token. -/
theorem State.read?_of_lexes {text rest : List Char} {read : List Token}
    (lexes : Lexes text read rest) {state : State} {value : Json}
    (completes : read.foldlM State.step? state = some (.complete value)) :
    state.read? text = some (value, rest) := by
  induction lexes generalizing state with
  | nothing rest =>
      cases completes
      exact State.read?_complete value rest
  | token isToken _ inductionHypothesis =>
      obtain ⟨next, step, further⟩ := Option.bind_eq_some_iff.1 completes
      exact (State.read?_of_step? isToken step).trans (inductionHypothesis further)

/-! ## The compact form -/

theorem lexes_key (name : Quoted) {text rest : List Char} {others : List Token}
    (further : Lexes text others rest) :
    Lexes (writeQuoted name ++ ':' :: text) (.text name :: .colon :: others) rest :=
  .token (nextToken?_writeQuoted name _) (.token rfl further)

/-- The compact form of a value starts with its tokens, whatever follows. -/
def StartsLexing (value : Json) : Prop :=
  ∀ rest, EndsNumber rest → Lexes (compact value ++ rest) value.tokens rest

theorem lexes_compactItems {items : List Json} (each : ∀ item ∈ items, StartsLexing item)
    (rest : List Char) : Lexes (compactItems items ++ rest) (itemTokens items) rest := by
  induction items with
  | nil => exact .token rfl (.nothing rest)
  | cons item others inductionHypothesis =>
      obtain ⟨first, further⟩ := List.forall_mem_cons.1 each
      rw [compactItems, List.cons_append, List.append_assoc]
      refine .token rfl ?_
      exact (first _ (separates_compactItems others rest)).append (inductionHypothesis further)

theorem lexes_compactFields {fields : List (Quoted × Json)}
    (each : ∀ field ∈ fields, StartsLexing field.2) (rest : List Char) :
    Lexes (compactFields fields ++ rest) (fieldTokens fields) rest := by
  induction fields with
  | nil => exact .token rfl (.nothing rest)
  | cons field others inductionHypothesis =>
      obtain ⟨first, further⟩ := List.forall_mem_cons.1 each
      rw [compactFields, List.cons_append, List.append_assoc, List.cons_append, List.append_assoc]
      refine .token rfl (lexes_key field.1 ?_)
      exact (first _ (separates_compactFields others rest)).append (inductionHypothesis further)

theorem startsLexing {value : Json} (plain : IsPlain value) : StartsLexing value := by
  induction plain with
  | null => exact fun rest _ => .token rfl (.nothing rest)
  | bool value =>
      cases value with
      | false => exact fun rest _ => .token rfl (.nothing rest)
      | true => exact fun rest _ => .token rfl (.nothing rest)
  | number value =>
      intro rest ends
      have written : compact (.number (toString value)) = Nat.toDigits 10 value := Nat.toList_repr
      rw [written]
      exact .token (nextToken?_toDigits value ends) (.nothing rest)
  | text content => exact fun rest _ => .token (nextToken?_writeQuoted content rest) (.nothing rest)
  | @array items _ inductionHypothesis =>
      intro rest _
      cases items with
      | nil => exact .token rfl (.token rfl (.nothing rest))
      | cons item others =>
          obtain ⟨first, further⟩ := List.forall_mem_cons.1 inductionHypothesis
          rw [compact, List.cons_append, List.append_assoc]
          refine .token rfl ?_
          exact (first _ (separates_compactItems others rest)).append
            (lexes_compactItems further rest)
  | @object fields _ inductionHypothesis =>
      intro rest _
      cases fields with
      | nil => exact .token rfl (.token rfl (.nothing rest))
      | cons field others =>
          obtain ⟨first, further⟩ := List.forall_mem_cons.1 inductionHypothesis
          rw [compact, List.cons_append, List.append_assoc, List.cons_append, List.append_assoc]
          refine .token rfl (lexes_key field.1 ?_)
          exact (first _ (separates_compactFields others rest)).append
            (lexes_compactFields further rest)

theorem read?_compact {value : Json} (plain : IsPlain value) {rest : List Char}
    (ends : EndsNumber rest) :
    (State.value []).read? (compact value ++ rest) = some (value, rest) :=
  State.read?_of_lexes (startsLexing plain rest ends) (settles plain _ _ (awaitsValue_value []))

/-- What is written for data is read back at the start of a text. -/
theorem ReadsBack.leading?_write {α : Type} {read : Json → Option α} {write : α → Json}
    (back : ReadsBack read write) (value : α) {rest : List Char} (ends : EndsNumber rest) :
    leading? read ((write value).toCompact.toList ++ rest) = some (value, rest) := by
  unfold leading? toCompact
  rw [String.toList_ofList, read?_compact (back.plain value) ends, Option.bind_some,
    back.read_write]
  rfl

/-! ## One line -/

theorem isOneLine_compactItems {items : List Json}
    (each : ∀ item ∈ items, IsOneLine (compact item)) : IsOneLine (compactItems items) := by
  induction items with
  | nil => exact List.forall_mem_singleton.2 (by decide)
  | cons item rest inductionHypothesis =>
      obtain ⟨first, others⟩ := List.forall_mem_cons.1 each
      rw [compactItems, isOneLine_cons, isOneLine_append]
      exact ⟨by decide, first, inductionHypothesis others⟩

theorem isOneLine_compactFields {fields : List (Quoted × Json)}
    (each : ∀ field ∈ fields, IsOneLine (compact field.2)) :
    IsOneLine (compactFields fields) := by
  induction fields with
  | nil => exact List.forall_mem_singleton.2 (by decide)
  | cons field rest inductionHypothesis =>
      obtain ⟨first, others⟩ := List.forall_mem_cons.1 each
      rw [compactFields, isOneLine_cons, isOneLine_append, isOneLine_cons, isOneLine_append]
      exact ⟨by decide, isOneLine_writeQuoted field.1, by decide, first, inductionHypothesis others⟩

theorem isOneLine_compact {value : Json} (plain : IsPlain value) : IsOneLine (compact value) := by
  induction plain with
  | null => decide
  | bool value => cases value <;> decide
  | number value =>
      intro c member
      have isDigit : c.isDigit = true := by
        refine Nat.isDigit_of_mem_toDigits (by decide) (by decide) (?_ : c ∈ Nat.toDigits 10 value)
        rw [← (Nat.toList_repr : (toString value).toList = Nat.toDigits 10 value)]
        exact member
      have notBelow : '0' ≤ c := by
        simp only [Char.isDigit, Bool.and_eq_true, decide_eq_true_eq] at isDigit
        exact isDigit.1
      exact Char.le_trans (by decide) notBelow
  | text content => exact isOneLine_writeQuoted content
  | @array items _ inductionHypothesis =>
      cases items with
      | nil => decide
      | cons item rest =>
          obtain ⟨first, others⟩ := List.forall_mem_cons.1 inductionHypothesis
          rw [compact, isOneLine_cons, isOneLine_append]
          exact ⟨by decide, first, isOneLine_compactItems others⟩
  | @object fields _ inductionHypothesis =>
      cases fields with
      | nil => decide
      | cons field rest =>
          obtain ⟨first, others⟩ := List.forall_mem_cons.1 inductionHypothesis
          rw [compact, isOneLine_cons, isOneLine_append, isOneLine_cons, isOneLine_append]
          exact ⟨by decide, isOneLine_writeQuoted field.1, by decide, first,
            isOneLine_compactFields others⟩

end VirtualBlocks.Json
