import VirtualBlocks.Json.Reader
import VirtualBlocks.Proofs.Json.Tokens

/-!
Contract: a written JSON value is read back.

Owns:
- the tokens of a value settle that value, whatever is still open around it;
- reading the compact and the indented form of a value gives the value.

Does not own: which data a value stands for (`Proofs.Json.Record`).
-/

namespace VirtualBlocks.Json

/-! ## The tokens of a value -/

/-- A state in which a value may come next, inside these frames. -/
def AwaitsValue (state : State) (frames : List Frame) : Prop :=
  ∀ token, token ≠ .closeArray → state.step? token = startValue? frames token

theorem awaitsValue_value (frames : List Frame) : AwaitsValue (.value frames) frames :=
  fun _ _ => rfl

theorem awaitsValue_firstItem (frames : List Frame) :
    AwaitsValue (.firstItem frames) (.items [] :: frames) := by
  intro token notClose
  cases token with
  | closeArray => exact absurd rfl notClose
  | _ => rfl

/-- The tokens settle a value. -/
def Settles (value : Json) : Prop :=
  ∀ state frames, AwaitsValue state frames →
    value.tokens.foldlM State.step? state = some (settle value frames)

theorem foldlM_append_of_settles {value : Json} (settles : Settles value) {state : State}
    {frames : List Frame} (awaits : AwaitsValue state frames) (further : List Token) :
    (value.tokens ++ further).foldlM State.step? state =
      further.foldlM State.step? (settle value frames) := by
  rw [List.foldlM_append, settles state frames awaits]
  rfl

theorem foldlM_itemTokens {items : List Json} (each : ∀ item ∈ items, Settles item)
    (read : List Json) (frames : List Frame) :
    (itemTokens items).foldlM State.step? (.nextItem read frames) =
      some (settle (.array (read.reverse ++ items)) frames) := by
  induction items generalizing read with
  | nil =>
      rw [List.append_nil]
      rfl
  | cons item rest inductionHypothesis =>
      obtain ⟨first, others⟩ := List.forall_mem_cons.1 each
      rw [itemTokens, List.foldlM_cons]
      show (item.tokens ++ itemTokens rest).foldlM State.step? (.value (.items read :: frames)) = _
      rw [foldlM_append_of_settles first (awaitsValue_value _)]
      show (itemTokens rest).foldlM State.step? (.nextItem (item :: read) frames) = _
      rw [inductionHypothesis others, List.reverse_cons, List.append_assoc, List.singleton_append]

theorem foldlM_fieldTokens {fields : List (Quoted × Json)}
    (each : ∀ field ∈ fields, Settles field.2) (read : List (Quoted × Json))
    (frames : List Frame) :
    (fieldTokens fields).foldlM State.step? (.nextField read frames) =
      some (settle (.object (read.reverse ++ fields)) frames) := by
  induction fields generalizing read with
  | nil =>
      rw [List.append_nil]
      rfl
  | cons field rest inductionHypothesis =>
      obtain ⟨first, others⟩ := List.forall_mem_cons.1 each
      rw [fieldTokens, List.foldlM_cons]
      show (field.2.tokens ++ fieldTokens rest).foldlM State.step?
        (.value (.fields read field.1 :: frames)) = _
      rw [foldlM_append_of_settles first (awaitsValue_value _)]
      show (fieldTokens rest).foldlM State.step? (.nextField (field :: read) frames) = _
      rw [inductionHypothesis others, List.reverse_cons, List.append_assoc, List.singleton_append]

theorem settles_of_token {value : Json} {token : Token} (single : value.tokens = [token])
    (notClose : token ≠ .closeArray)
    (starts : ∀ frames, startValue? frames token = some (settle value frames)) :
    Settles value := by
  intro state frames awaits
  rw [single, List.foldlM_cons, awaits token notClose, starts]
  rfl

/-- The tokens of a value settle it. -/
theorem settles {value : Json} (plain : IsPlain value) : Settles value := by
  induction plain with
  | null => exact settles_of_token rfl nofun (fun _ => rfl)
  | bool value => exact settles_of_token rfl nofun (fun _ => rfl)
  | number value => exact settles_of_token rfl nofun (fun _ => rfl)
  | text content => exact settles_of_token rfl nofun (fun _ => rfl)
  | @array items _ inductionHypothesis =>
      intro state frames awaits
      cases items with
      | nil =>
          rw [tokens, List.foldlM_cons, awaits .openArray nofun]
          rfl
      | cons item rest =>
          obtain ⟨first, others⟩ := List.forall_mem_cons.1 inductionHypothesis
          rw [tokens, List.foldlM_cons, awaits .openArray nofun]
          show (item.tokens ++ itemTokens rest).foldlM State.step? (.firstItem frames) = _
          rw [foldlM_append_of_settles first (awaitsValue_firstItem frames)]
          exact foldlM_itemTokens others [item] frames
  | @object fields _ inductionHypothesis =>
      intro state frames awaits
      cases fields with
      | nil =>
          rw [tokens, List.foldlM_cons, awaits .openObject nofun]
          rfl
      | cons field rest =>
          obtain ⟨first, others⟩ := List.forall_mem_cons.1 inductionHypothesis
          rw [tokens, List.foldlM_cons, awaits .openObject nofun]
          show (field.2.tokens ++ fieldTokens rest).foldlM State.step?
            (.value (.fields [] field.1 :: frames)) = _
          rw [foldlM_append_of_settles first (awaitsValue_value _)]
          exact foldlM_fieldTokens others [field] frames

theorem ofTokens?_tokens {value : Json} (plain : IsPlain value) :
    ofTokens? value.tokens = some value := by
  unfold ofTokens?
  rw [settles plain (.value []) [] (awaitsValue_value [])]
  rfl

/-! ## Written values -/

theorem tokens?_of_readsAs {text : List Char} {read : List Token} (readsAs : ReadsAs text read) :
    tokens? text = some read := by
  have alone := readsAs [] endsNumber_nil
  have nothing : tokens? [] = some [] := by rw [tokens?_eq, List.dropWhile_nil]
  rw [List.append_nil, nothing, Option.map_some, List.append_nil] at alone
  exact alone

/-- A value is read back from both of its written forms. -/
theorem ofText?_written {value : Json} (plain : IsPlain value) :
    ofText? value.toCompact = some value ∧ ofText? value.toIndented = some value := by
  unfold ofText? toCompact toIndented
  rw [String.toList_ofList, String.toList_ofList, tokens?_of_readsAs (readsAs_compact plain),
    tokens?_of_readsAs (readsAs_indented plain 0)]
  exact ⟨ofTokens?_tokens plain, ofTokens?_tokens plain⟩

end VirtualBlocks.Json
