/-!
Contract: glob patterns as sequences of tokens.

Owns:
- the tokens, among them groups of alternatives, which nest;
- reading a pattern, in which a double star between slashes spans directories
  and any other run of stars is one wildcard;
- why a text is no pattern, in words.

Does not own: which texts a pattern matches (`Glob.Match`).
-/

namespace VirtualBlocks.Glob

/-- A part of a pattern. -/
inductive Token where
  | literal (c : Char)
  | any
  | anything
  /-- A double star at the start: any directories, or none. -/
  | leadingDirectories
  /-- A double star between slashes: a slash, or two with anything between. -/
  | innerDirectories
  /-- A double star at the end: a slash and anything behind it. -/
  | trailingDirectories
  /-- One byte that lies in the ranges, or outside of them. -/
  | oneOf (negated : Bool) (ranges : List (Char × Char))
  | alternatives (branches : List (List Token))

/-- Why a text is no pattern. -/
inductive PatternFault where
  | unclosedClass
  | invalidRange (low high : Char)
  | unclosedAlternatives
  | unopenedAlternatives
  | danglingEscape
deriving DecidableEq

def PatternFault.text : PatternFault → String
  | .unclosedClass => "unclosed character class; missing ']'"
  | .invalidRange low high =>
      "invalid range; '" ++ String.singleton low ++ "' > '" ++ String.singleton high ++ "'"
  | .unclosedAlternatives =>
      "unclosed alternate group; missing '\x7d' (maybe escape '\x7b' with '[\x7b]'?)"
  | .unopenedAlternatives =>
      "unopened alternate group; missing '\x7b' (maybe escape '\x7d' with '[\x7d]'?)"
  | .danglingEscape => "dangling '\\'"

/-! ## Character classes -/

/-- The ranges read so far, the last one first, after the upper end of the last
one has become `high`. -/
def extendRange (high : Char) :
    List (Char × Char) → Except PatternFault (List (Char × Char))
  | [] => .ok [(high, high)]
  | (low, _) :: before =>
      if high < low then .error (.invalidRange low high) else .ok ((low, high) :: before)

/-- The ranges of a class behind its first character, through the closing
bracket, and what follows. `waiting` tells that a hyphen waits for the upper end
of the last range; a hyphen that gets none is itself in the class. -/
def readRanges (waiting : Bool) (ranges : List (Char × Char)) :
    List Char → Except PatternFault (List (Char × Char) × List Char)
  | [] => .error .unclosedClass
  | ']' :: rest =>
      .ok ((if waiting then ('-', '-') :: ranges else ranges).reverse, rest)
  | '-' :: rest =>
      if waiting then
        match extendRange '-' ranges with
        | .ok extended => readRanges false extended rest
        | .error fault => .error fault
      else readRanges true ranges rest
  | c :: rest =>
      if waiting then
        match extendRange c ranges with
        | .ok extended => readRanges false extended rest
        | .error fault => .error fault
      else readRanges false ((c, c) :: ranges) rest

/-- The ranges of a class. Its first character is in it, even a bracket or a
hyphen. -/
def readClass : List Char → Except PatternFault (List (Char × Char) × List Char)
  | [] => .error .unclosedClass
  | first :: rest => readRanges false [(first, first)] rest

/-- The mark that turns a class into its complement, and what follows. -/
def readNegation : List Char → Bool × List Char
  | '!' :: rest => (true, rest)
  | '^' :: rest => (true, rest)
  | rest => (false, rest)

theorem length_lt_of_readRanges {waiting : Bool} {ranges read : List (Char × Char)}
    {text after : List Char} (ok : readRanges waiting ranges text = .ok (read, after)) :
    after.length < text.length := by
  fun_induction readRanges waiting ranges text with
  | case1 => simp at ok
  | case2 waiting ranges rest =>
      simp only [Except.ok.injEq, Prod.mk.injEq] at ok
      simp [← ok.2]
  | case3 ranges rest extended _ inductionHypothesis =>
      exact Nat.lt_succ_of_lt (inductionHypothesis ok)
  | case4 => simp at ok
  | case5 waiting ranges rest _ inductionHypothesis =>
      exact Nat.lt_succ_of_lt (inductionHypothesis ok)
  | case6 ranges c rest _ _ extended _ inductionHypothesis =>
      exact Nat.lt_succ_of_lt (inductionHypothesis ok)
  | case7 => simp at ok
  | case8 waiting ranges c rest _ _ _ inductionHypothesis =>
      exact Nat.lt_succ_of_lt (inductionHypothesis ok)

theorem length_lt_of_readClass {read : List (Char × Char)} {text after : List Char}
    (ok : readClass text = .ok (read, after)) : after.length < text.length := by
  unfold readClass at ok
  split at ok
  · simp at ok
  · exact Nat.lt_succ_of_lt (length_lt_of_readRanges ok)

theorem length_readNegation_le (text : List Char) :
    (readNegation text).2.length ≤ text.length := by
  unfold readNegation
  split <;> simp

/-! ## Patterns -/

/-- A group that is still open: the tokens before it and the alternatives that
are complete, both the last one first. -/
structure OpenGroup where
  before : List Token
  complete : List (List Token)

/-- What a double star stands for, given the tokens before it in its branch (the
last one first), whether a group is open, the character before the stars and
the text behind them: the tokens with it, and whether it takes a slash from the
text. -/
def doubleStar (tokens : List Token) (grouped : Bool) (previous : Option Char)
    (rest : List Char) : List Token × Bool :=
  let wildcard := (.anything :: tokens, false)
  match tokens with
  | [] =>
      match rest with
      | [] => ([.leadingDirectories], false)
      | '/' :: _ => ([.leadingDirectories], true)
      | _ => wildcard
  | last :: before =>
      let atBoundary :=
        previous == some '/' || (grouped && (previous == some ',' || previous == some '{'))
      let spanning (token : Token) : List Token :=
        match last with
        | .leadingDirectories => tokens
        | .trailingDirectories => tokens
        | _ => token :: before
      if atBoundary then
        match rest with
        | [] => (spanning .trailingDirectories, false)
        | '/' :: _ => (spanning .innerDirectories, true)
        | c :: _ =>
            if grouped && (c == ',' || c == '}') then (spanning .trailingDirectories, false)
            else wildcard
      else wildcard

/-- The tokens of a pattern from some place on. `groups` are the groups that are
open there, the innermost first, `tokens` those of the current branch, the last
one first, and `previous` is the character before. -/
def readTokens (groups : List OpenGroup) (tokens : List Token) (previous : Option Char)
    (text : List Char) : Except PatternFault (List Token) :=
  match text with
  | [] =>
      match groups with
      | [] => .ok tokens.reverse
      | _ :: _ => .error .unclosedAlternatives
  | '*' :: '*' :: rest =>
      let (spanned, takesSlash) := doubleStar tokens (!groups.isEmpty) previous rest
      if takesSlash then readTokens groups spanned (some '/') rest.tail
      else readTokens groups spanned (some '*') rest
  | '*' :: rest => readTokens groups (.anything :: tokens) (some '*') rest
  | '?' :: rest => readTokens groups (.any :: tokens) (some '?') rest
  | '[' :: rest =>
      match _ranged : readClass (readNegation rest).2 with
      | .error fault => .error fault
      | .ok (ranges, after) =>
          readTokens groups (.oneOf (readNegation rest).1 ranges :: tokens) (some ']') after
  | '{' :: rest => readTokens (⟨tokens, []⟩ :: groups) [] (some '{') rest
  | '}' :: rest =>
      match groups with
      | [] => .error .unopenedAlternatives
      | group :: outer =>
          let branches := (tokens.reverse :: group.complete).reverse
          readTokens outer (.alternatives branches :: group.before) (some '}') rest
  | ',' :: rest =>
      match groups with
      | [] => readTokens [] (.literal ',' :: tokens) (some ',') rest
      | group :: outer =>
          let complete := tokens.reverse :: group.complete
          readTokens ({ group with complete := complete } :: outer) [] (some ',') rest
  | '\\' :: rest =>
      match rest with
      | [] => .error .danglingEscape
      | c :: after => readTokens groups (.literal c :: tokens) (some c) after
  | c :: rest => readTokens groups (.literal c :: tokens) (some c) rest
termination_by text.length
decreasing_by
  all_goals simp only [List.length_cons, List.length_tail]
  all_goals first
    | omega
    | exact Nat.lt_succ_of_lt
        (Nat.lt_of_lt_of_le (length_lt_of_readClass _ranged) (length_readNegation_le _))

def ofText (pattern : String) : Except PatternFault (List Token) :=
  readTokens [] [] none pattern.toList

end VirtualBlocks.Glob
