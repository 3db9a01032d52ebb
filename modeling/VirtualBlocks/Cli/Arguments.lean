import VirtualBlocks.Address
import VirtualBlocks.Path

/-!
Contract: the command line as an invocation.

Owns:
- the commands and the options that each of them takes;
- reading the arguments from left to right, so that a request for help or for
  the version counts as soon as it is reached, and a fault before it counts
  first;
- the values of options: each is given at most once for a command, in the next
  argument or behind an equals sign.

The general options may stand before and behind the name of the command; the
later place wins.
-/

namespace VirtualBlocks.Cli

/-- How messages are written. -/
inductive LogFormat where
  | pretty
  | compact
  | json
deriving DecidableEq

/-- The format of a name. -/
def LogFormat.ofName? (name : String) : Option LogFormat :=
  if name = "pretty" then some .pretty
  else if name = "compact" then some .compact
  else if name = "json" then some .json
  else none

/-- What is to be done. -/
inductive Command where
  | encode (file : Path) (kind : BlockKind) (index : Option Nat) (lang : Option String)
  | decode (id : String)
  | blocks (file : Path)
deriving DecidableEq

/-- A command and the general options. -/
structure Invocation where
  config : Path
  logLevel : String
  logFormat : LogFormat
  command : Command
deriving DecidableEq

/-- Why there is nothing to be done. -/
inductive Stop where
  | usage
  | help
  | version
deriving DecidableEq

/-! ## Values -/

/-- What the value of an argument has to be. -/
inductive ValueKind where
  | text
  | path
  | blockKind
  | position
  | logFormat
deriving DecidableEq

/-- The position that a text writes: digits, possibly behind a plus sign. -/
def position? (text : String) : Option Nat :=
  let digits :=
    match text.toList with
    | '+' :: rest => rest
    | chars => chars
  if Address.isIndex digits then Address.index? digits else none

/-- Whether a value is of a kind. -/
def ValueKind.accepts (kind : ValueKind) (value : String) : Bool :=
  match kind with
  | .text => true
  | .path => !value.isEmpty
  | .blockKind => (BlockKind.ofName? value).isSome
  | .position => (position? value).isSome
  | .logFormat => (LogFormat.ofName? value).isSome

/-- What a level of the command line takes. -/
structure Level where
  options : List (String × ValueKind)
  positionals : List ValueKind
  hasVersion : Bool

/-- The options that every command takes. -/
def generalOptions : List (String × ValueKind) :=
  [("config", .path), ("log-level", .text), ("log-format", .logFormat)]

/-- The arguments before the name of a command. -/
def topLevel : Level :=
  { options := generalOptions, positionals := [], hasVersion := true }

/-- The arguments of a command. -/
def commandLevel? (command : String) : Option Level :=
  if command = "encode" then
    some
      { options :=
          generalOptions ++
            [("type", .blockKind), ("index", .position), ("lang", .text)]
        positionals := [.path]
        hasVersion := false }
  else if command = "decode" then
    some { options := generalOptions, positionals := [.text], hasVersion := false }
  else if command = "blocks" then
    some { options := generalOptions, positionals := [.path], hasVersion := false }
  else none

/-! ## Scanning -/

/-- The values of a level so far. -/
structure Values where
  options : List (String × String) := []
  positionals : List String := []
deriving DecidableEq

/-- What an argument is. -/
inductive Shape where
  /-- `--`: only positionals follow. -/
  | separator
  /-- `--name` or `--name=value`. -/
  | long (name : String) (value : Option String)
  /-- `-x`. -/
  | short (first : Char)
  /-- Any other text, a single hyphen too. -/
  | plain
deriving DecidableEq

/-- The shape of an argument. -/
def shapeOf (argument : String) : Shape :=
  match argument.toList with
  | ['-', '-'] => .separator
  | '-' :: '-' :: rest =>
      let value :=
        match rest.dropWhile (· != '=') with
        | [] => none
        | _ :: text => some (String.ofList text)
      .long (String.ofList (rest.takeWhile (· != '='))) value
  | '-' :: first :: _ => .short first
  | _ => .plain

/-- The values with one more option, unless it is unknown, repeated or of the
wrong kind. -/
def addOption (level : Level) (values : Values) (name value : String) :
    Except Stop Values :=
  match level.options.lookup name with
  | none => .error .usage
  | some kind =>
      if (values.options.lookup name).isSome || !kind.accepts value then .error .usage
      else .ok { values with options := (name, value) :: values.options }

/-- The values with one more positional, unless there is no place for it or it is
of the wrong kind. -/
def addPositional (level : Level) (values : Values) (value : String) :
    Except Stop Values :=
  match level.positionals[values.positionals.length]? with
  | none => .error .usage
  | some kind =>
      if kind.accepts value then
        .ok { values with positionals := values.positionals ++ [value] }
      else .error .usage

/-- A request that a level answers at once. -/
def request (level : Level) (isHelp isVersion : Bool) : Stop :=
  if isHelp then .help
  else if isVersion && level.hasVersion then .version
  else .usage

/-- The values of a level, and the arguments from the first plain one on if the
level takes no positionals. -/
def scan (level : Level) (values : Values) : List String → Except Stop (Values × List String)
  | [] => .ok (values, [])
  | argument :: rest =>
      match shapeOf argument with
      | .separator =>
          match rest.foldlM (addPositional level) values with
          | .error stop => .error stop
          | .ok complete => .ok (complete, [])
      | .short first => .error (request level (first == 'h') (first == 'V'))
      | .plain =>
          if level.positionals.isEmpty then .ok (values, argument :: rest)
          else
            match addPositional level values argument with
            | .error stop => .error stop
            | .ok further => scan level further rest
      | .long name (some value) =>
          match addOption level values name value with
          | .error stop => .error stop
          | .ok further => scan level further rest
      | .long name none =>
          if (level.options.lookup name).isSome then
            match rest with
            | [] => .error .usage
            | value :: others =>
                if shapeOf value = .plain then
                  match addOption level values name value with
                  | .error stop => .error stop
                  | .ok further => scan level further others
                else .error .usage
          else .error (request level (name == "help") (name == "version"))

/-! ## Invocations -/

/-- The command that the values of its level ask for. -/
def commandOf? (name : String) (values : Values) : Option Command := do
  let subject ← values.positionals.head?
  if name = "encode" then
    let kind ← (values.options.lookup "type").bind BlockKind.ofName?
    return .encode ⟨subject⟩ kind ((values.options.lookup "index").bind position?)
      (values.options.lookup "lang")
  else if name = "decode" then return .decode subject
  else return .blocks ⟨subject⟩

/-- The invocation that two levels of values ask for, those of the command
first. -/
def invocation (name : String) (inner outer : Values) : Except Stop Invocation :=
  let general (option default : String) : String :=
    ((inner.options.lookup option).or (outer.options.lookup option)).getD default
  match commandOf? name inner with
  | none => .error .usage
  | some command =>
      .ok
        { config := ⟨general "config" "vue.config.json"⟩
          logLevel := general "log-level" "warn"
          logFormat := (LogFormat.ofName? (general "log-format" "compact")).getD .compact
          command }

/-- Whether the arguments behind `help` name a command, or nothing. -/
def isHelpTopic : List String → Bool
  | [] => true
  | [topic] => topic = "help" || (commandLevel? topic).isSome
  | _ => false

/-- The invocation of a command line. -/
def parse (arguments : List String) : Except Stop Invocation := do
  let (outer, rest) ← scan topLevel {} arguments
  match rest with
  | [] => .error .usage
  | name :: others =>
      match commandLevel? name with
      | some level => do
          let (inner, _) ← scan level {} others
          invocation name inner outer
      | none =>
          if name = "help" && isHelpTopic others then .error .help else .error .usage

end VirtualBlocks.Cli
