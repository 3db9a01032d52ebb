import VirtualBlocks.Cli.Arguments
import VirtualBlocks.Files.Disk
import VirtualBlocks.Json.Reader
import VirtualBlocks.Markup.Component
import VirtualBlocks.Config
import VirtualBlocks.TagFilter
import VirtualBlocks.Tools
import VirtualBlocks.VirtualId

/-!
Contract: what the command line prints.

Owns:
- the levels of messages, and the lines that messages are written on;
- the three commands: the id of a block, the address of an id, and the list of
  the blocks of a component;
- the output of a run: its two texts and its exit code.

Does not own: reading files. A run is told what each path leads to.
-/

namespace VirtualBlocks.Cli

/-- What each path leads to. -/
abbrev Reads := Path → Except DiskFault (List UInt8)

/-- What a run leaves behind. -/
structure Output where
  exit : Nat
  stdout : String
  stderr : String
deriving DecidableEq

/-! ## Messages -/

/-- How much a message matters, from least to most talkative. -/
inductive LogLevel where
  | error
  | warn
  | info
  | debug
  | trace
deriving DecidableEq

namespace LogLevel

/-- The place of a level among the levels. -/
def rank : LogLevel → Nat
  | .error => 0
  | .warn => 1
  | .info => 2
  | .debug => 3
  | .trace => 4

/-- The level as it is written on a line, five characters wide. -/
def label : LogLevel → String
  | .error => "ERROR"
  | .warn => " WARN"
  | .info => " INFO"
  | .debug => "DEBUG"
  | .trace => "TRACE"

/-- The level of a name in any letter case. `silent` leaves errors alone. -/
def ofName? (name : String) : Option LogLevel :=
  let lower := String.ofList (name.toList.map Char.toLower)
  if lower = "silent" ∨ lower = "error" then some .error
  else if lower = "warn" then some .warn
  else if lower = "info" then some .info
  else if lower = "debug" then some .debug
  else if lower = "trace" then some .trace
  else none

end LogLevel

/-- The line of a message, or nothing when the chosen level leaves it out. -/
def message (chosen level : LogLevel) (text : String) : String :=
  if level.rank ≤ chosen.rank then level.label ++ " " ++ text ++ "\n" else ""

/-! ## Files -/

/-- Why the text of a file cannot be had, in words. -/
def unreadable (path : Path) (reason : String) : String :=
  "cannot read '" ++ path.text ++ "': " ++ reason

/-- The text of a file. -/
def readText (reads : Reads) (path : Path) : Except String String :=
  match reads path with
  | .error fault => .error (unreadable path fault.text)
  | .ok content =>
      match Text.ofBytes? content with
      | some text => .ok text
      | none => .error (unreadable path "stream did not contain valid UTF-8")

/-- Whether a path leads to anything. -/
def leadsSomewhere (reads : Reads) (path : Path) : Bool :=
  match reads path with
  | .ok _ => true
  | .error .isDirectory => true
  | .error .denied => true
  | .error _ => false

/-- The options of a run and the message about them. A missing file means the
defaults. The message about a text that is no configuration ends behind the path:
what the parser says about the place of the fault is left out. -/
def readConfig (reads : Reads) (level : LogLevel) (path : Path) :
    Except String (Config × String) :=
  if leadsSomewhere reads path then
    match readText reads path with
    | .error reason => .error reason
    | .ok text =>
        match Config.ofText? text with
        | none => .error ("cannot parse '" ++ path.text ++ "'")
        | some config => .ok (config, message level .info ("loaded config path=" ++ path.text))
  else
    .ok ({}, message level .debug ("no config file, using defaults path=" ++ path.text))

/-! ## Commands -/

/-- The id of a block. A block of a list needs a position. -/
def encode (languages : Languages) (file : Path) (kind : BlockKind) (index : Option Nat)
    (lang : Option String) : Except String String :=
  if kind.isList && index.isNone then
    .error ("--index is required for " ++ kind.name ++ " blocks")
  else .ok (VirtualId.encode languages file lang kind index)

/-- The address of an id, and its file if the id names one. -/
def decode (languages : Languages) (id : String) : Except String String :=
  match VirtualId.address? languages id with
  | none => .error ("'" ++ id ++ "' is not a block request")
  | some address =>
      let file := (VirtualId.request? languages id).map (fun request => request.file.text)
      .ok
        (Json.record
          [("filename", .optional .string file),
            ("type", .string address.kind.name),
            ("lang", .string address.lang),
            ("index", .optional .natural address.index)]).toIndented

/-- A line of the list of blocks. -/
structure BlockEntry where
  tag : String
  id : String
  src : Option String
  isScoped : Option Bool := none
  isModule : Option Bool := none
  exported : Option Bool := none
deriving DecidableEq

def BlockEntry.toJson (entry : BlockEntry) : Json :=
  let flag (name : String) (value : Option Bool) : List (String × Json) :=
    (value.map (fun on => (name, Json.bool on))).toList
  Json.record
    ([("tag", .string entry.tag), ("id", .string entry.id)] ++
      (entry.src.map (fun src => ("src", Json.string src))).toList ++
      flag "scoped" entry.isScoped ++ flag "module" entry.isModule ++
      flag "exported" entry.exported)

/-- The entry of a block. -/
def entryOf (languages : Languages) (tags : Option TagSetting) (file : Path)
    (kind : BlockKind) (index : Option Nat) (block : Block) : BlockEntry :=
  let entry : BlockEntry :=
    { tag := block.tag
      id := VirtualId.ofBlock languages file block kind index
      src := block.src }
  match kind with
  | .template => entry
  | .script => entry
  | .styles => { entry with isScoped := some block.isScoped, isModule := some block.isModule }
  | .customBlocks => { entry with exported := some (TagSetting.allows tags block.tag) }

/-- The entries of a list of blocks, of which the first one has the position
`index`. -/
def entriesFrom (languages : Languages) (tags : Option TagSetting) (file : Path)
    (kind : BlockKind) (index : Nat) : List Block → List BlockEntry
  | [] => []
  | block :: rest =>
      entryOf languages tags file kind (some index) block ::
        entriesFrom languages tags file kind (index + 1) rest

/-- The entries of a component, in the order in which its blocks are
addressed. -/
def entries (languages : Languages) (tags : Option TagSetting) (file : Path)
    (descriptor : Descriptor) : List BlockEntry :=
  descriptor.template.toList.map (entryOf languages tags file .template none) ++
    descriptor.script.toList.map (entryOf languages tags file .script none) ++
    entriesFrom languages tags file .styles 0 descriptor.styles ++
    entriesFrom languages tags file .customBlocks 0 descriptor.customBlocks

/-- The custom block setting of the options, and whether a deprecated list is
given. -/
def tagSetting (config : Config) : Option TagSetting × Bool :=
  TagSetting.merge (config.customBlocks.map .tags) config.allowedBlocks config.deniedBlocks

/-- The list of the blocks of a component, and the messages about it. -/
def blocks (reads : Reads) (level : LogLevel) (config : Config) (file : Path) :
    Except String (String × String) := do
  let source ← readText reads file
  let options := { needMap := false, sourceRoot := config.sourceRoot }
  match Descriptor.ofSource options file source with
  | .error error =>
      .error ("cannot parse '" ++ file.text ++ "': " ++ error.report.message)
  | .ok descriptor =>
      let (tags, deprecated) := tagSetting config
      let warning :=
        if deprecated then
          message level .warn
            "whiteListCustomBlocks and blackListCustomBlocks are deprecated, use customBlocks"
        else ""
      let listed := entries config.languages tags file descriptor
      .ok ((Json.array (listed.map BlockEntry.toJson)).toIndented, warning)

/-! ## Runs -/

/-- What a command prints, and the messages about it. -/
def perform (reads : Reads) (level : LogLevel) (config : Config) :
    Command → Except String (String × String)
  | .encode file kind index lang =>
      (encode config.languages file kind index lang).map (fun printed => (printed, ""))
  | .decode id => (decode config.languages id).map (fun printed => (printed, ""))
  | .blocks file => blocks reads level config file

/-- The line that reports a failure. -/
def failureLine (reason : String) : String :=
  "Error: " ++ reason ++ "\n"

/-- The output of an invocation. -/
def execute (reads : Reads) (invocation : Invocation) : Output :=
  match LogLevel.ofName? invocation.logLevel with
  | none =>
      { exit := 2
        stdout := ""
        stderr := failureLine ("unknown log level '" ++ invocation.logLevel ++ "'") }
  | some level =>
      match readConfig reads level invocation.config with
      | .error reason => { exit := 1, stdout := "", stderr := failureLine reason }
      | .ok (config, messages) =>
          match perform reads level config invocation.command with
          | .error reason =>
              { exit := 1, stdout := "", stderr := messages ++ failureLine reason }
          | .ok (printed, warnings) =>
              { exit := 0, stdout := printed ++ "\n", stderr := messages ++ warnings }

/-- The paths whose content an invocation depends on. -/
def Invocation.paths (invocation : Invocation) : List Path :=
  match invocation.command with
  | .blocks file => [invocation.config, file]
  | _ => [invocation.config]

/-- The commands and options in short. -/
def usageText : String :=
  "Usage: vuepart [--config FILE] [--log-level LEVEL] [--log-format FORMAT] COMMAND\n\n" ++
    "Commands:\n" ++
    "  encode FILE --type KIND [--index N] [--lang LANG]\n" ++
    "  decode ID\n" ++
    "  blocks FILE\n"

/-- The output of a command line that asks for no command. -/
def stopped : Stop → Output
  | .usage => { exit := 2, stdout := "", stderr := usageText }
  | .help => { exit := 0, stdout := usageText, stderr := "" }
  | .version => { exit := 0, stdout := "vuepart " ++ programVersion ++ "\n", stderr := "" }

/-- The output of a command line. -/
def run (reads : Reads) (arguments : List String) : Output :=
  match parse arguments with
  | .ok invocation => execute reads invocation
  | .error stop => stopped stop

end VirtualBlocks.Cli
