import VirtualBlocks.Files.View
import VirtualBlocks.IdFilter
import VirtualBlocks.Markup.Component
import VirtualBlocks.Store
import VirtualBlocks.VirtualId

/-!
Contract: the ways in which the plugin fails.

Owns:
- the errors of the plugin, by cause, and their messages;
- the block that a request addresses, or why there is none.

An id that addresses no block is not among them: the plugin leaves it alone.
-/

namespace VirtualBlocks

/-- Why a call of the plugin fails. -/
inductive PluginError where
  /-- A block was asked for before its file was transformed. -/
  | notYetProcessed (file : Path)
  | blockNotFound (file : Path) (kind : BlockKind) (index : Option Nat)
  | parse (file : Path) (error : ParseError)
  | styleCompile (file : Path) (compiler : String) (errors : List String)
  | templateCompile (file : Path) (compiler : String) (errors : List String)
  /-- A helper or the source of a block is not found. -/
  | unresolved (specifier : String) (directory : Path)
  | config (reason : String)
  | files (error : FileError)
deriving DecidableEq

namespace PluginError

def indexText : Option Nat → String
  | some index => toString index
  | none => "undefined"

/-- The error that stands for a list of errors. -/
def firstError (errors : List String) : String :=
  errors.head?.getD "unknown error"

def text : PluginError → String
  | .notYetProcessed file => "File not processed yet, " ++ file.text
  | .blockNotFound file kind index =>
      "Requested (type=" ++ kind.name ++ " & index=" ++ indexText index ++
        ") block not found in " ++ file.text
  | .parse file error => "failed to parse " ++ file.text ++ ": " ++ error.message
  | .styleCompile file compiler errors =>
      "style compile error [" ++ compiler ++ "] in " ++ file.text ++ ": " ++ firstError errors
  | .templateCompile file compiler errors =>
      "template compile error [" ++ compiler ++ "] in " ++ file.text ++ ": " ++
        firstError errors
  | .unresolved specifier directory =>
      "cannot resolve '" ++ specifier ++ "' from " ++ directory.text
  | .config reason => "configuration error: " ++ reason
  | .files error => "file system error: " ++ error.text

end PluginError

/-- The block that a request addresses. -/
def Store.resolve (store : Store) (request : BlockRequest) : Except PluginError Block :=
  match store.get? request.file with
  | none => .error (.notYetProcessed request.file)
  | some descriptor =>
      match descriptor.select? request.address.kind request.address.index with
      | some block => .ok block
      | none =>
          .error (.blockNotFound request.file request.address.kind request.address.index)

end VirtualBlocks
