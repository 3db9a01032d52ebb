import VirtualBlocks.Cli.Run

/-!
Contract: the program on a real machine.

Owns:
- reading the files that an invocation depends on;
- printing the two texts of a run and returning its exit code.

Decides nothing: what is printed is `Cli.run` of what was read.
-/

namespace VirtualBlocks.Main

/-- The fault that stands for an error of the operating system. Number 21 tells a
directory from a name that leads through a file. -/
def faultOf : IO.Error → DiskFault
  | .permissionDenied .. => .denied
  | .inappropriateType _ code _ => if code = 21 then .isDirectory else .notDirectory
  | .invalidArgument .. => .nameTooLong
  | _ => .notFound

/-- What a path leads to. -/
def readPath (path : Path) : IO (Except DiskFault (List UInt8)) := do
  try
    let content ← IO.FS.readBinFile path.text
    return .ok content.toList
  catch error => return .error (faultOf error)

/-- What each path that the arguments name leads to. -/
def readAll (arguments : List String) : IO Cli.Reads := do
  match Cli.parse arguments with
  | .error _ => return fun _ => .error .notFound
  | .ok invocation =>
      let found ← invocation.paths.mapM (fun path => do
        let read ← readPath path
        return (path, read))
      return fun path => (found.lookup path).getD (.error .notFound)

end VirtualBlocks.Main

open VirtualBlocks in
def main (arguments : List String) : IO UInt32 := do
  let reads ← Main.readAll arguments
  let output := Cli.run reads arguments
  (← IO.getStdout).putStr output.stdout
  (← IO.getStderr).putStr output.stderr
  return UInt32.ofNat output.exit
