import EmbeddedMarkup.CommandLine

/-!
# The program

The program takes its call from the arguments, reads the file, and prints the result.
-/

namespace EmbeddedMarkup

/--
What a failed attempt to read a file says about its path.  A path that cannot be followed to a
file leads nowhere; a directory is found but has no bytes.
-/
def FileContent.ofError : IO.Error → FileContent
  | .noFileOrDirectory .. => .missing
  | .inappropriateType (some _) .. => .missing
  | .invalidArgument (some _) .. => .missing
  | .inappropriateType none .. => .unreadable .isDirectory
  | .permissionDenied .. => .unreadable .notPermitted
  | error => .unreadable (.stated (toString error))

/-- Look up what is at a path. -/
def readContent (path : String) : IO FileContent := do
  try
    return .bytes (← IO.FS.readBinFile path)
  catch error =>
    return .ofError error

end EmbeddedMarkup

open EmbeddedMarkup in
/-- Run the command line. -/
def main (arguments : List String) : IO UInt32 := do
  let result ←
    match Command.ofArguments arguments with
    | .error fault => pure (CommandResult.refused fault)
    | .ok command => pure (command.run (← readContent command.path))
  IO.print result.output
  IO.eprint result.errors
  return result.status.toUInt32
