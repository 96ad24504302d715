import EmbeddedMarkup.CommandLine.Arguments
import EmbeddedMarkup.Json.Expression
import EmbeddedMarkup.Outline.Expression

/-!
# The command line

The program reads one file and either prints its tree, as an outline or as JSON, or only reports
whether it can be read.  What it prints is a function of its arguments and of what is found at
the path.
-/

namespace EmbeddedMarkup

/-- Why what is at a path cannot be read as text. -/
inductive FileFault where
  | isDirectory
  | notPermitted
  | notText
  /-- A reason that the system gives in its own words. -/
  | stated (reason : String)
deriving DecidableEq, Repr

/-- What is said about a file that cannot be read as text. -/
def FileFault.message : FileFault → String
  | .isDirectory => "Is a directory (os error 21)"
  | .notPermitted => "Permission denied (os error 13)"
  | .notText => "stream did not contain valid UTF-8"
  | .stated reason => reason

/-- What was found at a path. -/
inductive FileContent where
  | missing
  | unreadable (fault : FileFault)
  | bytes (content : ByteArray)

/-- What the program prints and the status it ends with. -/
structure CommandResult where
  status : Nat
  output : String
  errors : String
deriving DecidableEq, Repr

namespace CommandResult

/-- End with a message about what went wrong. -/
def failed (message : String) : CommandResult :=
  ⟨1, "", message ++ "\n"⟩

/-- End because the arguments are no call of the program. -/
def refused (fault : UsageFault) : CommandResult :=
  ⟨2, "", fault.message⟩

end CommandResult

namespace Command

open CommandResult

/-- What the program prints for a source. -/
def runOn (command : Command) (source : String) : CommandResult :=
  match Document.ofText source command.budget with
  | .error fault => failed (command.path ++ ": " ++ fault.display)
  | .ok document =>
      match command.action with
      | .outline positions => ⟨0, (Outline.ofDocument positions document).render ++ "\n", ""⟩
      | .json => ⟨0, (document.toJson .numbers).pretty ++ "\n", ""⟩
      | .check =>
          ⟨0, "", "OK: " ++ command.path ++ " (" ++ toString document.elements.length ++
            " markup regions)\n"⟩

/-- What the program prints for what was found at its path. -/
def run (command : Command) (content : FileContent) : CommandResult :=
  let unreadable (fault : FileFault) : CommandResult :=
    failed ("Error reading " ++ command.path ++ ": " ++ fault.message)
  match content with
  | .missing => failed ("Error: file not found: " ++ command.path)
  | .unreadable fault => unreadable fault
  | .bytes content =>
      match String.fromUTF8? content with
      | none => unreadable .notText
      | some source => command.runOn source

end Command
end EmbeddedMarkup
