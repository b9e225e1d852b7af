import ApiScaffold.Path
import ApiScaffold.Text.Blank
import ApiScaffold.Text.Quoted

/-! External programs: how they are started, how they answer and how they fail. -/
namespace ApiScaffold

structure SystemError where
  number : Int
  reason : String
  subject : Option String
  deriving DecidableEq, Repr

def SystemError.message (e : SystemError) : String :=
  match e.subject with
  | none => s!"[Errno {e.number}] {e.reason}"
  | some subject => s!"[Errno {e.number}] {e.reason}: {Text.quoted subject}"

namespace Program

/-- A start of a program: the command, the spelling of the directory it runs in and whether its
output is caught. -/
structure Invocation where
  command : List String
  directory : String
  captured : Bool
  deriving DecidableEq, Repr

def Invocation.hasNul (i : Invocation) : Bool :=
  (i.directory :: i.command).any fun word => '\x00' ∈ word.toList

inductive Outcome where
  | exited (status : Int) (output errors : String)
  | notStarted (error : SystemError)
  deriving DecidableEq, Repr

/-- What a program does: the files that it writes, then its end. -/
structure Response where
  writes : List (Path × ByteArray)
  outcome : Outcome

/-- The answer of a program that does nothing and succeeds. -/
def Response.quiet : Response :=
  ⟨[], .exited 0 "" ""⟩

/-- An invocation that failed: with an exit status, or before the program ran. -/
structure Failure where
  command : List String
  status : Option Int
  errors : String
  reason : String
  deriving DecidableEq, Repr

/-- The reason given where none is known. -/
def Failure.defaultReason : String :=
  "program not found"

/-- The command and its end; what the program wrote about errors follows on lines of its own. -/
def Failure.message (f : Failure) : String :=
  let command := " ".intercalate f.command
  let ending :=
    match f.status with
    | none => f.reason
    | some status => s!"exited with status {status}"
  let errors := if f.errors = "" then "" else "\n" ++ String.ofList (Text.strip f.errors.toList)
  s!"{command}: {ending}{errors}"

end Program
end ApiScaffold
