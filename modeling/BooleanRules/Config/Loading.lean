import BooleanRules.Config.Reading

/-!
# Loading configurations

Configurations and rules come from texts and files, and evaluation comes after
loading, so the failures of the whole program are of three kinds.

* `Failure` — a failure of evaluation, of a configuration, or of the file.
* `Source`, `Config.load` — files as far as loading can tell them apart.
-/

namespace BooleanRules

/-- Why a file could not be opened. -/
inductive FileFault where
  /-- There is no such file. -/
  | notFound
  deriving DecidableEq

/-- The wording of a fault. -/
def FileFault.message : FileFault → String
  | notFound => "No such file or directory (os error 2)"

/-- A failure of loading or evaluating. -/
inductive Failure where
  /-- The evaluation failed. -/
  | eval (e : EvalError)
  /-- A text could not be understood. -/
  | config (f : ConfigFault)
  /-- A file could not be opened. -/
  | file (f : FileFault)

namespace Failure

/-- The evaluation error behind a failure, if it is one. -/
def evalError? : Failure → Option EvalError
  | eval e => some e
  | _ => none

/-- The wording of a failure, where it has one of its own. -/
def message? : Failure → Option String
  | eval e => some ("Eval error: " ++ e.message)
  | config f => f.message?.map ("Config error: " ++ ·)
  | file f => some ("IO error: " ++ f.message)

end Failure

/-- What stands at a path. -/
inductive Source where
  /-- A file with a text. -/
  | text (s : String)
  /-- A directory, which can be opened and not read. -/
  | directory
  /-- Nothing. -/
  | missing

/-- The configuration at a path. -/
def Config.load : Source → Except Failure Config
  | .text s => match Config.read s with
    | .ok c => .ok c
    | .error f => .error (.config f)
  | .directory => .error (.config .isDirectory)
  | .missing => .error (.file .notFound)

end BooleanRules
