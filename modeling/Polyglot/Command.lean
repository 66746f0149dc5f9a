import Polyglot.Command.Conversion
import Polyglot.Target.V.Layout
import Polyglot.Targets

/-!
# The command

Reads the words of a command line, chooses a target and converts the inputs. The result is the code with which the
command ends: zero exactly if every input went well.
-/
namespace Polyglot.Command

def version : String := "0.8"

/-- The target that is asked for: of several the one that is offered first, and C++ of none. -/
def chosen (a : Arguments) : Target :=
  (Targets.all.find? fun t => a.languages.contains t.language).getD Cpp.target

def options (a : Arguments) : Options :=
  { extension := a.extension, bare := a.bare, indent := a.indent, foreignTypes := a.foreignTypes }

def desk (j : Job) (room : Workspace) : Desk :=
  let strict := !(j.arguments.commentUnsupported || j.arguments.lenient)
  { room, page := Targets.page j.target j.options strict }

def perform (j : Job) : Shell Int := fun room =>
  match j.convertAll j.arguments.inputs (desk j room) with
  | .ok accounts d => .ok (if accounts.all (·.wentWell) then 0 else 1) d.room
  | .error f d => .error f d.room

/-- The words of a command. Before they are read, the tooling of every target is set up in the environment that all
commands share. -/
def arguments (words : List String) (ambient : Variables) : Shell Arguments := do
  Language.all.forM fun l => do
    let _ ← Tooling.of l (some 4) ambient
  match Arguments.read words with
  | .ok a => pure a
  | .error f => throw f

/-- What a command is to do. The tooling of the chosen target is set up in the environment of this command. -/
def job (a : Arguments) (env : Variables) : Shell Job := do
  let target := chosen a
  let tooling ← Tooling.of target.language a.indent env
  if a.commentUnsupported then Shell.say "Wrapping unimplemented in comments"
  if a.lenient then Shell.say "Warning: some code may be experimental and incorrect"
  return { target, options := options a, tooling, arguments := a }

def run (words : List String) (env : Variables) (ambient : Variables := []) : Shell Int := do
  let a ← arguments words ambient
  if a.version then
    Shell.say version
    return 0
  if a.extension && !a.languages.contains .rust then
    Shell.say "extension supported only with rust via pyo3"
    return -1
  perform (← job a env)

def reformat (words : List String) : Shell Int := do
  match words with
  | [] =>
    Shell.say "Usage: python vformat.py <file.v>"
    return 1
  | path :: _ =>
    let w ← get
    if w.hasFile path || w.hasFolder path then
      let text ← Shell.read path
      Shell.write path (V.Layout.format text)
      Shell.say ("Formatted " ++ path)
      return 0
    else
      Shell.say ("Error: File " ++ path ++ " not found")
      return 1

end Polyglot.Command
