import Polyglot.Command

/-!
# The command line

Brings the files that a command may need into a workspace, runs the command there, and writes back what it has
changed. No programs can be started from here.
-/
namespace Polyglot.Main

def locationOf (path : String) : Location :=
  (Path.names path).foldl Location.child (if Path.isAbsolute path then Location.root else [])

def pathOf (l : Location) : String :=
  match l with
  | "/" :: names => Path.ofNames "/" names
  | names => Path.ofNames "" names

/-- Brings in a file, or a folder and all that lies in it. What cannot be read as text is left out. -/
partial def load (w : Workspace) (l : Location) : IO Workspace := do
  try
    let path ← IO.FS.realPath (pathOf l)
    if ← path.isDir then
      (← path.readDir).toList.foldlM (fun w entry => load w (l.child entry.fileName)) (w.withFolder l)
    else
      let text ← IO.FS.readFile path
      return (w.withFolder l.dropLast).withFile l text
  catch _ => return w

def needed (a : Arguments) : List String :=
  a.inputs ++ a.outdir.toList ++ a.inputs.map fun input => Path.text input ++ "-py2many"

def save (before after : Workspace) : IO Unit := do
  (after.folders.filter fun l => !before.isFolder l).forM fun l => IO.FS.createDirAll (pathOf l)
  (after.files.filter fun (l, text) => before.file? l != some text).forM fun (l, text) => IO.FS.writeFile (pathOf l) text

def environment : IO Variables :=
  ["CLANG_FORMAT_STYLE", "CXX", "CXXFLAGS"].filterMapM fun name => do
    return (← IO.getEnv name).map fun value => (name, value)

/-- Runs a command, prints what it has to say, and gives the code with which it ends. -/
def perform (words : List String) : IO UInt32 := do
  let arguments := (Arguments.read words).toOption.getD {}
  let input ← if arguments.inputs.any fun i => Path.name i == "-" then (← IO.getStdin).readToEnd else pure ""
  let before ← (needed arguments).foldlM (fun w path => load w (locationOf path))
    { input, top := (← IO.currentDir).toString }
  let env ← environment
  let (code, after) ← match Command.run words env env before with
    | .ok code after => pure (if code < 0 then 255 else code.toNat, after)
    | .error f after => do
      if f.cause == .exit then pure (((f.text.getD "").toNat?).getD 1, after)
      else do
        IO.eprintln (f.cause.fullName ++ ": " ++ f.text.getD "")
        pure (1, after)
  save before after
  IO.print after.printed
  return code.toUInt32

end Polyglot.Main

def main (words : List String) : IO UInt32 := Polyglot.Main.perform words
