import Polyglot.Command.Arguments
import Polyglot.Command.Formatting
import Polyglot.Run

/-!
# Conversions

Takes the inputs of a command to a target: a file, a folder with all the programs in it, or what is piped in. The
emitter goes on from one input to the next with what it has learnt.
-/
namespace Polyglot

structure Job where
  target : Target
  options : Options
  tooling : Tooling
  arguments : Arguments

/-- A workspace with an emitter at work in it. -/
structure Desk where
  room : Workspace
  page : Page
  piped : List (String × String) := []

abbrev Work := EStateM Fault Desk

instance : MonadLift Shell Work where
  monadLift act d :=
    match act d.room with
    | .ok a room => .ok a { d with room }
    | .error f room => .error f { d with room }

instance : MonadLift Emit Work where
  monadLift act d :=
    match act d.page with
    | .ok a page => .ok a { d with page }
    | .error f page => .error f { d with page }

inductive Source where
  | piped
  | file
  | folder
  deriving DecidableEq

structure Account where
  source : Source
  texts : List (String × String) := []
  /-- The programs that count as failed. They are looked for in folders only. -/
  failures : List String := []
  formatted : List Bool := []
  finished : Bool := true

/-- Whether all went well. What is piped in counts as failed in any case. -/
def Account.wentWell (a : Account) : Bool :=
  a.source != .piped && a.finished && a.failures.isEmpty && a.formatted.all id

namespace Job

variable (j : Job)

def language : Language := j.target.language

/-- The options for inputs for which no foreign tool is asked for types. -/
def ownOptions : Options := { j.options with foreignTypes := false }

/-- The line that says that a file could not be taken. Of a fault that is told in several lines, the last is shown. -/
def failureLine (file : String) (f : Fault) : String :=
  let place := match f.place with
    | some (line, col) => ":" ++ toString line ++ ":" ++ toString col
    | none => ""
  let told := match f.text with
    | some text => if text.isEmpty then f.cause.fullName else f.cause.fullName ++ ": " ++ text
    | none => f.cause.fullName
  file ++ place ++ ": " ++ (Text.splitLines told).getLast?.getD ""

def report (results : List (String × Except Fault String)) : Work Unit :=
  results.forM fun (file, r) => do
    match r with
    | .ok _ => pure ()
    | .error f => Shell.say (failureLine file f)

/-- The texts for some programs, and the files of those that could be taken. -/
def convert (o : Options) (files : List (String × String)) : Work (List String × List String) := do
  let results ← (Run.all j.target o true files : Emit _)
  report results
  match Run.texts (files.map (·.1)) results with
  | .ok texts => return (texts, Run.successful results)
  | .error f => throw f

def format (file : String) : Shell Bool :=
  Formatting.format j.language j.tooling.formatter j.arguments.ignoreFormatter file

/-- The path for the text of a file, in a folder that is made if it is missing. Kotlin's formatter needs a path that
does not start at the root. -/
def outputPath (suffix outdir file : String) : Shell String := do
  let folder := Path.join outdir (Path.parent file)
  unless (← get).hasFolder folder do Shell.makeFolders folder
  let path := Path.join folder (Path.stem file ++ suffix)
  let w ← get
  return if suffix == ".kt" && Path.isAbsolute path then Path.relative (w.pathOf w.start) path else path

/-- The text for what is piped in. The same program is not converted twice. -/
def pipedText (source : String) : Work String := do
  match (← get).piped.lookup source with
  | some text => return text
  | none =>
    let (texts, _) ← j.convert j.ownOptions [("test.py", source)]
    let text := texts.headD ""
    modify fun d => { d with piped := (source, text) :: d.piped }
    return text

def convertPiped : Work Account := do
  let text ← j.pipedText (← (Shell.takeInput : Shell _))
  let formatted ← (Formatting.formatText j.language j.tooling.formatter j.arguments.ignoreFormatter : Shell _)
  if formatted then
    modify fun d => { d with room := { d.room with printed := d.room.printed ++ Text.plainBreaks text } }
  return { source := .piped, texts := [("test.py", text)], formatted := [formatted] }

/-- Converts one file. A text that says that a program could not be taken is written and formatted like any other. -/
def convertFile (source outdir : String) : Work Account := do
  let suffix := match j.arguments.suffix with
    | some s => "." ++ s
    | none => j.language.suffix
  let output ← (outputPath suffix outdir (Path.name source) : Shell _)
  let sourceAt ← (Shell.locate source : Shell _)
  let outputAt ← (Shell.locate output : Shell _)
  if sourceAt == outputAt && !j.arguments.force then
    Shell.say ("Refusing to overwrite " ++ source ++ ". Use --force to overwrite")
    return { source := .file, finished := false }
  Shell.say (source ++ " ... " ++ output)
  let text ← (Shell.read source : Shell _)
  if Path.stem source == "__init__" && text.isEmpty then
    Shell.say "Detected empty __init__; skipping"
    return { source := .file }
  -- there is no language model to ask
  if j.arguments.model then throw (.bare .missingFile)
  else
    let (texts, _) ← j.convert j.options [(source, text)]
    Shell.write output (texts.headD "")
    return { source := .file, texts := [(source, texts.headD "")], formatted := [← j.format output] }

def programsIn (w : Workspace) (source : String) : List String :=
  match w.locate source with
  | .error _ => []
  | .ok l => if !w.isFolder l then [] else
    (w.allBelow l).filterMap fun names =>
      let path := Path.ofNames "" names
      if Path.suffix path == ".py" && Path.parentName (Path.join source path) != "__pycache__" then some path else none

def manifest : String :=
  Text.lines
    ["Module \x7b", "    name: 'py2many_generated'", "    description: 'Generated by py2many'",
     "    version: '0.0.0'", "    license: 'MIT'", "    dependencies: ['pyast']", "\x7d", ""]

def writeManifest (outdir : String) : Shell Unit := do
  let path := Path.join outdir "v.mod"
  let w ← get
  unless w.hasFile path || w.hasFolder path do Shell.write path manifest

/-- Adds what a folder of texts needs, and says how many programs were taken and with what success. -/
def closeFolder (outdir : String) (taken unformatted failed : Nat) : Shell Unit := do
  if j.language == .v then writeManifest outdir
  Shell.say "\nFinished!"
  Shell.say ("Successful: " ++ toString taken)
  if unformatted != 0 then Shell.say ("Failed to reformat: " ++ toString unformatted)
  Shell.say ("Failed to convert: " ++ toString failed)
  Shell.say ""

/-- Converts all programs in a folder together. From then on, what the target lacks becomes a comment. -/
def convertFolder (source outdir : String) : Work Account := do
  let files := programsIn (← get).room source
  Shell.say ("Transpiling whole directory to " ++ outdir ++ ":")
  files.forM fun file => (Shell.makeFolders (Path.parent (Path.join outdir file)) : Shell _)
  modify fun d => { d with page := { d.page with strict := false } }
  let sources ← files.mapM fun file => do pure (file, ← (Shell.read (Path.join source file) : Shell _))
  let (texts, taken) ← j.convert j.ownOptions sources
  let outputs ← files.mapM fun file => (outputPath j.language.suffix outdir file : Shell _)
  (outputs.zip texts).forM fun (output, text) => (Shell.write output text : Shell _)
  let formatted ← ((files.zip outputs).filter fun (file, _) => taken.contains (Path.text file)).mapM fun (_, output) =>
    (j.format output : Shell _)
  let failures := files.filter fun file => !taken.contains (Path.text file)
  j.closeFolder outdir taken.length (formatted.count false) failures.length
  return { source := .folder, texts := files.zip texts, failures, formatted }

/-- Converts one input. A fault with a single file concerns that file only. -/
def convertInput (input : String) : Work Account := do
  let source := Path.text input
  let outdir := match j.arguments.outdir with
    | some outdir => Path.text outdir
    | none => Path.parent source
  if Path.name source == "-" then
    tryCatch j.convertPiped fun _ => return { source := .piped, finished := false }
  else if (← get).room.hasFile source then
    tryCatch (j.convertFile source outdir) fun _ => return { source := .file, finished := false }
  else
    let outdir := if j.arguments.outdir.isSome then outdir else Path.join outdir (Path.name source ++ "-py2many")
    j.convertFolder source outdir

def convertAll (inputs : List String) : Work (List Account) := inputs.mapM j.convertInput

end Job
end Polyglot
