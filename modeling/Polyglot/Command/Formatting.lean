import Polyglot.Command.Tooling

/-!
# Formatting

Runs the formatter of a language on a file that was written. The words of the formatter may have a hole for the name
of the file; if none has, the name comes last.
-/
namespace Polyglot.Formatting

def misfit {α : Type} (c : Cause) (text : String) : Except Fault α := throw ⟨c, some text, none⟩

/-- What stands in a hole. The name of the file is all that there is to put in. -/
def holeText (file : String) (hole : List Char) : Except Fault String :=
  let field := hole.takeWhile fun c => c != ':' && c != '!'
  let name := String.ofList (field.takeWhile fun c => c != '.' && c != '[')
  if field.contains '\x7b' then misfit .badValue "unexpected '\x7b' in field name"
  else if name.isEmpty || Text.isDigits name then
    misfit .outOfRange ("Replacement index " ++ (if name.isEmpty then "0" else name) ++
      " out of range for positional args tuple")
  else if name != "filename" then misfit .missingKey (Text.quoted name)
  else if hole.length == name.length then return file
  else throw (.bare .wrongSort)

/-- Fills the holes of a word. A hole stands between braces; a brace that is written twice stands for itself. `hole`
holds what was read of a hole that is open, backwards, and how many braces are open in it. -/
def fill (file : String) (hole : Option (Nat × List Char)) : List Char → Except Fault String
  | [] =>
    match hole with
    | none => return ""
    | some (_, []) => misfit .badValue "Single '\x7b' encountered in format string"
    | some _ => misfit .badValue "expected '\x7d' before end of string"
  | c :: cs =>
    match hole with
    | some (depth, held) =>
      if c == '\x7d' then
        if depth == 0 then do
          let text ← holeText file held.reverse
          return text ++ (← fill file none cs)
        else fill file (some (depth - 1, c :: held)) cs
      else if c == '\x7b' then
        if held.isEmpty then do return "\x7b" ++ (← fill file none cs)
        else fill file (some (depth + 1, c :: held)) cs
      else fill file (some (depth, c :: held)) cs
    | none =>
      if c == '\x7b' then fill file (some (0, [])) cs
      else if c == '\x7d' then
        match cs with
        | '\x7d' :: cs => do return "\x7d" ++ (← fill file none cs)
        | _ => misfit .badValue "Single '\x7d' encountered in format string"
      else do return c.toString ++ (← fill file none cs)

def command (formatter : List String) (file : String) : Except Fault (List String) := do
  let words ← formatter.mapM fun word => fill file none word.toList
  return if words == formatter then formatter ++ [file] else words

def shown (words : List String) : String := "[" ++ Text.commas (words.map Text.quoted) ++ "]"

def shownBytes (text : String) : String := Text.quotedBytes text.toUTF8.toList

/-- Runs a formatter and says whether that went well. The code of Julia's formatter says little, so what counts is
what it printed. Kotlin's formatter needs a second run. -/
def runOn (l : Language) (formatter : List String) (file : String) : Shell Bool := do
  let words ← match command formatter file with
    | .ok words => pure words
    | .error f => throw f
  let (p, code) ← Shell.start (words.headD "")
  if code != 0 then
    let outcome := shown words ++ " (code: " ++ toString code ++ "):\n" ++ shownBytes p.errors ++ shownBytes p.output
    if l == .julia then
      Shell.say outcome
      return !Text.occursIn "ERROR: " p.errors
    else
      Shell.say ("Error: " ++ outcome)
      return false
  else if l == .kotlin then
    let (_, code) ← Shell.start (words.headD "")
    if code != 0 then Shell.say ("Error: Could not reformat: " ++ shown words)
    return code == 0
  else return true

/-- Whether a formatter is run in the folder of its file. Kotlin's cannot handle a path that leads upwards. -/
def entersFolder (l : Language) (file : String) : Bool :=
  l == .kotlin && (Path.parts file).head? == some ".."

/-- Reports that a formatter could not be run, unless that is of no interest. -/
def report (ignore : Bool) (file : String) (f : Fault) : Shell Bool := do
  unless ignore do
    Shell.say ("Error: Could not format: " ++ file)
    Shell.say ("Due to: " ++ f.cause.reportName ++ " " ++ f.text.getD "")
  return ignore

/-- Formats a file of the folder where the command works, and goes back to where it began. A fault leaves it where it
is. -/
def formatAndReturn (l : Language) (formatter : List String) (ignore : Bool) (file : String) : Shell Bool := do
  try
    let ok ← runOn l formatter file
    modify fun w => { w with here := w.start }
    return ok
  catch f => report ignore file f

def format (l : Language) (formatter : List String) (ignore : Bool) (file : String) : Shell Bool := do
  if entersFolder l file then
    try Shell.enter (Path.parent file)
    catch f => return ← report ignore file f
    formatAndReturn l formatter ignore (Path.name file)
  else
    try runOn l formatter file
    catch f => report ignore file f

/-- The name of the file that holds a text while it is formatted. -/
def scratch (l : Language) : String := "/tmp/tmpscratch" ++ l.suffix

/-- Formats a text by way of a file, and says whether that went well. Kotlin's formatter has no such way. -/
def formatText (l : Language) (formatter : List String) (ignore : Bool) : Shell Bool :=
  if l == .kotlin then
    report ignore (scratch l) ⟨.missingPart, some "'str' object has no attribute 'parts'", none⟩
  else format l formatter ignore (scratch l)

end Polyglot.Formatting
