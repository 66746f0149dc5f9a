import Polyglot.Fault
import Polyglot.Language
import Polyglot.Text.Search

/-!
# Arguments

The words of a command line. A long option may be cut short as long as it stays the only one that starts so, and
its value may follow after an equals sign or as the next word. What is no option is an input, and so is every
option that is not known.
-/
namespace Polyglot

inductive Switch where
  | help
  | language (l : Language)
  | outdir
  | indent
  | commentUnsupported
  | lenient
  | ignoreFormatter
  | extension
  | suffix
  | bare
  | force
  | foreignTypes
  | version
  | project
  | model
  | modelName
  deriving DecidableEq

namespace Switch

def takesValue : Switch → Bool
  | .outdir | .indent | .suffix | .project | .modelName => true
  | _ => false

def table : List (String × Switch) :=
  [("-h", .help), ("--help", .help)] ++ Language.all.map (fun l => ("--" ++ l.key, .language l)) ++
  [("--outdir", .outdir), ("-i", .indent), ("--indent", .indent), ("--comment-unsupported", .commentUnsupported),
   ("--no-strict", .lenient), ("--ignore-formatter-errors", .ignoreFormatter), ("--extension", .extension),
   ("--suffix", .suffix), ("--no-prologue", .bare), ("--force", .force), ("--typpete", .foreignTypes),
   ("--version", .version), ("--project", .project), ("--llm", .model), ("--llm-model", .modelName)]

end Switch

structure Arguments where
  languages : List Language := []
  outdir : Option String := none
  indent : Option Int := none
  commentUnsupported : Bool := false
  lenient : Bool := false
  ignoreFormatter : Bool := false
  extension : Bool := false
  suffix : Option String := none
  bare : Bool := false
  force : Bool := false
  foreignTypes : Bool := false
  version : Bool := false
  model : Bool := false
  inputs : List String := []
  deriving Inhabited

namespace Arguments

/-- The end of a command that was asked for nothing else, or for something that makes no sense. -/
def leave {α : Type} (code : Nat) : Except Fault α := throw ⟨.exit, some (toString code), none⟩

inductive Word where
  | plain (text : String)
  | unknown (text : String)
  | dashes
  | option (name : String) (switch : Switch) (value : Option String)

def isNegativeNumber (text : String) : Bool :=
  match text.toList with
  | '-' :: cs =>
    match Text.cut? (String.ofList cs) "." with
    | none => Text.isDigits (String.ofList cs)
    | some (a, b) => a.toList.all Char.isDigit && Text.isDigits b
  | _ => false

def candidates (text : String) : List (String × Switch × Option String) :=
  if Text.startsWith text "--" then
    let (start, value) := match Text.cut? text "=" with
      | some (a, b) => (a, some b)
      | none => (text, none)
    Switch.table.filterMap fun (name, s) => if Text.startsWith name start then some (name, s, value) else none
  else
    Switch.table.filterMap fun (name, s) =>
      if name == Text.takeStart text 2 then some (name, s, some (Text.dropStart text 2))
      else if Text.startsWith name text then some (name, s, none) else none

def word (text : String) : Except Fault Word :=
  if !Text.startsWith text "-" || text == "-" then return .plain text
  else
    match Switch.table.lookup text with
    | some s => return .option text s none
    | none =>
      match (Text.cut? text "=").bind fun (a, b) => (Switch.table.lookup a).map fun s => (a, s, b) with
      | some (name, s, value) => return .option name s (some value)
      | none =>
        match candidates text with
        | [(name, s, value)] => return .option name s value
        | [] => return if isNegativeNumber text || text.contains ' ' then .plain text else .unknown text
        | _ => leave 2

def words : List String → Except Fault (List Word)
  | [] => return []
  | "--" :: rest => return .dashes :: rest.map .plain
  | text :: rest => do
    let w ← word text
    return w :: (← words rest)

/-- A whole number: a sign, and digits that may be grouped by underscores. -/
def readInt? (text : String) : Option Int :=
  let digits (cs : List Char) : Option Int :=
    let groups := Text.split (String.ofList cs) "_"
    if groups.all Text.isDigits then (String.join groups).toNat?.map Int.ofNat else none
  match (Text.strip text).toList with
  | '-' :: cs => (digits cs).map fun n => -n
  | '+' :: cs => digits cs
  | cs => digits cs

/-- Whether single letters that follow an option can be options in their turn. -/
def isCluster (next : Option Word) : List Char → Bool
  | [] => true
  | c :: cs =>
    match Switch.table.lookup (String.ofList ['-', c]) with
    | none => false
    | some s => if s.takesValue then !cs.isEmpty || next matches some (.plain _) else isCluster next cs

def setValue (a : Arguments) (s : Switch) (value : String) : Except Fault Arguments :=
  match s with
  | .outdir => return { a with outdir := some value }
  | .suffix => return { a with suffix := some value }
  | .indent =>
    match readInt? value with
    | some n => return { a with indent := some n }
    | none => leave 2
  | _ => return a

def setFlag (a : Arguments) (s : Switch) : Except Fault Arguments :=
  match s with
  | .help => leave 0
  | .language l => return { a with languages := l :: a.languages }
  | .commentUnsupported => return { a with commentUnsupported := true }
  | .lenient => return { a with lenient := true }
  | .ignoreFormatter => return { a with ignoreFormatter := true }
  | .extension => return { a with extension := true }
  | .bare => return { a with bare := true }
  | .force => return { a with force := true }
  | .foreignTypes => return { a with foreignTypes := true }
  | .version => return { a with version := true }
  | .model => return { a with model := true }
  | _ => return a

/-- A value that is written in the same word as its option. Two dashes are no value. -/
def setWritten (a : Arguments) (s : Switch) (value : String) : Except Fault Arguments :=
  if value == "--" then throw (.bare .badValue) else a.setValue s value

def take (a : Arguments) : List Word → Except Fault Arguments
  | [] => return a
  | .plain text :: rest | .unknown text :: rest => take { a with inputs := a.inputs ++ [text] } rest
  | .dashes :: rest => take { a with inputs := a.inputs ++ ["--"] } rest
  | .option name s value :: rest =>
    if s.takesValue then
      match value, rest with
      | some v, rest => do take (← a.setWritten s v) rest
      | none, .plain v :: rest => do take (← a.setValue s v) rest
      | none, _ => leave 2
    else
      match value with
      | none => do take (← a.setFlag s) rest
      | some v =>
        if Text.startsWith name "--" || v.isEmpty || !isCluster rest.head? v.toList then leave 2
        else do take (← a.setFlag s) rest

def read (texts : List String) : Except Fault Arguments := do ({} : Arguments).take (← words texts)

end Arguments
end Polyglot
