import Polyglot.Analysis.Marks
import Polyglot.Analysis.Mutation
import Polyglot.Analysis.Raising
import Polyglot.Analysis.Scopes
import Polyglot.Emit.Target
import Polyglot.Order

/-!
# Runs

A run takes one or more programs through a target: they are read, put in the order of their imports, and each
is analysed, lowered and emitted. Types and scopes that one program leaves behind are seen by the next.
-/
namespace Polyglot.Run

open Session Emit

def survey (others : List (String × Node)) (n : Node) : Analysis Unit := do
  Scope.declare others n
  Scope.assign n
  Marks.targets n

def explore (others : List (String × Node)) (n : Node) : Analysis Unit := do
  survey others n
  ListGrowth.collect n
  Mutation.detect n
  Marks.levels n
  Raising.detect n
  Marks.hints n

/-- The analyses that every target relies on. Says whether integers of fixed width are declared. -/
def analyse (others : List (String × Node)) (n : Node) (foreignTypes : Bool := false) : Analysis Bool := do
  explore others n
  if foreignTypes then fail .unknownName
  let fixedWidth ← Inference.infer Inference.rules n
  Marks.imports n
  return fixedWidth

def earlyLowerings (t : Target) : List Lowering :=
  [Destructuring.viaTemporaries t.language, Entry.extract t.entryParams, Texts.joinParts t.language,
   Texts.commentDocstrings, Blocks.openManaged t.language, Destructuring.ignoring t.language,
   Blocks.dropTypeHook] ++ t.lowerings.map (·.2)

def lateLowerings (t : Target) : List Lowering :=
  [Texts.printTruth t.language, Texts.searchTexts t.language, Blocks.openMade] ++
    (if t.language == .python then [] else [Blocks.elseOfLoops]) ++ t.laterLowerings.map (·.2)

def lower (ls : List Lowering) (n : Node) : Analysis Node := ls.foldlM (fun n l => Lowering.run l n) n

def prepare (t : Target) (o : Options) (others : List (String × Node)) (n : Node) : Analysis (Node × Bool) := do
  Scope.assign n
  let n ← lower (earlyLowerings t) n
  let _ ← analyse others n o.foreignTypes
  (t.analyses o).forM fun a => a n
  let n ← lower (lateLowerings t) n
  let fixedWidth ← analyse others n o.foreignTypes
  return (← refresh n, fixedWidth)

/-- The text of a program with what stands around it. -/
def assemble (t : Target) (n : Node) (fixedWidth : Bool) : Emit String := do
  let code := (← require (← t.emit n)) ++ "\n"
  let headers ← t.headers fixedWidth
  let features ← t.features
  let usings ← t.usings
  let aliases ← t.aliases
  let parts := [features, headers, usings, aliases].filter (!·.isEmpty) ++ [code]
  let parts ← if (← get).extension then pure (parts ++ [← t.extensionModule n]) else pure parts
  return Text.lines parts

def one (t : Target) (o : Options) (others : List (String × Node)) (file : String) (n : Node) : Emit String := do
  modify fun p => { p with file := some file }
  let (n, fixedWidth) ← prepare t o others n
  assemble t n fixedWidth

/-! ### Several programs -/

@[irreducible] def moduleName (path : String) : String :=
  let dotted := ".".intercalate (Path.parts path)
  match Text.cutLast? dotted "." with
  | some (a, _) => a
  | none => dotted

def writtenImports : Shape Node → List String
  | .importNames names => names.filterMap Node.ident?
  | .importFrom source _ _ => source.toList
  | _ => []

def importsOf : Nat → Node → List String
  | 0, _ => []
  | k + 1, n => writtenImports n.shape ++ (n.children.map (importsOf k)).flatten

def named (trees : List (String × Node)) : List (String × String × Node) :=
  trees.map fun tree => (moduleName tree.1, tree)

def sorterOf (trees : List (String × Node)) : Sorter :=
  let names := trees.map fun tree => moduleName tree.1
  trees.foldl (fun s tree => s.add (moduleName tree.1) ((importsOf nestingLimit tree.2).filter names.contains)) {}

/-- Puts files in the order of their imports; of two files with one name only the last is kept. -/
def inOrder (trees : List (String × Node)) : List (String × Node) :=
  (sorterOf trees).order.filterMap fun name => (named trees).reverse.lookup name

def programs (files : List (String × String)) : Emit (List (String × Node)) :=
  files.mapM fun (file, text) => do pure (Path.text file, ← (readProgram text : Analysis Node))

/-- The names that temporaries get start anew. -/
def restart (p : Page) : Page :=
  { p with session := { p.session with
    temporaries := p.session.temporaries.filter fun (k, _) => k != "destructuring" && k != "managed" } }

/-- What becomes of one file. With `suppress`, a fault concerns its file only. -/
def attempt (t : Target) (o : Options) (suppress : Bool) (others : List (String × Node)) (tree : String × Node) :
    Emit (String × Except Fault String) :=
  tryCatch (do return (tree.1, .ok (← one t o others tree.1 tree.2))) fun f =>
    if suppress then return (tree.1, .error f) else throw f

/-- The programs of a run by name, as they see each other. A program that is alone sees none. -/
def neighbours (ordered : List (String × Node)) : List (String × Node) :=
  if ordered.length == 1 then [] else (ordered.map fun (file, n) => (Path.stem file, n)).reverse

def all (t : Target) (o : Options) (suppress : Bool) (files : List (String × String)) :
    Emit (List (String × Except Fault String)) := do
  modify restart
  let ordered := inOrder (← programs files)
  ordered.mapM (attempt t o suppress (neighbours ordered))

def failureText : String := "FAILED"

def textOf (results : List (String × Except Fault String)) (file : String) : Except Fault String :=
  match results.reverse.lookup (Path.text file) with
  | some (.ok text) => return text
  | some (.error _) => return failureText
  | none => throw (.bare .missingKey)

def texts (files : List String) (results : List (String × Except Fault String)) : Except Fault (List String) :=
  files.mapM (textOf results)

def successful (results : List (String × Except Fault String)) : List String :=
  results.filterMap fun (file, r) => if r.isOk then some file else none

end Polyglot.Run
