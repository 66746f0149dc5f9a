import Polyglot.Emit.Target
import Polyglot.Emit.TypeFirst
import Polyglot.Lowering.Numbers

/-!
# Dart

Variables that never change are final, and an item that is looked up has to be there.
-/
namespace Polyglot.Dart

open Session Emit Dialect Plugins

def types : List (String × String) :=
  [("bool", "bool"), ("int", "int"), ("float", "double"), ("bytes", "Uint8List"), ("str", "String")] ++
    fixedWidths ["int", "int", "int", "int", "int", "int", "int", "int"]

def containers : List (String × String) :=
  [("List", "List"), ("Dict", "Map"), ("Set", "Set"), ("Optional", "Nothing")]

def style : TypeStyle := TypeStyle.combining (.text "var") TypeStyle.angled

def install : Analysis Unit := Target.installMaps types containers

/-! ### Known functions -/

def range : Plugin := fun n vargs => do
  let (start, stop, step) ← TypeFirst.rangeParts n vargs
  return some ("([for(var i = " ++ start ++ "; i < " ++ stop ++ "; i += " ++ step ++ ") i])")

def printLine : Plugin := fun n vargs => do
  using_ "package:sprintf/sprintf.dart"
  return some ("print(sprintf(\"" ++ TypeFirst.places n ++ "\", [" ++ (← join ", " vargs) ++ "]))")

def minMax (name : String) : Plugin := fun _ vargs => do
  using_ "dart:math"
  return some (name ++ "(" ++ (← join ", " vargs) ++ ")")

def plugins : Plugins := TypeFirst.plugins minMax range printLine ".toInt()" ".floor()" ".toDouble()" "dart:io"

/-! ### Rules -/

def dialect (visit : Visit) : Dialect := TypeFirst.dialect visit style install (Text.replaceAll · "." "::")

variable (visit : Visit)

def assignOne (n target value : Node) : Emit (Option String) := do
  let d := dialect visit
  let scopes ← Scope.chainOf n
  let kw := if ← Scope.isMutable target.ident? scopes then "var" else "final"
  match target.shape with
  | .tuple es _ =>
    using_ "package:tuple/tuple.dart"
    TypeFirst.assignParts d es value
      (fun tmp v => kw ++ " " ++ tmp ++ " = Tuple" ++ toString es.length ++ "<int, int>" ++ v ++ ";")
      (fun tmp i => tmp ++ ".item" ++ toString (i + 1))
  | _ =>
    let outer ← Scope.find (← Scope.outer scopes) target.ident?
    TypeFirst.assignPlain d n target value (if outer.isSome then "" else kw) outer

def member (n value : Node) (attr : String) : Emit (Option String) := do
  let v ← visit value
  if v == some "sys" && attr == "argv" then
    using_ "dart:io"
    return some "(new List<String>.from([Platform.executable])..addAll(argv))"
  else
    let grows ← Tracing.isList value
    TypeFirst.member n v (if grows && attr == "append" then "add" else attr)

def comparison (n left : Node) (op : CmpOp) (right : Node) : Emit (Option String) :=
  TypeFirst.comparison (dialect visit) n left op right
    (fun l r _ => return r ++ ".contains(" ++ l ++ ")")
    (fun test => return "!(" ++ (← test) ++ ")")
    (fun l r => do
      using_ "package:collection/collection.dart"
      return "DeepCollectionEquality().equals(" ++ l ++ ", " ++ r ++ ")")

def enumClass (n : Node) (c : Class Node) (kind : EnumKind) : Emit (Option String) := do
  let fields := (← classValues visit n).map fun (k, v) => if v == "auto()" then k else k ++ "(" ++ v ++ ")"
  let private_ (type : String) := "const " ++ c.name ++ "(this.__private);\nfinal " ++ type ++ " __private;"
  let constructor := match kind with
    | .number => "\n"
    | .text => private_ "String"
    | .flag => private_ "int"
  return some ("enum " ++ c.name ++ " \x7b\n" ++ ",\n".intercalate fields ++ ";\n" ++ constructor ++ "\x7d\n\n")

def classDef (n : Node) : Emit (Option String) := do
  let d := dialect visit
  let (c, declarations) ← Members.declare d n
  match enumKind? c.bases with
  | some kind => enumClass visit n c kind
  | none =>
    let names := declarations.map (·.1)
    let fields := ((fieldTypes (declarations.map (·.2))).zip names).map fun (t, name) => t ++ " " ++ name ++ ";"
    Members.ownMethods c
    let body ← d.visitAll c.body
    let constructor := if (← factsOf n.id).isDataclass == some true then
        [some (c.name ++ "(" ++ Text.commas (names.map ("this." ++ ·)) ++ ") \x7b\x7d")]
      else []
    return some ("class " ++ c.name ++ " \x7b\n" ++ Text.lines fields ++ "\n\n " ++
      (← join "\n" (constructor ++ body)) ++ "\n\x7d\n")

def comprehension (elt : Node) (generators : List Node) : Emit (Option String) :=
  (dialect visit).collected elt generators (fun iter => do
      let it ← present (← visit iter)
      return if Text.endsWith it "keys()" then it else it ++ ".iter()")
    (fun t e => ".map(|" ++ t ++ "| " ++ e ++ ").collect::<Vec<_>>()")

def step (n : Node) : Emit (Option String) := do
  let d := TypeFirst.assigning (dialect visit) (assignOne visit)
  match n.shape with
  | .functionDef f => TypeFirst.functionDef d n f "" "<" ">"
  | .attribute value attr _ => member visit n value attr
  | .call func args kwds => TypeFirst.call d plugins n func args kwds
  | .forLoop l =>
    let t ← d.say l.target
    let it ← d.say l.iter
    d.enclosed ("for (final " ++ t ++ " in " ++ it ++ ") \x7b") l.body
  | .compare left (op :: _) (right :: _) => comparison visit n left op right
  | .cond test body orelse =>
    let declared := (← sharedVars n).map fun name => "var " ++ shown name ++ ";"
    return some (Text.lines declared ++ "\n\n" ++ (← require (← d.branch n test body orelse true)))
  | .binOp left op right => TypeFirst.binary d n left op right "~/"
  | .classDef _ => classDef visit n
  | .dict keys values =>
    return some ("\x7b" ++ Text.commas (← d.entries keys values fun k v => k ++ " : " ++ v) ++ "\x7d")
  | .subscript value index _ =>
    let v ← d.say value
    let i ← d.say index
    let facts ← factsOf n.id
    if facts.inHint then TypeFirst.hintItem v i "<" ">"
    else if facts.isTarget then return some (v ++ "[" ++ i ++ "]")
    else return some ("(" ++ v ++ "[" ++ i ++ "] ?? (throw Exception(\"key not found\")))")
  | .annAssign target _ value _ =>
    let (t, type, v) ← d.declaration n target value
    return some (type.shown ++ " " ++ shown t ++ " = " ++ shown v ++ ";")
  | .generatorExp elt gens | .listComp elt gens | .setComp elt gens => comprehension visit elt gens
  | .set es => return some ("new Set.from([" ++ (← d.commas es) ++ "])")
  | _ => TypeFirst.step d n

def emit : Visit := Target.emitter step

def target : Target where
  language := .dart
  entryParams := ["argv"]
  laterLowerings := [("DartIntegerDivRewriter", Numbers.wholeDivisions)]
  start _ := {}
  install := install
  emit := emit
  usings := Target.headedUsings "// @dart=3.4\n" "import '" "';"

end Polyglot.Dart
