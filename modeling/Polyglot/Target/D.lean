import Polyglot.Emit.Target
import Polyglot.Emit.TypeFirst
import Polyglot.Lowering.Numbers

/-!
# D

Lists grow by `~=`, and variables that never change at the top of a program are constants.
-/
namespace Polyglot.D

open Session Emit Dialect Plugins

def types : List (String × String) :=
  [("bool", "bool"), ("int", "int"), ("float", "double"), ("bytes", "Uint8List"), ("str", "string")] ++
    fixedWidths ["byte", "short", "int", "long", "ubyte", "ushort", "uint", "ulong"]

def containers : List (String × String) :=
  [("List", "[]"), ("Dict", "Map"), ("Set", "auto"), ("Optional", "Nothing")]

/-- A map is written by its values, with its keys in brackets. -/
def combine (value index : TypeTerm) : Analysis TypeTerm := do
  match value.isText "Map", index with
  | true, .value _ | true, .absent => fail .wrongSort
  | true, .text s =>
    match Text.occursIn ", " s, Text.split s "," with
    | true, k :: v :: _ => return .text (v ++ "[" ++ k ++ "]")
    | _, _ => return .text (s ++ value.shown)
  | _, _ => return .text (index.shown ++ value.shown)

def style : TypeStyle := TypeStyle.combining (.text "auto") combine

def install : Analysis Unit := Target.installMaps types containers

/-! ### Known functions -/

def range : Plugin := fun n vargs => do
  using_ "std.range : iota"
  let (start, stop, step) ← TypeFirst.rangeParts n vargs
  return some ("iota(" ++ start ++ ", " ++ stop ++ ", " ++ step ++ ")")

def printLine : Plugin := fun n vargs => do
  using_ "std"
  return some ("writeln(format(\"" ++ TypeFirst.places n ++ "\", " ++ (← join ", " vargs) ++ "))")

def minMax (name : String) : Plugin := fun _ vargs => do
  return some (name ++ "(" ++ (← join ", " vargs) ++ ")")

def plugins : Plugins :=
  TypeFirst.plugins minMax range printLine ".to!int" ".floor().to!long" ".to!double" "core.stdc.stdlib:exit"

/-! ### Rules -/

/-- Whether a target is a constant: it stands at the top and never changes. -/
def isConstant (target : Node) : Emit Bool := do
  if ← Scope.isMutable target.ident? (← Scope.chainOf target) then return false else Scope.isGlobal target

def dialect (visit : Visit) : Dialect := TypeFirst.dialect visit style install id

variable (visit : Visit)

def assignOne (n target value : Node) : Emit (Option String) := do
  let d := dialect visit
  let constant ← isConstant target
  let outer ← Scope.find (← Scope.outer (← Scope.chainOf n)) target.ident?
  let kw := if outer.isSome then "" else if constant then "const" else "auto"
  match target.shape with
  | .tuple es _ =>
    using_ "std.typecons : tuple"
    TypeFirst.assignParts d es value (fun tmp v => "auto " ++ tmp ++ " = tuple" ++ v ++ ";")
      (fun tmp i => tmp ++ "[" ++ toString i ++ "]")
  | _ =>
    TypeFirst.assignPlain d n target value kw outer fun t => do
      if t.isText "complex" then
        using_ "std.complex"
        return style.fallback
      else return t

def member (n value : Node) (attr : String) : Emit (Option String) := do
  let v ← visit value
  match v, attr with
  | some "sys", "argv" => return some "argv"
  | some "sys", "stderr" | some "sys", "stdin" | some "sys", "stdout" =>
    using_ "std.stdio"
    return some attr
  | _, _ =>
    if (← Tracing.isList value) && attr == "append" then return some (shown v ++ " ~= ")
    else TypeFirst.member n v attr

def comparison (n left : Node) (op : CmpOp) (right : Node) : Emit (Option String) :=
  TypeFirst.comparison (dialect visit) n left op right
    (fun l r container => do
      if container == some (.text "Set") then return l ++ " in " ++ r
      else
        using_ "std.algorithm"
        return r ++ ".canFind(" ++ l ++ ")")
    (fun _ => return "!(\x7b_gen_in()\x7d)")
    (fun l r => do
      using_ "std.algorithm : equal"
      return "equal(" ++ l ++ ", " ++ r ++ ")")

def enumClass (n : Node) (c : Class Node) (kind : EnumKind) : Emit (Option String) := do
  let values ← classValues visit n
  match kind with
  | .number =>
    let fields := values.map fun (k, v) => enumField k v
    return some ("enum " ++ c.name ++ " \x7b\n" ++ Text.lines fields ++ "\n\x7d\n\n")
  | _ =>
    let type := if kind == .text then "String" else "int"
    let fields := values.zipIdx.map fun ((k, v), i) =>
      let v := if v != "auto()" then v else if kind == .text then "\"" ++ k ++ "\"" else toString i
      Text.times " " 20 ++ "static final " ++ k ++ " = const " ++ c.name ++ ".define(" ++ v ++ ");"
    let pad := Text.times " " 12
    return some (Text.dedent (pad ++ "@VnumDefinition\n" ++
      pad ++ "class " ++ c.name ++ " extends Vnum<" ++ type ++ "> \x7b\n" ++ Text.lines fields ++ "\n\n" ++
      pad ++ "const " ++ c.name ++ ".define(" ++ type ++ " fromValue) : super.define(fromValue);\n" ++
      pad ++ "  factory " ++ c.name ++ "(" ++ type ++ " value) => Vnum.fromValue(value, " ++ c.name ++ ");\n" ++
      pad ++ "\x7d\n" ++ pad))

def classDef (n : Node) : Emit (Option String) := do
  let d := dialect visit
  let (c, declarations) ← Members.declare d n
  let remember : Emit Unit := modify fun p => { p with classes := insertNew c.name p.classes }
  match enumKind? c.bases with
  | some kind =>
    let text ← enumClass visit n c kind
    remember
    return text
  | none =>
    remember
    let names := declarations.map (·.1)
    let fields := ((fieldTypes (declarations.map (·.2))).zip names).map fun (t, name) => t ++ " " ++ name
    Members.ownMethods c
    let body ← d.visitAll c.body
    let constructor := if (← factsOf n.id).isDataclass == some true then
        [some ("this(" ++ Text.commas fields ++ ") \x7b" ++
          Text.lines (names.map fun a => "this." ++ a ++ " = " ++ a ++ ";") ++ "\x7d")]
      else []
    return some ("class " ++ c.name ++ " \x7b\n" ++ ";\n".intercalate fields ++ ";\n" ++ "\n\n " ++
      (← join "\n" (constructor ++ body)) ++ "\n\x7d\n")

def comprehension (elt : Node) (generators : List Node) : Emit (Option String) :=
  let d := dialect visit
  d.collected elt generators (fun iter => do
      let it ← d.say iter
      using_ "std.algorithm"
      using_ "std.array"
      return it)
    (fun t e => ".map!(" ++ t ++ " => " ++ e ++ ").array()")

def deletion (targets : List Node) : Emit (Option String) := do
  let d := dialect visit
  match targets with
  | [] => fail .outOfRange
  | t :: rest =>
    let text ← d.say t
    match t.shape, rest with
    | .subscript v i _, [] =>
      using_ "std.algorithm"
      let v ← d.say v
      return some (v ++ ".remove(" ++ (← d.say i) ++ ");")
    | _, _ =>
      using_ "core.memory"
      return some ("destroy!true(" ++ text ++ "); core.memory.GC.free(cast(void*)" ++ text ++ ");")

def step (n : Node) : Emit (Option String) := do
  let d := TypeFirst.assigning (dialect visit) (assignOne visit)
  match n.shape with
  | .functionDef f => TypeFirst.functionDef d n f "void" "(" ")"
  | .attribute value attr _ => member visit n value attr
  | .call func args kwds =>
    TypeFirst.call d plugins n func args kwds fun name => do
      return if name.any (← get).classes.contains then "new " else ""
  | .forLoop l =>
    let t ← d.say l.target
    let it ← d.say l.iter
    d.enclosed ("foreach (" ++ t ++ "; " ++ it ++ ") \x7b") l.body
  | .constant (.imaginary x) _ =>
    return some ("std.complex.complex(0, " ++ Text.replaceAll (Literal.imaginary x).shown "j" "" ++ ")")
  | .compare left (op :: _) (right :: _) => comparison visit n left op right
  | .cond test body orelse =>
    let _ ← sharedVars n
    return some ("\n\n" ++ (← require (← d.branch n test body orelse true)))
  | .binOp left op right => TypeFirst.binary d n left op right "/"
  | .classDef _ => classDef visit n
  | .dict keys values =>
    return some ("[" ++ Text.commas (← d.entries keys values fun k v => k ++ " : " ++ v) ++ "]")
  | .subscript value index _ => TypeFirst.item d n value index "[" "]"
  | .delete targets => deletion visit targets
  | .annAssign target _ value _ =>
    let (t, type, v) ← d.declaration n target value
    let constant ← isConstant target
    let type ← match constant, type with
      | true, .text s => pure ("const " ++ s)
      | true, _ => fail .wrongSort
      | false, t => pure t.shown
    return some (type ++ " " ++ shown t ++ " = " ++ shown v ++ ";")
  | .generatorExp elt gens | .listComp elt gens | .setComp elt gens => comprehension visit elt gens
  | .set es => return some ("redBlackTree([" ++ (← d.commas es) ++ "])")
  | _ => TypeFirst.step d n

def emit : Visit := Target.emitter step

def target : Target where
  language := .d
  entryParams := ["argv"]
  laterLowerings := [("DIntegerDivRewriter", Numbers.wholeDivisions)]
  start _ := {}
  install := install
  emit := emit
  usings := Target.headedUsings "// generated by py2many --dlang\n" "import " ";"

end Polyglot.D
