import Polyglot.Emit.Offside
import Polyglot.Emit.Target

/-!
# Mojo

Parameters that a function returns are owned by it and handed on.
-/
namespace Polyglot.Mojo

open Session Emit Dialect Plugins

def types : List (String × String) :=
  [("int", "Int"), ("float", "Float64"), ("bytes", "SIMD[DType.uint8]"), ("bytearray", "SIMD[DType.uint8]"),
   ("str", "String"), ("bool", "Bool")] ++
    fixedWidths ["Int8", "Int16", "Int32", "Int64", "UInt8", "UInt16", "UInt32", "UInt64"]

def containers : List (String × String) :=
  [("List", "List"), ("Dict", "Dict"), ("Set", "Set"), ("Optional", "Optional")]

def keywords : List String :=
  Offside.sourceKeywords ++ ["fn", "var", "alias", "struct", "raises", "owned", "borrowed", "inout", "ref"]

def style : TypeStyle := TypeStyle.combining (.text "var") TypeStyle.squared

def native : NativeTypes := NativeTypes.plain types Offside.ranks

def install : Analysis Unit := Target.installMaps types containers

def plugins : Plugins where
  byName := [("print", fun _ vargs => do return some ("print(" ++ (← join ", " vargs) ++ ")"))]
  small := Offside.conversions "False" "Float64"

def dialect (visit : Visit) : Dialect := Offside.dialect visit style install

variable (visit : Visit)

def functionDef (n : Node) (f : Function Node) : Emit (Option String) := do
  let d := dialect visit
  let body ← Offside.inner d n f.body
  let args ← Offside.signature d n f
  let nodes := match f.args.shape with
    | .parameters p => p.args
    | _ => []
  let args ← (args.zip nodes).mapM fun ((name, type), a) => do
    let word ← if f.name == "__init__" && name == "self" then pure "out "
      else do pure (if (← factsOf a.id).owned then "owned " else "")
    pure (word ++ name ++ ": " ++ type)
  let result ← if ← Tracing.isVoid n then pure "" else Offside.resultType d n f
  let raises := if (← factsOf n.id).raises then " raises" else ""
  let arrow := if result.isEmpty then "" else " -> " ++ result
  return some (← Offside.indent (← Offside.levelOf n)
    ("fn " ++ f.name ++ "(" ++ Text.commas args ++ ")" ++ raises ++ arrow ++ ":\n" ++ Text.lines body ++ "\n"))

def step (n : Node) : Emit (Option String) := do
  let d := dialect visit
  match n.shape with
  | .pass => return some "pass"
  | .constant (.bool b) _ => return some (if b then "True" else "False")
  | .functionDef f => functionDef visit n f
  | .ret (some v) =>
    let moved := if (← factsOf n.id).transfer then "^" else ""
    return some (← Offside.returnValue d native n v moved)
  | .lambda .. => return some "fn lambda(): pass"
  | .attribute value attr _ => Offside.member d value attr
  | .call func args kwds => Offside.call d plugins n func args kwds "="
  | .classDef _ => Offside.classDef d n (Offside.structure_ d n)
  | .list es _ => return some ("List(" ++ (← d.commas es) ++ ")")
  | .dict keys values =>
    return some ("\x7b" ++ Text.commas (← d.entries keys values fun k v => k ++ ": " ++ v) ++ "\x7d")
  | .assert test _ =>
    using_ "testing"
    return some ("testing.assert_true(" ++ (← d.say test) ++ ")")
  | .annAssign target _ value _ =>
    let (t, type, v) ← d.declaration n target value
    return some ("var " ++ shown t ++ (if type == style.fallback then "" else ": " ++ type.shown) ++ " = " ++ shown v)
  | .assign targets value =>
    Offside.assignments n targets fun target =>
      Offside.assignOne d n target value "" (return fun t v => "var " ++ t ++ " = " ++ v)
  | _ => Offside.colonStep d native keywords "**" n

def emit : Visit := Target.emitter step

def target : Target where
  language := .mojo
  lowerings := [("MojoInferMoveSemantics", Offside.moves)]
  analyses _ := [native.infer]
  laterLowerings := [("MojoImplicitConstructor", Offside.implicitConstructor)]
  start _ := { indentUnit := 2 }
  install := install
  emit := emit
  usings := Target.usingLines "import "

end Polyglot.Mojo
