import Polyglot.Emit.Target
import Polyglot.Lowering.Hoisting
import Polyglot.Lowering.Numbers

/-!
# V: types and lowerings

Types that V has no name for are `Any`. Comprehensions become chains of `filter` and `map`, in which the element is
called `it`.
-/
namespace Polyglot.V

open Session Emit

def types : List (String × String) :=
  [("int", "int"), ("float", "f64"), ("bytes", "[]u8"), ("str", "string"), ("bool", "bool"), ("list", "[]Any")] ++
    fixedWidths ["i8", "i16", "int", "i64", "u8", "u16", "u32", "u64"]

def containers : List (String × String) :=
  [("List", "[]"), ("list", "[]"), ("Dict", "map"), ("dict", "map"), ("Set", "set"), ("set", "set"),
   ("Optional", "?")]

def ranks : List (String × Nat) :=
  [("bool", 0), ("i8", 1), ("byte", 2), ("u8", 2), ("i16", 3), ("u16", 4), ("int", 5), ("u32", 6), ("i64", 7),
   ("u64", 8), ("f32", 9), ("f64", 10)]

def keywords : List String :=
  ["as", "asm", "assert", "atomic", "break", "const", "continue", "defer", "else", "enum", "false", "for", "fn",
   "__global", "go", "goto", "if", "import", "in", "interface", "is", "match", "module", "mut", "shared", "lock",
   "rlock", "none", "return", "select", "sizeof", "isreftype", "_likely_", "_unlikely_", "__offsetof", "struct",
   "true", "type", "typeof", "dump", "or", "union", "pub", "static", "unsafe"]

def symbols : Symbols :=
  { Symbols.common with
    comparison := fun op => match op with
      | .notIn => some "!in"
      | op => Symbols.common.comparison op }

/-- A map whose keys can be anything has texts as keys. -/
def settle (value index : TypeTerm) : TypeTerm :=
  match index with
  | .many (k :: v :: rest) => if value.isText "map" && k.isText "Any" then .many (.text "string" :: v :: rest) else index
  | _ => index

def combine (value index : TypeTerm) : Analysis TypeTerm := do
  if value.isText "map" then
    match settle value index with
    | .many (k :: v :: _) => return .text ("map[" ++ k.shown ++ "]" ++ v.shown)
    | _ => return .text "map[string]Any"
  else
    match index with
    | .many _ => return .text "Any"
    | _ => return .text (value.shown ++ index.shown)

def adjust : TypeTerm → TypeTerm
  | .text s =>
    if s == "T" || s == "E" then .text "Any"
    else if s == "Error" then .text "ResultError"
    else if Text.occursIn "." s || Text.startsWith s "Union[" then .text "Any"
    else .text s
  | t => t

def style : TypeStyle :=
  { TypeStyle.common with
    fallback := .text ""
    combine := combine
    settle := settle
    container := fun _ value index => combine value index
    adjust := adjust }

def native : NativeTypes := .plain types ranks

def isWidth (t : String) : Bool := (ranks.lookup t).isSome

def install : Analysis Unit := Target.installMaps types containers

/-! ### Inference -/

def numberNames (body : Node) : Analysis (List String) := do
  let nodes ← Pass.nodesOf body
  return (nodes.map fun n => match n.shape with
    | .binOp l _ r => pair l r ++ pair r l
    | _ => []).flatten
where
  pair (x y : Node) : List String := if x.isName && Dialect.isNumber y then x.ident?.toList else []

def functionParts (n : Node) : Analysis (Option (List Node × Node)) := do
  match (← factsOf n.id).callableType with
  | none => return none
  | some id =>
    match (← nodeOf id).shape with
    | .subscript _ index _ =>
      match (← current index).shape with
      | .tuple [args, result] _ =>
        let args ← current args
        let params := match args.shape with
          | .list es _ => es
          | _ => []
        return some (← params.mapM current, ← current result)
      | _ => return none
    | _ => return none

def setParamType (arg : Node) (type : TypeTerm) : Analysis Unit := do
  NativeTypes.setType arg (if type == .absent then none else some type.shown)
  match (← current arg).shape with
  | .arg id none =>
    let t ← typeName type.shown
    let _ ← edit arg (.arg id (some t))
  | _ => pure ()

def typeLambda : Inference.Rule := fun self n => do
  match n.shape with
  | .lambda args body =>
    let numeric ← numberNames body
    let generic (e : Node) : Analysis TypeTerm := TypeStyle.genericOf (.text "auto") (some e)
    let (params, result) ← match ← functionParts n with
      | none => pure ([], .absent)
      | some (ps, r) => pure (← ps.mapM generic, ← generic r)
    match (← current args).shape with
    | .parameters p =>
      for (a, i) in p.args.zipIdx do
        match params[i]? with
        | some t => setParamType a t
        | none => if (a.ident?.any numeric.contains) then setParamType a (.text "int")
    | _ => fail .missingPart
    Pass.below self n
    let body ← current body
    let own ← native.typeOf body
    let unknown := own.isNone || own == some "" || own == some "Any"
    let type ← if unknown && (body.shape matches .binOp ..) && !numeric.isEmpty then do
        NativeTypes.setType body (some "int")
        pure (some "int")
      else pure own
    let type := if (type.getD "").isEmpty && result.given then some result.shown else type
    if !(type.getD "").isEmpty then NativeTypes.setType n type
    if type == some "Any" then note n.id ({ · with needsAnyToString := true })
  | _ => pure ()

def typeCall : Inference.Rule := fun self n => do
  Pass.below self n
  if (← native.typeOf n) == some "Any" then note n.id ({ · with needsAnyToString := true })

def typeDeclaration : Inference.Rule := fun self n => do
  match n.shape with
  | .annAssign _ ann (some v) _ =>
    if (← current v).shape matches .lambda .. then note v.id ({ · with callableType := some ann.id })
  | _ => pure ()
  Inference.annAssignRule self n

def infer (n : Node) : Analysis Unit := do
  let rules := { native.rules with lambda := typeLambda, call := typeCall, annAssign := typeDeclaration }
  let _ ← Inference.infer rules n

/-! ### Lowering -/

def valuesByKeys : Lowering := fun self n => do
  match n.shape with
  | .call func _ _ =>
    match (← current func).shape with
    | .attribute map "values" _ =>
      match (← Lowering.statementAt "a.keys().map(a[it])" n).shape with
      | .exprStmt call =>
        match call.shape with
        | .call ⟨_, _, _, .attribute ⟨_, _, _, .call keys _ _⟩ _ _⟩ [item] _ =>
          match keys.shape, item.shape with
          | .attribute _ attr u, .subscript _ index u' =>
            let _ ← edit keys (.attribute map attr u)
            let _ ← edit item (.subscript map index u')
            return [← refresh call]
          | _, _ => fail .missingPart
        | _ => fail .missingPart
      | _ => fail .missingPart
    | _ => return [n]
  | _ => Lowering.through self n

/-- A link of a chain: a method that is applied to a list. -/
def link (method : String) (list arg at_ : Node) : Analysis Node := do
  match (← Lowering.statementAt ("placeholder." ++ method ++ "(placeholder)") at_).shape with
  | .exprStmt call =>
    match call.shape with
    | .call func _ kwds =>
      match func.shape with
      | .attribute _ attr u =>
        let func ← edit func (.attribute list attr u)
        edit call (.call func [arg] kwds)
      | _ => fail .missingPart
    | _ => fail .missingPart
  | _ => fail .missingPart

def replaceName (name text : String) : Analysis Unit :=
  modify fun s => { s with replaced := (name, text) :: s.replaced.filter (·.1 != name) }

/-- What the variables of a comprehension are called in a chain. -/
def bindElement (target : Node) : Analysis Unit := do
  match target.shape with
  | .name id _ => replaceName id "it"
  | .tuple es _ =>
    for (e, i) in es.zipIdx do
      match (← current e).shape with
      | .name id _ => replaceName id ("it[" ++ toString i ++ "]")
      | _ => fail .brokenPromise
  | _ => fail .missingPart

def chain (n elt : Node) (generators : List Node) : Analysis Node := do
  let result ← generators.foldlM (fun (acc : Option Node) g => do
    match (← current g).shape with
    | .comprehension target iter ifs _ =>
      bindElement (← current target)
      let list ← ifs.foldlM (fun list test => link "filter" list test n) iter
      let list ← link "map" list elt n
      match acc with
      | none => return some list
      | some first =>
        match (← current first).shape with
        | .call func _ kwds => return some (← edit first (.call func [list] kwds))
        | _ => fail .missingPart
    | _ => fail .missingPart) none
  match result with
  | some n => return n
  | none => fail .missingPart

def chainComprehensions : Lowering := fun self n => do
  match n.shape with
  | .name id _ =>
    match (← get).replaced.lookup id with
    | none => return [n]
    | some text =>
      match (← Lowering.statementAt text n).shape with
      | .exprStmt v => return [v]
      | _ => fail .missingPart
  | .generatorExp elt gens | .listComp elt gens | .setComp elt gens =>
    let new ← chain n elt gens
    let _ ← self (← current new)
    modify ({ · with replaced := [] })
    return [← current new]
  | _ => Lowering.through self n

end Polyglot.V
