import Polyglot.Analysis.Walk
import Polyglot.Typing.Style

/-!
# Inferring types

Types are annotations: names and container types as a program could have written them. A pass over the tree
gives every expression whose type it can tell an annotation. An assignment hands the type of its value to its
targets, a call has the declared result of its function, and an operator the wider of its operands' types.

A target refines single rules of the pass, so they are kept in a record.
-/
namespace Polyglot.Inference

open Session

/-! ### Integers of fixed width -/

/-- The classes of fixed width, narrow to wide and signed first, with the bits they can hold. -/
def widths : List (String × Nat) :=
  [("bool", 1), ("ctypes.c_byte", 7), ("ctypes.c_short", 15), ("ctypes.c_int", 31), ("ctypes.c_long", 63),
   ("ctypes.c_ubyte", 8), ("ctypes.c_ushort", 16), ("ctypes.c_uint", 32), ("ctypes.c_ulong", 64)]

/-- Names of these classes; the first ones stand in the order of `widths`. -/
def widthNames : List String :=
  ["bool", "c_int8", "c_int16", "c_int32", "c_int64", "c_uint8", "c_uint16", "c_uint32", "c_uint64", "i8",
   "i16", "i32", "i64", "isize", "ilong", "u8", "u16", "u32", "u64", "usize", "ulong"]

def bitsOf (key : String) : Option Nat := if key == "int" then some 31 else widths.lookup key

def bitLength (n : Int) : Nat := if n == 0 then 0 else n.natAbs.log2 + 1

/-- Whether a value of class `source` fits a target of class `target`; of a literal the bits are counted. -/
def fits (target source : Option String) (value : Option Node) : Bool :=
  match target.bind (fun k => widths.lookup k), source.bind bitsOf with
  | some wide, some bits =>
    let counted := match value.map (·.shape) with
      | some (.constant (.int n) _) => bitLength n
      | some (.constant (.bool b) _) => if b then 1 else 0
      | _ => 0
    (if counted == 0 then bits else counted) ≤ wide
  | _, _ => true

/-- The place of a type among those of fixed width, from one; other types have place zero. -/
def rankOf (name : String) : Nat :=
  match (Known.resolve [] name).bind fun k => (widths.map (·.1)).findIdx? (· == k) with
  | some i => i + 1
  | none => 0

/-- The wider of two types; sums and products need one step more. -/
def widened (op : BinOp) (left right : String) : String :=
  let l := rankOf left
  let r := rankOf right
  let m := max l r
  if (op == .add || op == .mult) && m != 0 && m != 5 && m != 9 then widthNames.getD m right
  else if r < l then left else right

/-! ### The type of an expression -/

def primitiveName : Literal → Option String
  | .nothing => none
  | .ellipsis => some "..."
  | .bool _ => some "bool"
  | .int _ => some "int"
  | .float _ => some "float"
  | .imaginary _ => some "complex"
  | .str _ => some "str"
  | .bytes _ => some "bytes"

def primitive (v : Literal) : Analysis (Option Node) := (primitiveName v).mapM typeName

def primitives : List String := ["int", "float", "str", "bool", "bytes", "complex", "..."]

def typeStep (self : Option Node → Analysis (Option Node)) : Option Node → Analysis (Option Node)
  | none => return none
  | some n => do
    match n.shape with
    | .name id _ =>
      match ← Scope.chain? n with
      | none => return none
      | some scopes =>
        match ← Scope.find scopes (some id) with
        | some d => if d.id == n.id then hintOf n else self (some d)
        | none => hintOf n
    | .constant v _ => primitive v
    | _ => hintOf n

/-- The type of an expression as far as it is known; a name has the type of its definition. -/
def typeOf? (n : Option Node) : Analysis (Option Node) :=
  tie typeStep (fun _ => fail .tooDeep) nestingLimit n

def typeOf (n : Node) : Analysis (Option Node) := do typeOf? (some (← current n))

def typeNameOf (n : Node) : Analysis (Option String) := return (← typeOf n).bind Node.ident?

def isReference (n : Node) : Analysis Bool := do
  return ((← hintOf n).map Node.isSubscript).getD false

def annotateWith (n : Node) (type : String) : Analysis Unit := do
  let t ← readFirst type
  let _ ← lineOf n
  let _ ← colOf n
  annotate n t

def writeType (t : Node) : Analysis String := do
  match Write.text (← refresh t) with
  | .ok s => return s
  | .error f => throw f

def lifetimeOf (t : Option Node) : Analysis (Option Lifetime) := do
  match t with
  | some t => return (← factsOf t.id).lifetime
  | none => return none

def setLifetime (t : Node) (l : Lifetime) : Analysis Unit := note t.id ({ · with lifetime := some l })

/-! ### The pass -/

abbrev Rule := (Node → Analysis Unit) → Node → Analysis Unit

structure Rules where
  binOp : Rule
  call : Rule
  ret : Rule
  functionDef : Rule
  lambda : Rule
  annAssign : Rule

def definitionOf (n operand : Node) : Analysis (Option Node) := do
  match operand.shape with
  | .name id _ => Scope.find (← Scope.chainOf n) (some id)
  | _ => return some operand

def operandType (n operand : Node) : Analysis (Option Node) := do
  match ← definitionOf n operand with
  | some d => hintOf d
  | none => return none

def opName : BinOp → String
  | .add => "Add" | .sub => "Sub" | .mult => "Mult" | .matMult => "MatMult" | .div => "Div" | .mod => "Mod"
  | .pow => "Pow" | .lShift => "LShift" | .rShift => "RShift" | .bitOr => "BitOr" | .bitXor => "BitXor"
  | .bitAnd => "BitAnd" | .floorDiv => "FloorDiv"

def joinOperands (n : Node) (op : BinOp) (left right : Node) : Analysis Unit := do
  let l := left.ident?
  let r := right.ident?
  let named (s : String) : Analysis Unit := do annotate n (← typeName s)
  if l == r && l == some "int" then
    if op != .div || (← factsOf n.id).integerDivision then annotate n left else named "float"
  else
    let asFixed (x : Option String) := if x == some "int" then some "c_int32" else x
    let l := asFixed l
    let r := asFixed r
    let isFixed (x : Option String) := x.any widthNames.contains
    if isFixed l && isFixed r then named (widened op (l.getD "") (r.getD ""))
    else if l == r then annotate n left
    else
      let asInt (x : Option String) := if isFixed x then some "int" else x
      let l := asInt l
      let r := asInt r
      let pair (a b : String) := (l == some a && r == some b) || (l == some b && r == some a)
      if pair "int" "float" then named "float"
      else if pair "int" "complex" || pair "float" "complex" then named "complex"
      else if op == .mult && (pair "bytes" "int" || pair "str" "int" || pair "tuple" "int" || pair "List" "int") then
        named (l.getD "")
      else
        match l with
        | none => pure ()
        | some id =>
          if (id == "str" && op == .mod) || (id == "List" && op == .add) then pure ()
          else
            let text := id ++ " <class 'ast." ++ opName op ++ "'> " ++ r.getD "None"
            throwAt .operator (some text) n

def binOpRule : Rule := fun self n => do
  Pass.below self n
  match n.shape with
  | .binOp l op r =>
    let left ← operandType n (← current l)
    let right ← operandType n (← current r)
    match left, right with
    | none, none => pure ()
    | none, some t | some t, none => annotate n t
    | some a, some b => joinOperands n op a b
  | _ => pure ()

/-- A call has the type that is declared for the result of its function. -/
def callType (n : Node) : Analysis Unit := do
  match n.shape with
  | .call func args _ =>
    match (← current func).ident? with
    | none => pure ()
    | some name =>
      let name := if Text.startsWith name "self." then Text.dropStart name 5 else name
      match ← Scope.find (← Scope.chainOf n) (some name) with
      | some ⟨_, _, _, .classDef c⟩ => annotateWith n c.name
      | some ⟨_, _, _, .functionDef f⟩ => f.returns.forM fun r => do annotate n (← current r)
      | _ =>
        if name == "max" || name == "min" then
          match args.head? with
          | none => fail .outOfRange
          | some a => (← typeOf a).forM (annotate n)
        else if primitives.contains name then annotate n (← typeName name)
  | _ => pure ()

def callRule : Rule := fun self n => do
  callType n
  Pass.below self n

/-- Tells a function that it returns a type, which has an annotation with a lifetime: if no type is declared, this one
is; if another one is declared by name, both are joined. -/
def joinResult (ann : Node) (new : String) (id : NodeId) : Analysis Unit := do
  let scope ← nodeOf id
  match scope.shape with
  | .functionDef f =>
    match ← f.returns.mapM current with
    | none =>
      let r ← typeName new
      (← lifetimeOf (some ann)).forM (setLifetime r)
      let _ ← edit scope (.functionDef { f with returns := some r })
    | some r =>
      match r.shape with
      | .name old u =>
        if old != new then
          let _ ← edit r (.name ("Union[" ++ old ++ "," ++ new ++ "]") u)
      | _ => pure ()
  | _ => pure ()

/-- A return statement tells the type of its value to every function around it. -/
def tellResult (n : Node) : Analysis Unit := do
  match n.shape with
  | .ret (some v) =>
    match ← hintOf v with
    | none => pure ()
    | some ann =>
      match ann.ident? with
      | none => pure ()
      | some new => (← Scope.chainOf n).forM (joinResult ann new)
  | _ => pure ()

def returnRule : Rule := fun self n => do
  Pass.below self n
  tellResult n

def annAssignRule : Rule := fun self n => do
  Pass.below self n
  match n.shape with
  | .annAssign target ann value _ =>
    annotate target ann
    let t ← TypeStyle.common.ofHint target
    match t with
    | .text s => if widthNames.contains s then modify ({ · with fixedWidth := true })
    | .many _ => fail .wrongSort
    | _ => pure ()
    let value ← value.mapM current
    let v ← TypeStyle.genericOf (.text "auto") (← typeOf? value)
    let classOf (t : TypeTerm) := t.text?.bind (Known.resolve [])
    let wanted := classOf t
    let given := classOf v
    let shown (k : Option String) := match k with
      | some k => "<class '" ++ k ++ "'>"
      | none => "None"
    if !fits wanted given value then
      throwAt .incompatible (some (shown wanted ++ " incompatible with " ++ shown given)) n
  | _ => pure ()

def plainRule : Rule := Pass.below

def rules : Rules :=
  { binOp := binOpRule, call := callRule, ret := returnRule, functionDef := plainRule, lambda := plainRule,
    annAssign := annAssignRule }

/-- A name for a type term inside another type. -/
def termKey : TypeTerm → Analysis String
  | .many _ => fail .wrongSort
  | t => return t.quoted

def entryTerm (e : Option Node) : Analysis TypeTerm := do
  match e with
  | none => return .absent
  | some e =>
    let _ ← typeOf e
    TypeStyle.genericHint (.text "auto") e

/-- The one type that all of some terms name. -/
def sharedName (ts : List TypeTerm) : Analysis String := do
  let names ← ts.mapM termKey
  match ts, names with
  | t :: _, k :: ks => return if ks.all (· == k) then t.shown else "Any"
  | _, _ => fail .outOfRange

def dictType (keys : List (Option Node)) (values : List Node) : Analysis String := do
  let k ← sharedName (← keys.mapM entryTerm)
  let v ← sharedName (← values.mapM fun v => entryTerm (some v))
  return "Dict[" ++ k ++ ", " ++ v ++ "]"

def elementType (container element : TypeTerm) : Analysis TypeTerm := do
  match element with
  | .many ts =>
    match ts[1]? with
    | some t => return t
    | none => fail .outOfRange
  | .text s =>
    if container.isText "Dict" then
      match s.toList[1]? with
      | some c => return .text c.toString
      | none => fail .outOfRange
    else return element
  | t => if container.isText "Dict" then fail .wrongSort else return t

/-- An element of what is defined as a container has the type of its elements, and a slice that of the container. -/
def subscriptType (n index d : Node) : Analysis Unit := do
  if ← hasHint d then
    let _ ← TypeStyle.common.ofHint d
    match (← factsOf d.id).container with
    | none => pure ()
    | some (container, element) =>
      let element ← elementType container element
      let outer ← hintOf d
      if (← current index).shape matches .slice .. then
        note n.id ({ · with hint := some (outer.map (·.id)) })
      else annotate n (← typeName element.shown)
      (← lifetimeOf outer).forM fun l => do (← hintOf n).forM fun t => setLifetime t l

/-- The target of a loop has the type of the elements of what it goes over. -/
def targetType (l : Loop Node) : Analysis Unit := do
  match ← hintOf l.iter with
  | some ⟨i, line, col, .subscript v index u⟩ =>
    let type ← TypeStyle.parameterOf ⟨i, line, col, .subscript v index u⟩ (← current index)
    match (← current l.target).shape with
    | .name .. => annotate l.target type
    | .tuple es _ =>
      match type.shape with
      | .subscript _ index _ =>
        let inner ← TypeStyle.parameterOf type (← current index)
        es.forM fun e => annotate e inner
      | _ => pure ()
    | _ => pure ()
  | _ => pure ()

def step (rules : Rules) (self : Node → Analysis Unit) (n : Node) : Analysis Unit := do
  let named (s : String) : Analysis Unit := do annotate n (← typeName s)
  match n.shape with
  | .name .. => (← typeOf n).forM (annotate n)
  | .constant v _ =>
    if v matches .ellipsis then pure ()
    else
      match ← primitive v with
      | none => pure ()
      | some t =>
        setLifetime t (if v.isStr then .static else .unknown)
        annotate n t
  | .list elts _ =>
    Pass.below self n
    if elts.isEmpty then
      if !(← hasHint n) then named "List"
    else
      Pass.each self elts
      if !(← factsOf n.id).inHint then
        let types ← elts.filterMapM fun e => do (← typeOf e).mapM writeType
        match types.eraseDups with
        | [] => named "List"
        | [t] => annotateWith n ("List[" ++ t ++ "]")
        | ts => annotateWith n ("List[Union[" ++ Text.commas ts ++ "]]")
  | .set elts =>
    Pass.below self n
    Pass.each self elts
    let types ← elts.mapM typeNameOf
    let only ← match elts, types with
      | e :: _, t :: ts => if ts.all (· == t) then hint? e else pure none
      | _, _ => pure none
    match only with
    | some t => annotateWith n ("Set[" ++ (t.bind Node.ident?).getD "None" ++ "]")
    | none => if !(← hasHint n) then named "Set"
  | .dict keys values =>
    Pass.below self n
    if keys.isEmpty then
      if !(← hasHint n) then named "Dict"
    else
      annotateWith n (← dictType keys values)
      let typed ← values.filterMapM hint?
      let lifetimes ← typed.mapM lifetimeOf
      let all := !lifetimes.isEmpty && lifetimes.all (· == some .static)
      (← hintOf n).forM fun t => setLifetime t (if all then .static else .unknown)
  | .assign targets value =>
    Pass.below self n
    self (← current value)
    match ← hintOf value with
    | none => pure ()
    | some t =>
      for target in targets do
        let free ← match ← hint? target with
          | none => pure true
          | some none => pure false
          | some (some old) => pure (← factsOf old.id).inferred
        if free then
          annotate target t
          note t.id ({ · with inferred := true })
  | .annAssign .. => rules.annAssign self n
  | .augAssign target _ value =>
    Pass.below self n
    match ← hintOf value with
    | none => pure ()
    | some t => if !(← hasHint target) then annotate target t
  | .compare .. =>
    Pass.below self n
    named "bool"
  | .ret _ => rules.ret self n
  | .unaryOp _ operand =>
    Pass.below self n
    match ← definitionOf n (← current operand) with
    | none => pure ()
    | some d => (← hint? d).forM fun t => note n.id ({ · with hint := some (t.map (·.id)) })
  | .binOp .. => rules.binOp self n
  | .classDef c =>
    named c.name
    Pass.below self n
  | .attribute value _ _ =>
    let id := (← current value).ident?
    if id.isSome then
      match ← Scope.chain? n with
      | none => pure ()
      | some scopes =>
        if ← Scope.isEnum id scopes then
          let d ← Scope.find scopes id
          note n.id ({ · with hint := some (d.map (·.id)) })
  | .call .. => rules.call self n
  | .subscript value index _ =>
    (← Scope.find (← Scope.chainOf n) (← current value).ident?).forM (subscriptType n index)
    Pass.below self n
  | .forLoop l =>
    self (← current l.target)
    self (← current l.iter)
    targetType l
    Pass.below self n
  | .boolOp .. => named "bool"
  | .functionDef _ => rules.functionDef self n
  | .lambda .. => rules.lambda self n
  | _ => Pass.below self n

/-- Infers the types of a program and says whether it declares integers of fixed width. -/
def infer (rules : Rules) (n : Node) : Analysis Bool := do
  modify ({ · with fixedWidth := false })
  Pass.run (step rules) n
  return (← get).fixedWidth

end Polyglot.Inference
