import Polyglot.Analysis.Calls
import Polyglot.Emit.Basic
import Polyglot.Path

/-!
# Common rules

How a node is written in a language with braces, where a target does not say otherwise. A dialect holds the
decisions of a target that these rules depend on.
-/
namespace Polyglot

open Session Emit

def Member.shown (m : Member) : Analysis String := do
  match m with
  | .named id => return id.getD "None"
  | .target id => return "<ast." ++ (← nodeOf id).kindName ++ " object>"

inductive EnumKind where
  | text | number | flag
  deriving DecidableEq

namespace Dialect

/-- A text between quotes, with quotes and line ends escaped. -/
def quotedText (s : String) : String :=
  let s := Text.replaceAll s "\"" "\\\""
  let s := Text.replaceAll s "\n" "\\n"
  let s := Text.replaceAll s "\r" "\\r"
  let s := Text.replaceAll s "\t" "\\t"
  "\"" ++ s ++ "\""

def byteList (bs : List UInt8) : String :=
  "\x7b" ++ Text.commas (bs.map fun b => "0x" ++ Text.hex b.toNat) ++ "\x7d"

end Dialect

structure Dialect where
  visit : Visit
  style : TypeStyle
  symbols : Symbols := .common
  separator : String := ";"
  comment : String → String := fun text => "/* " ++ text ++ " */"
  quote : Node → String → Emit (Option String) := fun _ s => return some (Dialect.quotedText s)
  bytes : Node → List UInt8 → Emit (Option String) := fun _ bs => return some (Dialect.byteList bs)
  ellipsis : Emit (Option String) := return some (comment "...")
  nothing : String := "NULL"
  isIn : Node → Emit (Option String) := fun _ => fail .missingPart
  assignOne : Node → Node → Emit (Option String) := fun _ _ => return none
  importOne : String → Emit (Option String) := fun _ => return none
  importFrom : String → List String → Nat → Emit (Option String) := fun _ _ _ => return none
  param : Node → Emit (TypeTerm × String)
  makeBlock : Node → List Node → Emit (Option String) := fun _ body => do
    return some (← join "\n" ([some "(\x7b"] ++ (← body.mapM visit) ++ [some "\x7d)"]))
  moreParams : Parameters Node → Emit (List (TypeTerm × String)) := fun _ => return []
  ignoredModules : List String := Calls.ignoredModules
  start : Page
  install : Analysis Unit

namespace Dialect

variable (d : Dialect)

def visit? (n : Option Node) : Emit (Option String) :=
  match n with
  | some n => d.visit n
  | none => throw emptyNode

/-- The text of a node as it shows in a line. -/
def say (n : Node) : Emit String := return shown (← d.visit n)

def say? (n : Option Node) : Emit String := return shown (← d.visit? n)

def visitAll (ns : List Node) : Emit (List (Option String)) := ns.mapM d.visit

def joined (sep : String) (ns : List Node) : Emit String := do join sep (← d.visitAll ns)

def lines (ns : List Node) : Emit String := d.joined "\n" ns

def commas (ns : List Node) : Emit String := d.joined ", " ns

def fallback : TypeTerm := d.style.fallback

def typeOf (n : Node) : Emit TypeTerm := d.style.ofHint n

def typeOf? (n : Option Node) : Emit TypeTerm :=
  match n with
  | some n => d.typeOf n
  | none => return d.fallback

def binarySymbol (op : BinOp) : String := shown (d.symbols.binary op)

def comparisonSymbol (op : CmpOp) : String := shown (d.symbols.comparison op)

/-! ### What a target lacks -/

def unsupported (n : Node) (name : String) : Emit (Option String) := do
  if (← get).strict then refuse (name ++ " not implemented") n
  else
    let line ← lineOf n
    let col ← colOf n
    return some (d.comment (name ++ " unimplemented on line " ++ toString line ++ ":" ++ toString col))

/-! ### Constants -/

/-- A constant that is neither text nor bytes. -/
def plainConstant (v : Literal) : Emit (Option String) :=
  match v with
  | .bool true => return some "true"
  | .bool false => return some "false"
  | .nothing => return some d.nothing
  | .ellipsis => return some (shown (← d.ellipsis))
  | v => return some v.shown

def constant (n : Node) (v : Literal) : Emit (Option String) :=
  match v with
  | .str s => d.quote n s
  | .bytes bs => d.bytes n bs
  | v => d.plainConstant v

/-- A name; the truth values are written small. -/
def plainName (id : String) : Option String :=
  some (if id == "True" then "true" else if id == "False" then "false" else id)

/-! ### Statements -/

def isEllipsis (n : Node) : Bool := n.shape matches .constant .ellipsis _

def expression (value : Node) : Emit (Option String) := do
  let s ← d.visit value
  if isEllipsis value then return s
  else
    match s with
    | none => return some ""
    | some s =>
      if s.isEmpty then return some ""
      else
        let s := Text.strip s
        let s := if Text.endsWith s d.separator then s else s ++ d.separator
        return some (if s == d.separator then "" else s)

/-- The results of the statements of a program, of which functions come last. Statements that are one node
have one result. -/
def moduleBody (body : List Node) : Emit (List (Option String)) := do
  let first ← (body.filter (!·.isFunction)).mapM fun b => do pure (b.id, ← d.visit b)
  let second ← (body.filter (·.isFunction)).mapM fun b => do pure (b.id, ← d.visit b)
  let results := (first ++ second).reverse
  return body.map fun b => (results.lookup b.id).join

/-- Puts a new page in place of the current one; the switches stay. -/
def reset : Emit Unit := do
  (d.install : Analysis Unit)
  modify fun p =>
    { d.start with
      session := p.session, extension := p.extension, strict := p.strict, bare := p.bare, file := p.file,
      sharesAny := p.sharesAny }

def program (n : Node) (body : List Node) : Emit (Option String) := do
  let doc := (← factsOf n.id).docstring
  d.reset
  modify fun p => { p with moduleName := p.file.map Path.stem }
  let texts ← d.moduleBody body
  return some (← join "\n" ((doc.map d.comment).toList.map some ++ texts))

def aliasParts (n : Node) : String × Option String :=
  match n.shape with
  | .alias name as => (name, as)
  | _ => ("", none)

def importModules (names : List Node) : Emit (Option String) := do
  let names := names.map aliasParts
  let texts ← (names.filter fun (name, _) => !(d.ignoredModules.contains name)).mapM fun (name, _) =>
    d.importOne name
  for (name, as) in names do
    match as with
    | none => pure ()
    | some as =>
      let thing := if Known.importable name then Known.Thing.module name else .object "str"
      modify fun p => { p with imported := (as, thing) :: p.imported }
  return some (← join "\n" texts)

def importNames (source : Option String) (names : List Node) (level : Nat) : Emit (Option String) := do
  if source.any d.ignoredModules.contains then return some ""
  else
    let names := names.map aliasParts
    for (name, as) in names do
      let thing := match source with
        | some path => if Known.importable path then Known.imported path name else .object "tuple"
        | none => .object "tuple"
      modify fun p => { p with imported := (as.getD name, thing) :: p.imported }
    d.importFrom (source.getD ".") (names.map (·.1)) level

def returnValue (value : Option Node) : Emit (Option String) := do
  match value with
  | some v => return some ("return " ++ (← d.say v) ++ ";")
  | none => return some "return;"

def branch (n test : Node) (body orelse : List Node) (parens : Bool) : Emit (Option String) := do
  if ← Lowering.isBlock n then d.makeBlock n body
  else
    let head ← if parens then pure ("if(" ++ (← d.say test) ++ ") \x7b")
      else pure ("if " ++ (← d.say test) ++ " \x7b")
    let body ← d.visitAll body
    let orelse ← d.visitAll orelse
    let tail := if orelse.isEmpty then [some "\x7d"] else [some "\x7d else \x7b"] ++ orelse ++ [some "\x7d"]
    return some (← join "\n" (some head :: body.filter Option.isSome ++ tail))

def enclosed (head : String) (body : List Node) (last : String := "\x7d") : Emit (Option String) := do
  return some (← join "\n" ([some head] ++ (← d.visitAll body) ++ [some last]))

def whileTrue (test : Node) (body : List Node) (parens : Bool) : Emit (Option String) := do
  let head ← if parens then pure ("while (" ++ (← d.say test) ++ ") \x7b")
    else pure ("while " ++ (← d.say test) ++ " \x7b")
  d.enclosed head body

def assignments (n : Node) (targets : List Node) : Emit (Option String) := do
  return some (← join "\n" (← targets.mapM (d.assignOne n)))

def augAssign (target : Node) (op : BinOp) (value : Node) : Emit (Option String) := do
  let t ← d.say target
  return some (t ++ " " ++ d.binarySymbol op ++ "= " ++ (← d.say value) ++ ";")

def isCallableType (target : Node) : Emit Bool := do
  match ← hintOf target with
  | some ⟨_, _, _, .subscript v _ _⟩ => return (← current v).ident? == some "Callable"
  | _ => return false

def declaration (n target : Node) (value : Option Node) : Emit (Option String × TypeTerm × Option String) := do
  let t ← d.visit target
  let type ← if ← isCallableType target then pure d.fallback else d.typeOf n
  let v ← match value with
    | some v => d.visit v
    | none => pure none
  return (t, type, v)

/-! ### Expressions -/

def comparison (n left : Node) (ops : List CmpOp) (comparators : List Node) : Emit (Option String) := do
  match ops, comparators with
  | .isIn :: _, _ => d.isIn n
  | op :: _, c :: _ =>
    let l ← d.say left
    return some (l ++ " " ++ d.comparisonSymbol op ++ " " ++ (← d.say c))
  | _, _ => fail .outOfRange

def logic (op : BoolOp) (values : List Node) : Emit (Option String) := do
  match d.symbols.logic op with
  | some s => return some (← d.joined s values)
  | none => fail .missingPart

def unary (op : UnaryOp) (operand : Node) : Emit (Option String) := do
  return some (shown (d.symbols.unary op) ++ "(" ++ (← d.say operand) ++ ")")

def choice (test body orelse : Node) : Emit (Option String) := do
  let b ← d.say body
  let o ← d.say orelse
  let t ← d.say test
  return some ("(" ++ t ++ "? (\x7b " ++ b ++ "; \x7d) : (\x7b " ++ o ++ "; \x7d))")

def isNumber (n : Node) : Bool :=
  match n.shape with
  | .constant (.int _) _ | .constant (.bool _) _ | .constant (.float _) _ => true
  | _ => false

/-- A negative value; only calls and numbers need no brackets. -/
def negation (operand : Node) : Emit (Option String) := do
  let s ← d.say operand
  return some (if operand.isCall || isNumber operand then "-" ++ s else "-(" ++ s ++ ")")

def interval (lower upper : Option Node) : Emit (Option String) := do
  let say (n : Option Node) : Emit String := match n with
    | some n => d.say n
    | none => return ""
  let l ← say lower
  return some (l ++ ".." ++ (← say upper))

def tuple (n : Node) (es : List Node) : Emit (Option String) := do
  let texts ← d.commas es
  return some (if (← factsOf n.id).inHint then texts else "(" ++ texts ++ ")")

def entries (keys : List (Option Node)) (values : List Node) (entry : String → String → String) : Emit (List String) := do
  let ks ← keys.mapM d.say?
  let vs ← values.mapM d.say
  return List.zipWith entry ks vs

def choiceOfBlocks (test body orelse : Node) : Emit (Option String) := do
  let b ← d.say body
  let o ← d.say orelse
  let t ← d.say test
  return some ("if " ++ t ++ " \x7b " ++ b ++ " \x7d else \x7b " ++ o ++ " \x7d")

/-- A comprehension that goes through one source: its elements that pass the first test, and what is made of each. -/
def collected (elt : Node) (generators : List Node) (source : Node → Emit String) (layout : String → String → String) :
    Emit (Option String) := do
  let e ← d.say elt
  match generators.map Node.shape with
  | .comprehension target iter ifs _ :: _ =>
    let t ← d.say target
    let it ← source iter
    let filter ← match ifs with
      | [] => pure ""
      | c :: _ => pure (".cloned().filter(|&" ++ t ++ "| " ++ (← d.say c) ++ ")")
    return some (it ++ filter ++ layout t e)
  | _ => fail .outOfRange

def tryBlock (t : Attempt Node) : Emit (Option String) := do
  let body ← d.visitAll t.body
  let handlers ← d.visitAll t.handlers
  let final ← if t.final.isEmpty then pure [] else do
    pure ([some "finally \x7b"] ++ (← d.visitAll t.final) ++ [some "\x7d"])
  return some (← join "\n" ([some "try \x7b"] ++ body ++ [some "\x7d"] ++ handlers ++ final))

def generatorExpression (n : Node) : Emit (Option String) := do
  let _ ← d.unsupported n "generator expression elts"
  d.unsupported n "generators"

def parameters (n : Node) : Emit (List TypeTerm × List String) :=
  guarded n do
    match n.shape with
    | .parameters p =>
      let ps := (← p.args.mapM fun a => guarded a (d.param a)) ++ (← d.moreParams p)
      return (ps.map (·.1), ps.map (·.2))
    | _ => fail .missingPart

def enumKind? (bases : List Node) : Option EnumKind :=
  let ids := bases.map Node.ident?
  if ids.contains (some "Enum") && ids.contains (some "str") &&
      ids.all (fun i => i == some "Enum" || i == some "str") then some .text
  else
    match ids with
    | [some "IntEnum"] | [some "Enum"] => some .number
    | [some "IntFlag"] => some .flag
    | _ => none

/-- Goes through the parts of a node that has no text of its own. -/
def children (n : Node) : Emit (Option String) := do
  n.children.forM fun c => do
    let c ← current c
    match c.shape with
    | .parameters _ => let _ ← d.parameters c
    | .arg .. => let _ ← guarded c (d.param c)
    | .alias .. => pure ()
    | _ => let _ ← d.visit c
  return none

def attemptLines (n : Node) (t : Attempt Node) : Emit (Option String) := do
  let start ← d.unsupported n "try_dummy"
  let rest ← t.handlers.mapM d.visit
  let all ← join "" (start :: rest)
  return some ("\n".intercalate (all.toList.map Char.toString))

def step (n : Node) : Emit (Option String) := do
  match n.shape with
  | .pass => return some (d.comment "pass")
  | .module body => d.program n body
  | .importNames names => d.importModules names
  | .importFrom source names level => d.importNames source names level
  | .name id _ => return plainName id
  | .constant v _ => d.constant n v
  | .exprStmt value => d.expression value
  | .ret value => d.returnValue value
  | .cond test body orelse => d.branch n test body orelse true
  | .continueLoop => return some "continue;"
  | .breakLoop => return some "break;"
  | .whileLoop test body _ => d.whileTrue test body true
  | .compare left ops cs => d.comparison n left ops cs
  | .boolOp op values => d.logic op values
  | .unaryOp .minus operand => d.negation operand
  | .unaryOp op operand => d.unary op operand
  | .slice lower upper _ => d.interval lower upper
  | .tuple es _ => d.tuple n es
  | .assign targets _ => d.assignments n targets
  | .augAssign target op value => d.augAssign target op value
  | .namedExpr target _ =>
    let t ← d.say target
    d.unsupported n ("named expr " ++ t)
  | .delete targets =>
    let _ ← d.visitAll targets
    d.unsupported n "del"
  | .starred .. => d.unsupported n "starred"
  | .await _ => d.unsupported n "await"
  | .asyncFor l =>
    let t ← d.say l.target
    let i ← d.say l.iter
    d.unsupported n ("async for " ++ t ++ " in " ++ i)
  | .asyncWith items _ =>
    let texts ← items.mapM fun i => do pure (((← d.visit i).map Text.quoted).getD "None")
    d.unsupported n ("async with [" ++ Text.commas texts ++ "]")
  | .yieldFrom _ => d.unsupported n "yield from"
  | .asyncFunctionDef _ => d.unsupported n "async def"
  | .nonlocal _ => d.unsupported n "nonlocal"
  | .dictComp key value _ =>
    let k ← d.say key
    let v ← d.say value
    d.unsupported n ("dict comprehension (" ++ k ++ ", " ++ v ++ ")")
  | .generatorExp .. | .listComp .. | .setComp .. => d.generatorExpression n
  | .ifExp test body orelse => d.choice test body orelse
  | .exceptHandler .. => d.unsupported n "except handler"
  | .attempt t => d.attemptLines n t
  | .raise .. => d.unsupported n "raise"
  | _ => d.children n

end Dialect

/-! ### Parts of nodes -/

namespace Emit

/-- The variables that both ways of a branch set; they are remembered at the branch. -/
def sharedVars (n : Node) : Emit (List (Option String)) := do
  let facts ← factsOf (← Scope.innermost (← Scope.chainOf n)).id
  let idsOf (vars : Option (List (Option NodeId))) : Emit (List (Option String)) := do
    match vars with
    | none => fail .missingPart
    | some vars => vars.mapM fun v => do
      match v with
      | none => return none
      | some id => return (← nodeOf id).ident?
  let first ← idsOf facts.bodyVars
  let second ← idsOf facts.elseVars
  let common := (first.filter second.contains).eraseDups
  note n.id ({ · with commonVars := some common })
  return common

/-- Whether the enclosing branch of an assignment shares a variable between its two ways. -/
def isShared (scopes : List NodeId) (name : Option String) : Emit Bool := do
  let scope ← Scope.innermost scopes
  if scope.isCond then
    match (← factsOf scope.id).commonVars with
    | none => fail .missingPart
    | some vars => return vars.contains name
  else return false

/-- The text of a target that both ways of the branch around an assignment set, if it is one. -/
def sharedTarget? (visit : Visit) (scopes : List NodeId) (target : Node) : Emit (Option (Option String)) := do
  if (← Scope.innermost scopes).isCond then
    let id ← visit target
    if ← isShared scopes id then return some id else return none
  else return none

def contained (visit : Visit) (n : Node) : Emit (Option String) := do
  match n.shape with
  | .compare left _ (right :: _) =>
    let l := shown (← visit left)
    return some (l ++ " in " ++ shown (← visit right))
  | _ => fail .outOfRange

def classValues (visit : Visit) (n : Node) : Emit (List (String × String)) := do
  ((← factsOf n.id).classAssignments.getD []).mapM fun (member, value) => do
    match value with
    | none => throw emptyNode
    | some id =>
      let value ← visit (← nodeOf id)
      return (← member.shown, shown value)

def enumField (member value : String) : String :=
  if value == "auto()" then member ++ "," else member ++ " = " ++ value ++ ","

/-- The value of a member; one that is left open is its name, its number or its bit. -/
def enumValue (kind : EnumKind) (member value : String) (i : Nat) : String :=
  if value != "auto()" then value
  else match kind with
    | .text => "\"" ++ member ++ "\""
    | .number => toString i
    | .flag => toString (Nat.pow 2 i)

/-- Types that are not known get names of their own, numbered in order: all types, and the names that were given. -/
def numberTypes (unknown : TypeTerm → Bool) (stem : String) (i : Nat := 0) : List TypeTerm → List String × List String
  | [] => ([], [])
  | t :: ts =>
    if unknown t then
      let name := stem ++ toString i
      let (types, new) := numberTypes unknown stem (i + 1) ts
      (name :: types, name :: new)
    else
      let (types, new) := numberTypes unknown stem i ts
      (t.shown :: types, new)

/-- Parameters of an unknown type have type parameters: all types, and the type parameters. -/
def paramTypes (ts : List TypeTerm) : List String × List String := numberTypes (·.isText "T") "T" 0 ts

def fieldTypes (ts : List TypeTerm) : List String := (numberTypes (· == .absent) "ST" 0 ts).1

def callArgs (n : Node) : List Node :=
  match n.shape with
  | .call _ args _ => args
  | _ => []

def quotedList (ts : List (Option String)) : String :=
  "[" ++ Text.commas (ts.map fun t => (t.map Text.quoted).getD "None") ++ "]"

def refuseRange {α : Type} (vargs : List (Option String)) : Emit α :=
  throw (.refuse ("encountered range() call with unknown parameters: range(" ++ quotedList vargs ++ ")"))

def rangeOf (n : Node) (vargs : List (Option String)) : Emit (String × String × Option String) := do
  match (callArgs n).length with
  | 1 => return ("0", ← argAt vargs 0, none)
  | 2 => return (← argAt vargs 0, ← argAt vargs 1, none)
  | 3 => return (← argAt vargs 0, ← argAt vargs 1, some (← argAt vargs 2))
  | _ => refuseRange vargs

def declaredBy (cls n : Node) : Emit (List (String × TypeTerm)) := do
  match (← factsOf cls.id).declarations with
  | none => throwAt .undeclared (some ("Declaration of " ++ shown cls.ident? ++ " not yet parsed")) n
  | some ds => return ds

def recordOf (visit : Visit) (n : Node) (name : Option String) (cls : Node) (args kwds : List Node)
    (rename : String → String := fun key => key) : Emit (Option String) := do
  let ds ← declaredBy cls n
  let first ← (args.zip ds).mapM fun (a, (key, _)) => do return rename key ++ ": " ++ shown (← visit a)
  let second ← kwds.filterMapM fun k => do
    match k.shape with
    | .keyword key v => return some (shown (key.map rename) ++ ": " ++ shown (← visit v))
    | _ => return none
  return some (shown name ++ "\x7b" ++ Text.commas (first ++ second) ++ "\x7d")

/-- What a function returns, converted to its type if the value has another. -/
def convertedReturn (visit : Visit) (native : NativeTypes) (resultOf : Node → Emit TypeTerm)
    (convert : String → String → String) (n : Node) (value : Option Node) : Emit (Option String) := do
  match value with
  | none => return some "return"
  | some v =>
    let text := shown (← visit v)
    match ← Scope.functionOf (← Scope.chainOf n) with
    | none => return some ("return " ++ text)
    | some f =>
      let result ← resultOf f
      match ← native.typeOf v with
      | none => return some ("return " ++ text)
      | some t => return some ("return " ++ (if result.isText t then text else convert text result.shown))

/-- What a table says of a member of a value that has a name. -/
def byPath {α : Type} (table : List (String × α)) (value : Node) (attr : String) : Option α :=
  match value.ident? with
  | some "" | none => none
  | some id => table.lookup (id ++ "." ++ attr)

def keywordValues (keywords : List Node) : List Node :=
  keywords.filterMap fun k => match k.shape with
    | .keyword _ v => some v
    | _ => none

def isWhole (n : Node) : Bool :=
  match n.shape with
  | .constant (.int _) _ | .constant (.bool _) _ => true
  | _ => false

end Emit

/-! ### Calls of known functions -/

/-- How a target writes a call of a known function. -/
abbrev Plugin := Node → List (Option String) → Emit (Option String)

/-- The known functions of a target: by the name that is called, by what the name stands for, and by the last
part of a dotted name. -/
structure Plugins where
  byName : List (String × Plugin) := []
  small : List (String × Plugin) := []
  smallUsings : List (String × String) := []
  byFunction : List (String × Plugin × Bool) := []
  byLeaf : List (String × Plugin × Bool) := []
  functionUsings : List (String × String) := []

namespace Plugins

def unaryCall (before after : String) : Plugin := fun _ vargs => do
  return some (before ++ (← argAt vargs 0) ++ after)

/-- A call that has a value even without arguments. -/
def optionalCall (before after empty : String) : Plugin := fun _ vargs => do
  if vargs.isEmpty then return some empty else return some (before ++ (← argAt vargs 0) ++ after)


/-- A plugin that misses an argument has nothing to say. -/
def attempt (act : Emit (Option String)) : Emit (Option String) := do
  try act
  catch f => if f.cause == .outOfRange then return none else throw f

def lookup (name : String) : Emit (Option String) := return Known.resolve (← get).imported name

def split (name : String) : String × String :=
  match Text.cutLast? name "." with
  | some (a, b) => (a, b)
  | none => ("", name)

def dispatch (p : Plugins) (n : Node) (name : Option String) (vargs : List (Option String))
    (lookup : String → Emit (Option String) := Plugins.lookup)
    (split : String → String × String := Plugins.split) : Emit (Option String) := do
  match name with
  | none => fail .missingPart
  | some name =>
    match p.byName.lookup name, p.small.lookup name with
    | some f, _ => attempt (f n vargs)
    | none, some f =>
      (p.smallUsings.lookup name).forM using_
      attempt (f n vargs)
    | none, none =>
      let key ← lookup name
      match key.bind fun k => p.byFunction.lookup k with
      | some (f, result) =>
        (key.bind fun k => p.functionUsings.lookup k).forM using_
        note n.id ({ · with resultType := some result })
        attempt (f n vargs)
      | none =>
        let (stem, leaf) := split name
        match p.byLeaf.lookup leaf with
        | none => return none
        | some (f, result) =>
          note n.id ({ · with resultType := some result })
          attempt do return some (stem ++ (← require (← f n vargs)))

end Plugins
end Polyglot
