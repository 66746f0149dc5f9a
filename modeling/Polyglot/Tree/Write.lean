import Polyglot.Tree.Grammar

/-!
# Writing programs

The text of a tree in the language it was read from: four blanks per level, brackets only where the
binding strengths ask for them, and quotes chosen so that little has to be escaped.
-/
namespace Polyglot.Write

/-- Binding strengths, from loose to tight. -/
def named : Nat := 1
def tuple : Nat := 2
def yield : Nat := 3
def test : Nat := 4
def or : Nat := 5
def and : Nat := 6
def not : Nat := 7
def cmp : Nat := 8
def bor : Nat := 9
def factor : Nat := 15
def power : Nat := 16
def await : Nat := 17
def atom : Nat := 18

def next (p : Nat) : Nat := min (p + 1) atom

/-- Where a node is written: how tightly its surroundings bind, how deep it is indented, whether no
backslash may be used, and whether handlers belong to a starred `try`. -/
structure Slot where
  strength : Nat := test
  indent : Nat := 0
  noBackslash : Bool := false
  starred : Bool := false

def binSymbol : BinOp → String
  | .add => "+"
  | .sub => "-"
  | .mult => "*"
  | .matMult => "@"
  | .div => "/"
  | .mod => "%"
  | .lShift => "<<"
  | .rShift => ">>"
  | .bitOr => "|"
  | .bitXor => "^"
  | .bitAnd => "&"
  | .floorDiv => "//"
  | .pow => "**"

def binStrength : BinOp → Nat
  | .bitOr => bor
  | .bitXor => 10
  | .bitAnd => 11
  | .lShift | .rShift => 12
  | .add | .sub => 13
  | .mult | .matMult | .div | .mod | .floorDiv => 14
  | .pow => power

def unarySymbol : UnaryOp → String
  | .invert => "~"
  | .not => "not"
  | .plus => "+"
  | .minus => "-"

def cmpSymbol : CmpOp → String
  | .eq => "=="
  | .notEq => "!="
  | .lt => "<"
  | .ltE => "<="
  | .gt => ">"
  | .gtE => ">="
  | .same => "is"
  | .notSame => "is not"
  | .isIn => "in"
  | .notIn => "not in"

abbrev Writer := Slot → Node → Except Fault String

/-! ### Quotes -/

def triples : List String := ["\"\"\"", "'''"]

def allQuotes : List String := ["'", "\""] ++ triples

def escapeChar (wholeLine : Bool) (c : Char) : String :=
  if !wholeLine && (c == '\n' || c == '\t') then c.toString
  else if c == '\\' then "\\\\"
  else if Text.isPrintable c then c.toString
  else Text.escapeCode c

/-- The inside of a literal and the quotes that fit it. With `wholeLine`, line ends and tabs are escaped
too. -/
def chooseQuotes (s : String) (quotes : List String) (wholeLine : Bool) : String × List String :=
  let escaped := String.join (s.toList.map (escapeChar wholeLine))
  let fit := if escaped.contains '\n' then quotes.filter (triples.contains ·) else quotes
  let fit := fit.filter fun q => !Text.occursIn q escaped
  match fit with
  | [] =>
    let q := Text.quoted s
    let first := Text.head q
    let quote := (quotes.find? fun k => Text.occursIn first k).getD first
    (Text.dropLast (Text.dropStart q 1) 1, [quote])
  | _ =>
    match escaped.toList.getLast? with
    | none => (escaped, fit)
    | some c =>
      let clashes := fun (q : String) => q.toList.head? == some c
      let fit := fit.filter (!clashes ·) ++ fit.filter clashes
      if (fit.head?.map clashes).getD false then
        (Text.dropLast escaped 1 ++ String.ofList ['\\', c], fit)
      else (escaped, fit)

def plainString (s : String) (quotes : List String) : String :=
  let (inside, fit) := chooseQuotes s quotes false
  let q := fit.headD "'"
  q ++ inside ++ q

/-- The quoted parts of a formatted string, of which each narrows down the quotes. `none` if no quote fits
all of them. -/
def quoteParts : List (String × Bool) → List String → Option (List String × List String)
  | [], quotes => some ([], quotes)
  | (s, isText) :: rest, quotes =>
    let (inside, fit) := chooseQuotes s quotes isText
    if fit.all fun q => !quotes.contains q then none
    else (quoteParts rest fit).map fun (parts, q) => (inside :: parts, q)

def formattedString (parts : List (String × Bool)) : String :=
  let (inside, q) := match quoteParts parts allQuotes with
    | some (parts, quotes) => (String.join parts, quotes.headD "'")
    | none =>
      (String.join (parts.map fun (s, _) => Text.dropLast (Text.dropStart (Text.quoted ("\"" ++ s)) 2) 1),
        "'''")
  q ++ inside ++ q

def constant (slot : Slot) : Literal → String
  | .ellipsis => "..."
  | .float x => extremes (Literal.float x).shown
  | .imaginary x => extremes (Literal.imaginary x).shown
  | .str s => if slot.noBackslash then plainString s allQuotes else Text.quoted s
  | l => l.quotedText
where
  extremes (s : String) : String :=
    Text.replaceAll (Text.replaceAll s "inf" "1e309") "nan" "(1e309-1e309)"

/-! ### Parts -/

def line (slot : Slot) (text : String) : String := "\n" ++ Text.times "    " slot.indent ++ text

def inner (slot : Slot) : Slot := { slot with strength := test, indent := slot.indent + 1 }

def bracketIf (c : Bool) (s : String) : String := if c then "(" ++ s ++ ")" else s

/-- Brackets if the surroundings bind more tightly than `p`. -/
def within (slot : Slot) (p : Nat) (s : String) : String := bracketIf (slot.strength > p) s

def docstring? : List Node → Option (String × Bool)
  | ⟨_, _, _, .exprStmt ⟨_, _, _, .constant (.str s) marked⟩⟩ :: _ => some (s, marked)
  | _ => none

section
variable (self : Writer)

def at_ (slot : Slot) (p : Nat) (n : Node) : Except Fault String := self { slot with strength := p } n

def plain (slot : Slot) (n : Node) : Except Fault String := at_ self slot test n

def commaItems (slot : Slot) (ns : List Node) : Except Fault String :=
  return Text.commas (← ns.mapM (plain self slot))

def tupleItems (slot : Slot) : List Node → Except Fault String
  | [n] => return (← plain self slot n) ++ ","
  | ns => commaItems self slot ns

def blockOf (slot : Slot) (ns : List Node) : Except Fault String :=
  return String.join (← ns.mapM (self (inner slot)))

/-- A block whose first statement may be a docstring. -/
def documented (slot : Slot) (ns : List Node) : Except Fault String := do
  match docstring? ns with
  | some (s, marked) =>
    let first := line slot ((if marked then "u" else "") ++ plainString s triples)
    return first ++ String.join (← (ns.drop 1).mapM (self { slot with strength := test }))
  | none => return String.join (← ns.mapM (self { slot with strength := test }))

def elseOf (slot : Slot) (word : String) (ns : List Node) : Except Fault String := do
  if ns.isEmpty then return "" else return line slot (word ++ ":") ++ (← blockOf self slot ns)

/-- Statements that could carry a remark about their line need one. -/
def needLine (n : Node) : Except Fault Unit :=
  if n.line.isNone then throw (.bare .missingPart) else return ()

def clausesOf (slot : Slot) (gens : List Node) : Except Fault String :=
  return String.join (← gens.mapM (plain self slot))

def optional (slot : Slot) (before : String) : Option Node → Except Fault String
  | some n => return before ++ (← plain self slot n)
  | none => return ""

def functionDef (slot : Slot) (n : Node) (word : String) (f : Function Node) : Except Fault String := do
  let decorators ← f.decorators.mapM fun d => return line slot ("@" ++ (← plain self slot d))
  let args ← plain self slot f.args
  let returns ← optional self slot " -> " f.returns
  needLine n
  let body ← documented self (inner slot) f.body
  return "\n" ++ String.join decorators ++ line slot (word ++ " " ++ f.name ++ "(" ++ args ++ ")" ++ returns ++ ":") ++
    body

def argWithDefault (slot : Slot) (a : Node) : Option Node → Except Fault String
  | some d => return (← plain self slot a) ++ "=" ++ (← plain self slot d)
  | none => plain self slot a

def starArg (slot : Slot) (stars : String) (a : Node) : Except Fault String := do
  match a.shape with
  | .arg name hint => return stars ++ name ++ (← optional self slot ": " hint)
  | _ => return stars

def parameters (slot : Slot) (p : Parameters Node) : Except Fault String := do
  let all := p.posOnly ++ p.args
  let defaults := List.replicate (all.length - p.defaults.length) none ++ p.defaults.map some
  let plainArgs ← (all.zip defaults).mapM fun (a, d) => argWithDefault self slot a d
  let plainArgs := if p.posOnly.isEmpty then plainArgs
    else plainArgs.take p.posOnly.length ++ ["/"] ++ plainArgs.drop p.posOnly.length
  let star ← match p.vararg with
    | some a => pure [← starArg self slot "*" a]
    | none => pure (if p.kwOnly.isEmpty then [] else ["*"])
  let named ← (p.kwOnly.zip p.kwDefaults).mapM fun (a, d) => argWithDefault self slot a d
  let merged ← match p.kwarg with
    | some a => pure [← starArg self slot "**" a]
    | none => pure []
  return Text.commas (plainArgs ++ star ++ named ++ merged)

def loopStatement (slot : Slot) (n : Node) (word : String) (l : Loop Node) : Except Fault String := do
  let t ← at_ self slot tuple l.target
  let i ← plain self slot l.iter
  needLine n
  let body ← blockOf self slot l.body
  return line slot (word ++ t ++ " in " ++ i ++ ":") ++ body ++ (← elseOf self slot "else" l.orelse)

def tryStatement (slot : Slot) (t : Attempt Node) : Except Fault String := do
  let body ← blockOf self slot t.body
  let handlers ← t.handlers.mapM (plain self slot)
  return line slot "try:" ++ body ++ String.join handlers ++ (← elseOf self slot "else" t.orelse) ++
    (← elseOf self slot "finally" t.final)

def withStatement (slot : Slot) (n : Node) (word : String) (items body : List Node) :
    Except Fault String := do
  let items ← commaItems self slot items
  needLine n
  return line slot (word ++ items ++ ":") ++ (← blockOf self slot body)

/-- A condition and the conditions that are the whole of its alternative. -/
def condChain (slot : Slot) : Nat → String → Node → List Node → List Node → Except Fault String
  | 0, _, _, _, _ => throw (.bare .tooDeep)
  | k + 1, word, t, body, orelse => do
    let head := line slot (word ++ (← plain self slot t) ++ ":") ++ (← blockOf self slot body)
    match orelse with
    | [⟨_, _, _, .cond t' body' orelse'⟩] => return head ++ (← condChain slot k "elif " t' body' orelse')
    | _ => return head ++ (← elseOf self slot "else" orelse)

def boolValues (slot : Slot) : Nat → List Node → Except Fault (List String)
  | _, [] => return []
  | p, v :: vs => return (← at_ self slot (next p) v) :: (← boolValues slot (next p) vs)

def formattedPart (slot : Slot) : Nat → Node → Except Fault String
  | 0, _ => throw (.bare .tooDeep)
  | k + 1, n =>
    match n.shape with
    | .joinedStr values => return String.join (← values.mapM (formattedPart slot k))
    | .constant (.str s) _ => return Text.replaceAll (Text.replaceAll s "\x7b" "\x7b\x7b") "\x7d" "\x7d\x7d"
    | .formatted value conversion spec => do
      let e ← self { strength := next test, noBackslash := true } value
      if e.contains '\\' then throw (.bare .badValue)
      let gap := if Text.startsWith e "\x7b" then " " else ""
      let conv := match conversion with
        | some c => "!" ++ c.toString
        | none => ""
      let spec ← match spec with
        | some f => pure (":" ++ (← formattedPart slot k f))
        | none => pure ""
      return "\x7b" ++ gap ++ e ++ conv ++ spec ++ "\x7d"
    | _ => throw (.bare .badValue)

def joined (slot : Slot) (n : Node) (values : List Node) : Except Fault String := do
  if slot.noBackslash then
    return "f" ++ plainString (← formattedPart self slot nestingLimit n) allQuotes
  else
    let parts ← values.mapM fun v => do
      return (← formattedPart self slot nestingLimit v, v.isConstant)
    return "f" ++ formattedString parts

def subscriptItems (slot : Slot) (index : Node) : Except Fault String :=
  match index.shape with
  | .tuple (e :: es) _ => tupleItems self slot (e :: es)
  | _ => plain self slot index

def isWholeConstant (n : Node) : Bool :=
  match n.shape with
  | .constant v _ => v.isWhole
  | _ => false

def statement (slot : Slot) (n : Node) : Except Fault String := do
  match n.shape with
  | .module body => documented self slot body
  | .functionDef f => functionDef self slot n "def" f
  | .asyncFunctionDef f => functionDef self slot n "async def" f
  | .classDef c =>
    let decorators ← c.decorators.mapM fun d => return line slot ("@" ++ (← plain self slot d))
    let args ← commaItems self slot (c.bases ++ c.keywords)
    let head := "class " ++ c.name ++ bracketIf (!(c.bases ++ c.keywords).isEmpty) args ++ ":"
    return "\n" ++ String.join decorators ++ line slot head ++ (← documented self (inner slot) c.body)
  | .ret value => return line slot "return" ++ (← optional self slot " " value)
  | .delete targets => return line slot "del " ++ (← commaItems self slot targets)
  | .assign targets value =>
    let ts ← targets.mapM fun t => return (← at_ self slot tuple t) ++ " = "
    let v ← plain self slot value
    needLine n
    return line slot (String.join ts ++ v)
  | .augAssign t o value =>
    return line slot ((← plain self slot t) ++ " " ++ binSymbol o ++ "= " ++ (← plain self slot value))
  | .annAssign t hint value simple =>
    let target := bracketIf (!simple && t.isName) (← plain self slot t)
    return line slot (target ++ ": " ++ (← plain self slot hint) ++ (← optional self slot " = " value))
  | .forLoop l => loopStatement self slot n "for " l
  | .asyncFor l => loopStatement self slot n "async for " l
  | .whileLoop t body orelse =>
    return line slot ("while " ++ (← plain self slot t) ++ ":") ++ (← blockOf self slot body) ++
      (← elseOf self slot "else" orelse)
  | .cond t body orelse => condChain self slot nestingLimit "if " t body orelse
  | .withBlock items body => withStatement self slot n "with " items body
  | .asyncWith items body => withStatement self slot n "async with " items body
  | .matchOn subject cases =>
    return line slot ("match " ++ (← plain self slot subject) ++ ":") ++ (← blockOf self slot cases)
  | .matchCase p guard body =>
    return line slot ("case " ++ (← plain self slot p) ++ (← optional self slot " if " guard) ++ ":") ++
      (← blockOf self slot body)
  | .raise exc cause =>
    match exc with
    | none => if cause.isSome then throw (.bare .badValue) else return line slot "raise"
    | some e => return line slot ("raise " ++ (← plain self slot e) ++ (← optional self slot " from " cause))
  | .attempt t => tryStatement self { slot with starred := false } t
  | .attemptStar t => tryStatement self { slot with starred := true } t
  | .exceptHandler type name body =>
    let word := if slot.starred then "except*" else "except"
    let as_ := match name with
      | some s => " as " ++ s
      | none => ""
    return line slot (word ++ (← optional self slot " " type) ++ as_ ++ ":") ++ (← blockOf self slot body)
  | .assert t msg => return line slot ("assert " ++ (← plain self slot t) ++ (← optional self slot ", " msg))
  | .importNames names => return line slot ("import " ++ (← commaItems self slot names))
  | .importFrom source names level =>
    return line slot ("from " ++ Text.times "." level ++ source.getD "" ++ " import " ++
      (← commaItems self slot names))
  | .global names => return line slot ("global " ++ Text.commas names)
  | .nonlocal names => return line slot ("nonlocal " ++ Text.commas names)
  | .exprStmt value => return line slot (← at_ self slot yield value)
  | .pass => return line slot "pass"
  | .breakLoop => return line slot "break"
  | .continueLoop => return line slot "continue"
  | _ => return ""

def expression (slot : Slot) (n : Node) : Except Fault String := do
  match n.shape with
  | .boolOp o values =>
    let (word, p) := match o with
      | .and => (" and ", and)
      | .or => (" or ", or)
    return within slot p (word.intercalate (← boolValues self slot p values))
  | .namedExpr t value =>
    return within slot named ((← at_ self slot atom t) ++ " := " ++ (← at_ self slot atom value))
  | .binOp left o right =>
    let p := binStrength o
    let (l, r) := if o == .pow then (next p, p) else (p, next p)
    return within slot p ((← at_ self slot l left) ++ " " ++ binSymbol o ++ " " ++ (← at_ self slot r right))
  | .unaryOp o operand =>
    let p := if o == .not then not else factor
    let gap := if o == .not then " " else ""
    return within slot p (unarySymbol o ++ gap ++ (← at_ self slot p operand))
  | .lambda args body =>
    let a ← plain self slot args
    let a := if a.isEmpty then "" else " " ++ a
    return within slot test ("lambda" ++ a ++ ": " ++ (← at_ self slot test body))
  | .ifExp t body orelse =>
    return within slot test ((← at_ self slot (next test) body) ++ " if " ++ (← at_ self slot (next test) t) ++
      " else " ++ (← at_ self slot test orelse))
  | .dict keys values =>
    let items ← (keys.zip values).mapM fun (k, v) => do
      match k with
      | none => return "**" ++ (← at_ self slot bor v)
      | some k => return (← plain self slot k) ++ ": " ++ (← plain self slot v)
    return "\x7b" ++ Text.commas items ++ "\x7d"
  | .set elts => if elts.isEmpty then return "\x7b*()\x7d" else return "\x7b" ++ (← commaItems self slot elts) ++ "\x7d"
  | .listComp e gens => return "[" ++ (← plain self slot e) ++ (← clausesOf self slot gens) ++ "]"
  | .setComp e gens => return "\x7b" ++ (← plain self slot e) ++ (← clausesOf self slot gens) ++ "\x7d"
  | .generatorExp e gens => return "(" ++ (← plain self slot e) ++ (← clausesOf self slot gens) ++ ")"
  | .dictComp k v gens =>
    return "\x7b" ++ (← plain self slot k) ++ ": " ++ (← plain self slot v) ++ (← clausesOf self slot gens) ++ "\x7d"
  | .comprehension t iter ifs isAsync =>
    let head := (if isAsync then " async for " else " for ") ++ (← at_ self slot tuple t) ++ " in " ++
      (← at_ self slot (next test) iter)
    let conds ← ifs.mapM fun c => return " if " ++ (← at_ self slot (next test) c)
    return head ++ String.join conds
  | .await value => return within slot await ("await " ++ (← at_ self slot atom value))
  | .yield value =>
    match value with
    | some v => return within slot yield ("yield " ++ (← at_ self slot atom v))
    | none => return within slot yield "yield"
  | .yieldFrom value => return within slot yield ("yield from " ++ (← at_ self slot atom value))
  | .compare left ops rights =>
    let rest ← (ops.zip rights).mapM fun (o, e) =>
      return " " ++ cmpSymbol o ++ " " ++ (← at_ self slot (next cmp) e)
    return within slot cmp ((← at_ self slot (next cmp) left) ++ String.join rest)
  | .call func args keywords =>
    return (← at_ self slot atom func) ++ "(" ++ (← commaItems self slot (args ++ keywords)) ++ ")"
  | .formatted .. => formattedPart self slot nestingLimit n
  | .joinedStr values => joined self slot n values
  | .constant value marked => return (if marked then "u" else "") ++ constant slot value
  | .attribute value attr _ =>
    return (← at_ self slot atom value) ++ (if isWholeConstant value then " ." else ".") ++ attr
  | .subscript value index _ =>
    return (← at_ self slot atom value) ++ "[" ++ (← subscriptItems self slot index) ++ "]"
  | .starred value _ => return "*" ++ (← at_ self slot bor value)
  | .name id _ => return id
  | .list elts _ => return "[" ++ (← commaItems self slot elts) ++ "]"
  | .tuple elts _ => return bracketIf (elts.isEmpty || slot.strength > tuple) (← tupleItems self slot elts)
  | .slice lower upper step =>
    return (← optional self slot "" lower) ++ ":" ++ (← optional self slot "" upper) ++
      (← optional self slot ":" step)
  | .parameters p => parameters self slot p
  | .arg name hint => return name ++ (← optional self slot ": " hint)
  | .keyword name value =>
    let head := match name with
      | some s => s ++ "="
      | none => "**"
    return head ++ (← plain self slot value)
  | .alias name asName =>
    return name ++ (match asName with
      | some s => " as " ++ s
      | none => "")
  | .withItem context vars => return (← plain self slot context) ++ (← optional self slot " as " vars)
  | .matchValue value => plain self slot value
  | .matchSingleton value => return constant slot value
  | .matchSequence ps => return "[" ++ (← commaItems self slot ps) ++ "]"
  | .matchStar name => return "*" ++ name.getD "_"
  | .matchMapping keys ps rest =>
    let items ← (keys.zip ps).mapM fun (k, p) => return (← plain self slot k) ++ ": " ++ (← plain self slot p)
    let rest := match rest with
      | some s => ["**" ++ s]
      | none => []
    return "\x7b" ++ Text.commas (items ++ rest) ++ "\x7d"
  | .matchClass cls ps attrs kps =>
    let c ← at_ self slot atom cls
    let ps ← ps.mapM (plain self slot)
    let kps ← (attrs.zip kps).mapM fun (a, p) => return a ++ "=" ++ (← plain self slot p)
    return c ++ "(" ++ Text.commas (ps ++ kps) ++ ")"
  | .matchAs p name =>
    match name, p with
    | none, _ => return "_"
    | some s, none => return s
    | some s, some p => return within slot test ((← at_ self slot bor p) ++ " as " ++ s)
  | .matchOr ps =>
    return within slot bor (" | ".intercalate (← ps.mapM (at_ self slot (next bor))))
  | _ => statement self slot n

end

def writer : Nat → Writer
  | 0 => fun _ _ => throw (.bare .tooDeep)
  | k + 1 => fun slot n => expression (writer k) slot n

def text (n : Node) : Except Fault String := do
  let s ← writer nestingLimit {} n
  return String.ofList (s.toList.dropWhile (· == '\n'))

end Polyglot.Write
