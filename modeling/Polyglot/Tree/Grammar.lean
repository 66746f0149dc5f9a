import Polyglot.Tree.Literal

/-!
# Reading programs

A recursive-descent reader. The rules that recur are collected in `Rules`; a rule reaches them only after
it has read a token, so `Rules.upTo` ties the knot with as much fuel as there are tokens.
-/
namespace Polyglot.Grammar

structure State where
  tokens : Array Token
  pos : Nat
  next : NodeId
  deriving Inhabited

abbrev Read := EStateM Fault State

def peek : Read Token := do
  let s ← get
  return s.tokens.getD s.pos ⟨.stop, "", 0, 0⟩

def peekAt (k : Nat) : Read Token := do
  let s ← get
  return s.tokens.getD (s.pos + k) ⟨.stop, "", 0, 0⟩

def skip : Read Unit := modify fun s => { s with pos := s.pos + 1 }

/-- Refuses the current token. A block where none may start, or the end of one where none may end, is a
fault of indentation. -/
def refuse {α : Type} : Read α := do
  let t ← peek
  throw (.bare (if t.kind == .indent || t.kind == .dedent then .badIndent else .malformed))

def malformed {α : Type} : Read α := throw (.bare .malformed)

def make (t : Token) (shape : Shape Node) : Read Node := do
  let s ← get
  set { s with next := s.next + 1 }
  return ⟨s.next, some t.line, some t.col, shape⟩

def makeUnplaced (shape : Shape Node) : Read Node := do
  let s ← get
  set { s with next := s.next + 1 }
  return ⟨s.next, none, none, shape⟩

def isOp (o : String) (t : Token) : Bool := t.kind == .op && t.text == o

def isWord (w : String) (t : Token) : Bool := t.kind == .name && t.text == w

def atOp (o : String) : Read Bool := return isOp o (← peek)

def atWord (w : String) : Read Bool := return isWord w (← peek)

def tryOp (o : String) : Read Bool := do
  if ← atOp o then skip; return true else return false

def tryWord (w : String) : Read Bool := do
  if ← atWord w then skip; return true else return false

def op (o : String) : Read Unit := do
  if ← tryOp o then return () else refuse

def word (w : String) : Read Unit := do
  if ← tryWord w then return () else refuse

def reserved : List String :=
  ["False", "None", "True", "and", "as", "assert", "async", "await", "break", "class", "continue", "def",
   "del", "elif", "else", "except", "finally", "for", "from", "global", "if", "import", "in", "is",
   "lambda", "nonlocal", "not", "or", "pass", "raise", "return", "try", "while", "with", "yield"]

def isIdent (t : Token) : Bool := t.kind == .name && !reserved.contains t.text

def ident : Read Token := do
  let t ← peek
  if isIdent t then skip; return t else refuse

def identText : Read String := do return (← ident).text

def attempt? {α : Type} (p : Read α) : Read (Option α) := do
  let s ← get
  try return some (← p)
  catch _ => set s; return none

def iterate {α : Type} (step : α → Read (α × Bool)) : Nat → α → Read α
  | 0, a => return a
  | n + 1, a => do
    let (b, more) ← step a
    if more then iterate step n b else return b

/-- A bound on how often anything can be repeated from here. -/
def remaining : Read Nat := do
  let s ← get
  return s.tokens.size - s.pos + 1

def loop {α : Type} (step : α → Read (α × Bool)) (a : α) : Read α := do
  iterate step (← remaining) a

structure Rules where
  expression : Read Node
  namedExpression : Read Node
  inversion : Read Node
  factor : Read Node
  bitwiseOr : Read Node
  statements : Read (List Node)
  block : Read (List Node)
  elifRest : Read Node
  pattern : Read Node
  patterns : Read Node
  argument : Read Node

/-! ### Targets -/

def asTarget (usage : Usage) : Nat → Node → Read Node
  | 0, _ => malformed
  | n + 1, e =>
    match e.shape with
    | .name id _ => return e.withShape (.name id usage)
    | .attribute v a _ => return e.withShape (.attribute v a usage)
    | .subscript v i _ => return e.withShape (.subscript v i usage)
    | .starred v _ =>
      if usage == .del then malformed
      else return e.withShape (.starred (← asTarget usage n v) usage)
    | .tuple es _ => return e.withShape (.tuple (← es.mapM (asTarget usage n)) usage)
    | .list es _ => return e.withShape (.list (← es.mapM (asTarget usage n)) usage)
    | _ => malformed

def target (usage : Usage) (e : Node) : Read Node := do
  asTarget usage ((← get).tokens.size + 1) e

/-! ### Operators -/

def binaryOps : List (Nat × String × BinOp) :=
  [(1, "|", .bitOr), (2, "^", .bitXor), (3, "&", .bitAnd), (4, "<<", .lShift), (4, ">>", .rShift),
   (5, "+", .add), (5, "-", .sub), (6, "*", .mult), (6, "/", .div), (6, "//", .floorDiv), (6, "%", .mod),
   (6, "@", .matMult)]

def binaryOpAt (level : Nat) (t : Token) : Option BinOp :=
  if t.kind == .op then
    (binaryOps.find? fun (l, s, _) => l == level && s == t.text).map fun (_, _, o) => o
  else none

/-- Left-associative operators of one level over the next tighter one. -/
def binaryLevel (r : Rules) : Nat → Read Node
  | 0 => r.factor
  | k + 1 => do
    let level := 6 - k
    let start ← peek
    let first ← binaryLevel r k
    loop (fun left => do
      match binaryOpAt level (← peek) with
      | some o =>
        skip
        let right ← binaryLevel r k
        return (← make start (.binOp left o right), true)
      | none => return (left, false)) first

def bitwiseOr (r : Rules) : Read Node := binaryLevel r 6

def cmpOp? : Read (Option CmpOp) := do
  let t ← peek
  if t.kind == .op then
    let found : Option CmpOp := match t.text with
      | "==" => some .eq
      | "!=" => some .notEq
      | "<" => some .lt
      | "<=" => some .ltE
      | ">" => some .gt
      | ">=" => some .gtE
      | _ => none
    if found.isSome then skip
    return found
  else if isWord "in" t then skip; return some .isIn
  else if isWord "is" t then
    skip
    if ← tryWord "not" then return some .notSame else return some .same
  else if isWord "not" t && isWord "in" (← peekAt 1) then skip; skip; return some .notIn
  else return none

def comparison (r : Rules) : Read Node := do
  let start ← peek
  let left ← r.bitwiseOr
  let (ops, rights) ← loop (fun (ops, rights) => do
    match ← cmpOp? with
    | some o =>
      let right ← r.bitwiseOr
      return ((ops ++ [o], rights ++ [right]), true)
    | none => return ((ops, rights), false)) (([], []) : List CmpOp × List Node)
  if ops.isEmpty then return left else make start (.compare left ops rights)

def inversion (r : Rules) : Read Node := do
  let start ← peek
  if ← tryWord "not" then
    make start (.unaryOp .not (← r.inversion))
  else comparison r

def more {α : Type} (another : Read Bool) (item : Read α) (first : List α) : Read (List α) :=
  loop (fun acc => do
    if ← another then return (acc ++ [← item], true) else return (acc, false)) first

def chain (another : Read Bool) (several : List Node → Shape Node) (item : Read Node) : Read Node := do
  let start ← peek
  let first ← item
  let rest ← more another item []
  if rest.isEmpty then return first else make start (several (first :: rest))

def disjunction (r : Rules) : Read Node :=
  chain (tryWord "or") (.boolOp .or) (chain (tryWord "and") (.boolOp .and) (inversion r))

/-! ### Parameters -/

/-- Parameters as far as they are read. -/
structure Partial where
  posOnly : List Node := []
  args : List Node := []
  defaults : List Node := []
  vararg : Option Node := none
  kwOnly : List Node := []
  kwDefaults : List (Option Node) := []
  kwarg : Option Node := none
  starred : Bool := false

def parameter (r : Rules) (typed : Bool) : Read Node := do
  let t ← ident
  let annotated ← if typed then tryOp ":" else pure false
  let hint ← if annotated then some <$> r.expression else pure none
  make t (.arg t.text hint)

/-- The parameter that takes the remaining arguments may be annotated with a starred expression. -/
def starParameter (r : Rules) (typed : Bool) : Read Node := do
  let t ← ident
  if typed then
    if ← tryOp ":" then
      let start ← peek
      if ← tryOp "*" then
        let inner ← r.bitwiseOr
        make t (.arg t.text (some (← make start (.starred inner .load))))
      else make t (.arg t.text (some (← r.expression)))
    else make t (.arg t.text none)
  else make t (.arg t.text none)

def parameters (r : Rules) (typed : Bool) (close : String) : Read Node := do
  let p ← loop (fun (p : Partial) => do
    if ← atOp close then return (p, false)
    else
      let p ← one p
      if ← tryOp "," then return (p, true)
      else if ← atOp close then return (p, false)
      else refuse) {}
  if p.starred && p.vararg.isNone && p.kwOnly.isEmpty then malformed
  makeUnplaced (.parameters
    { posOnly := p.posOnly, args := p.args, vararg := p.vararg, kwOnly := p.kwOnly,
      kwDefaults := p.kwDefaults, kwarg := p.kwarg, defaults := p.defaults })
where
  one (p : Partial) : Read Partial := do
    if p.kwarg.isSome then malformed
    if ← tryOp "/" then
      if !p.posOnly.isEmpty || p.args.isEmpty || p.starred then malformed
      return { p with posOnly := p.args, args := [] }
    else if ← tryOp "**" then
      return { p with kwarg := some (← parameter r typed) }
    else if ← tryOp "*" then
      if p.starred then malformed
      if ← atOp "," then return { p with starred := true }
      else return { p with starred := true, vararg := some (← starParameter r typed) }
    else
      let a ← parameter r typed
      let default ← if ← tryOp "=" then pure (some (← r.expression)) else pure none
      if p.starred then
        return { p with kwOnly := p.kwOnly ++ [a], kwDefaults := p.kwDefaults ++ [default] }
      else
        match default with
        | some d => return { p with args := p.args ++ [a], defaults := p.defaults ++ [d] }
        | none =>
          if p.defaults.isEmpty then return { p with args := p.args ++ [a] } else malformed

def lambda (r : Rules) : Read Node := do
  let start ← peek
  word "lambda"
  let args ← parameters r false ":"
  op ":"
  make start (.lambda args (← r.expression))

def expression (r : Rules) : Read Node := do
  if ← atWord "lambda" then lambda r
  else
    let start ← peek
    let body ← disjunction r
    if ← tryWord "if" then
      let test ← disjunction r
      word "else"
      let orelse ← r.expression
      make start (.ifExp test body orelse)
    else return body

def namedExpression (r : Rules) : Read Node := do
  let t ← peek
  if isIdent t && isOp ":=" (← peekAt 1) then
    skip; skip
    let name ← make t (.name t.text .store)
    make t (.namedExpr name (← r.expression))
  else
    let e ← expression r
    if ← atOp ":=" then malformed
    return e

def starNamed (r : Rules) : Read Node := do
  let start ← peek
  if ← tryOp "*" then make start (.starred (← r.bitwiseOr) .load) else namedExpression r

def starExpression (r : Rules) : Read Node := do
  let start ← peek
  if ← tryOp "*" then make start (.starred (← r.bitwiseOr) .load) else expression r

def startsExpression (t : Token) : Bool :=
  match t.kind with
  | .name => !reserved.contains t.text ||
      ["False", "None", "True", "not", "lambda", "await"].contains t.text
  | .number | .string => true
  | .op => ["(", "[", "\x7b", "-", "+", "~", "...", "*"].contains t.text
  | _ => false

/-- One or more items with commas; more than one, or a comma at the end, make a tuple. -/
def tupleOf (item : Read Node) : Read Node := do
  let start ← peek
  let first ← item
  let (items, commas) ← loop (fun (acc, seen) => do
    if ← tryOp "," then
      if startsExpression (← peek) then return ((acc ++ [← item], true), true)
      else return ((acc, true), false)
    else return ((acc, seen), false)) ([first], false)
  if commas then make start (.tuple items .load) else return first

def starExpressions (r : Rules) : Read Node := tupleOf (starExpression r)

def yieldExpr (r : Rules) : Read Node := do
  let start ← peek
  word "yield"
  if ← tryWord "from" then make start (.yieldFrom (← r.expression))
  else if startsExpression (← peek) then make start (.yield (some (← starExpressions r)))
  else make start (.yield none)

def yieldOrStar (r : Rules) : Read Node := do
  if ← atWord "yield" then yieldExpr r else starExpressions r

/-! ### Comprehensions -/

/-- The targets of a loop: they end where `in` comes. -/
def loopTargets (r : Rules) : Read Node := do
  let item : Read Node := do
    let start ← peek
    if ← tryOp "*" then make start (.starred (← r.bitwiseOr) .load) else r.bitwiseOr
  target .store (← tupleOf item)

def comprehensionClause (r : Rules) (isAsync : Bool) : Read Node := do
  let t ← loopTargets r
  word "in"
  let iter ← disjunction r
  makeUnplaced (.comprehension t iter (← more (tryWord "if") (disjunction r) []) isAsync)

def atClause : Read Bool := do
  if ← atWord "for" then return true
  else return (← atWord "async") && isWord "for" (← peekAt 1)

def clauses (r : Rules) : Read (List Node) :=
  more atClause (do
    let isAsync ← tryWord "async"
    word "for"
    comprehensionClause r isAsync) []

/-! ### Strings -/

structure StringParts where
  mark : List Char
  content : List Char
  /-- How many characters of the token precede the content. -/
  offset : Nat

def splitString (text : String) : StringParts :=
  let cs := text.toList
  let mark := cs.takeWhile fun c => c != '"' && c != '\''
  let body := cs.drop mark.length
  let width := match body with
    | a :: b :: c :: _ => if a == b && b == c && body.length ≥ 6 then 3 else 1
    | _ => 1
  { mark := mark.map Char.toLower
    content := (body.drop width).take (body.length - 2 * width)
    offset := mark.length + width }

def textOf (raw : Bool) (cs : List Char) : Read (List Char) :=
  if raw then return cs
  else match Literal.unescape true cs.length cs with
    | some v => return v
    | none => malformed

def bytesOf (raw : Bool) (cs : List Char) : Read (List UInt8) := do
  if cs.any fun c => c.toNat ≥ 0x80 then malformed
  let v ← if raw then pure cs
    else match Literal.unescape false cs.length cs with
      | some v => pure v
      | none => malformed
  return v.map fun c => UInt8.ofNat c.toNat

/-- Where an expression inside a formatted string ends: before a bracket that was not opened inside it, or
before `!`, `:` or `=` outside all brackets. Quoted parts are passed over. -/
def expressionEnd : Nat → List Char → List Char → List Char → Option (List Char × List Char)
  | 0, _, _, _ => none
  | _, [], _, _ => none
  | n + 1, c :: r, opened, acc =>
    if c == '\'' || c == '"' then do
      let (body, rest) ← Token.stringFrom (c :: r)
      if body.contains '\\' then none else expressionEnd n rest opened (body.reverse ++ acc)
    else if c == '\\' || c == '#' then none
    else if c == '(' || c == '[' || c == '{' then expressionEnd n r (c :: opened) (c :: acc)
    else if c == ')' || c == ']' || c == '}' then
      match opened with
      | o :: os => if Token.closerOf o == c then expressionEnd n r os (c :: acc) else none
      | [] => if c == '}' then some (acc.reverse, c :: r) else none
    else if opened.isEmpty then
      match c, r with
      | '!', '=' :: r' => expressionEnd n r' opened ('=' :: '!' :: acc)
      | '=', '=' :: r' => expressionEnd n r' opened ('=' :: '=' :: acc)
      | '<', '=' :: r' => expressionEnd n r' opened ('=' :: '<' :: acc)
      | '>', '=' :: r' => expressionEnd n r' opened ('=' :: '>' :: acc)
      | _, _ =>
        if c == '!' || c == ':' || c == '=' then some (acc.reverse, c :: r)
        else expressionEnd n r opened (c :: acc)
    else expressionEnd n r opened (c :: acc)

/-- Reads an expression from its own characters; the opening brace stands at the given place. -/
def embedded (r : Rules) (cs : List Char) (line col : Nat) : Read Node := do
  let s ← get
  match Token.scanAt line col ('(' :: cs ++ [')']) with
  | .error f => throw f
  | .ok tokens =>
    set { s with tokens, pos := 0 }
    let e ← starExpressions r
    let t ← peek
    if t.kind != .newline && t.kind != .stop then malformed
    modify fun s' => { s with next := s'.next }
    return e

inductive Piece where
  | chars (cs : List Char)
  | field (n : Node)

/-- Where a piece of a formatted string is read: the first token of the literal, the token at hand with all
its characters, and whether the token is raw. -/
structure Place where
  first : Token
  token : Token
  chars : List Char
  raw : Bool

def charsNode (at_ : Token) (cs : List Char) : Read (List Node) := do
  if cs.isEmpty then return [] else return [← make at_ (.constant (.str (String.ofList cs)) false)]

/-- Joins neighbouring characters and makes nodes of the pieces. Characters before a field stand at
`first`, those at the end at `last`. -/
def joinPieces (first last : Token) : List Piece → List Char → Read (List Node)
  | [], acc => charsNode last acc
  | .chars cs :: ps, acc => joinPieces first last ps (acc ++ cs)
  | .field n :: ps, acc => do
    let before ← charsNode first acc
    return before ++ n :: (← joinPieces first last ps [])

abbrev PieceReader := Nat → Nat → List Char → List Char → Read (List Piece × Nat × List Char)

/-- Reads a field after its opening brace at `off`; `again` reads pieces at a depth from an offset on. -/
def pieceField (r : Rules) (p : Place) (again : PieceReader) (depth off : Nat) (cs acc : List Char) :
    Read (List Piece × Nat × List Char) := do
  if depth ≥ 2 then malformed
  let some (expr, rest) := expressionEnd (cs.length + 1) cs [] [] | malformed
  if expr.all Text.isBlank then malformed
  let (line, col) := Token.advance p.token.line p.token.col (p.chars.take off)
  let value ← embedded r expr line col
  let off := off + 1 + expr.length
  let (echoed, off, rest) := match rest with
    | '=' :: rest' =>
      let blanks := rest'.takeWhile Text.isBlank
      (some (expr ++ '=' :: blanks), off + 1 + blanks.length, rest'.drop blanks.length)
    | _ => (none, off, rest)
  let (conversion, off, rest) ← match rest with
    | '!' :: c :: rest' =>
      if c == 's' || c == 'r' || c == 'a' then pure (some c, off + 2, rest') else malformed
    | _ => pure (none, off, rest)
  let (spec, off, rest) ← match rest with
    | ':' :: rest' => do
      let (ps, off', rest'') ← again (depth + 1) (off + 1) rest' []
      let values ← joinPieces p.first p.token ps []
      pure (some (← make p.token (.joinedStr values)), off', rest'')
    | _ => pure (none, off, rest)
  match rest with
  | '}' :: rest' =>
    let conversion := if echoed.isSome && spec.isNone && conversion.isNone then some 'r' else conversion
    let node ← make p.first (.formatted value conversion spec)
    let before ← textOf p.raw acc.reverse
    let (ps, off', left) ← again depth (off + 1) rest' []
    return (.chars (before ++ echoed.getD []) :: .field node :: ps, off', left)
  | _ => malformed

/-- The pieces of a formatted string from an offset on. In a format specification (`depth` above zero) a
brace is never doubled, and a closing one ends it. -/
def pieces (r : Rules) (p : Place) : Nat → PieceReader
  | 0, _, _, _, _ => malformed
  | n + 1, depth, off, cs, acc => do
    match cs with
    | [] => return ([.chars (← textOf p.raw acc.reverse)], off, [])
    | '\\' :: c :: r' =>
      if p.raw || c == '{' || c == '}' then pieces r p n depth (off + 1) (c :: r') ('\\' :: acc)
      else pieces r p n depth (off + 2) r' (c :: '\\' :: acc)
    | '{' :: '{' :: r' =>
      if depth == 0 then pieces r p n depth (off + 2) r' ('{' :: acc)
      else pieceField r p (pieces r p n) depth off ('{' :: r') acc
    | '{' :: r' => pieceField r p (pieces r p n) depth off r' acc
    | '}' :: r' =>
      if depth > 0 then return ([.chars (← textOf p.raw acc.reverse)], off, cs)
      else
        match r' with
        | '}' :: r'' => pieces r p n depth (off + 2) r'' ('}' :: acc)
        | _ => malformed
    | c :: r' => pieces r p n depth (off + 1) r' (c :: acc)

def stringPieces (r : Rules) (first t : Token) : Read (List Piece × Bool) := do
  let s := splitString t.text
  let raw := s.mark.contains 'r'
  if s.mark.contains 'f' then
    let place : Place := { first, token := t, chars := t.text.toList, raw }
    let (ps, _, _) ← pieces r place (s.content.length + 1) 0 s.offset s.content []
    return (ps, true)
  else return ([.chars (← textOf raw s.content)], false)

def strings (r : Rules) : Read Node := do
  let first ← peek
  let tokens ← loop (fun acc => do
    let t ← peek
    if t.kind == .string then skip; return (acc.push t, true) else return (acc, false)) #[]
  let marks := tokens.map fun t => (splitString t.text).mark
  if marks.any (·.contains 'b') then
    if marks.all (·.contains 'b') then
      let parts ← tokens.toList.mapM fun t => do
        let s := splitString t.text
        bytesOf (s.mark.contains 'r') s.content
      make first (.constant (.bytes parts.flatten) false)
    else malformed
  else
    let parts ← tokens.toList.mapM (stringPieces r first)
    let all := parts.flatMap (·.1)
    if parts.any (·.2) then
      make first (.joinedStr (← joinPieces first first all []))
    else
      let cs := all.flatMap fun
        | .chars cs => cs
        | .field _ => []
      make first (.constant (.str (String.ofList cs)) (marks.getD 0 [] == ['u']))

/-! ### Atoms -/

/-- Goes on with commas up to `close`. -/
def untilClose {α : Type} (close : String) (next : α → Read α) (a : α) : Read α :=
  loop (fun a => do
    if ← tryOp close then return (a, false)
    else
      let a ← next a
      if ← tryOp "," then return (a, true)
      else
        op close
        return (a, false)) a

def itemsUntil {α : Type} (close : String) (item : Read α) (first : List α) : Read (List α) :=
  untilClose close (fun acc => do return acc ++ [← item]) first

/-- What follows in brackets on a first item: it is one of a comprehension, the first of several, or alone. -/
def display (r : Rules) (start : Token) (close : String) (e : Node) (comprehension : List Node → Shape Node)
    (several : List Node → Shape Node) (alone : Read Node) : Read Node := do
  if ← atClause then
    if e.shape matches .starred .. then malformed
    let gens ← clauses r
    op close
    make start (comprehension gens)
  else if ← tryOp "," then make start (several (← itemsUntil close (starNamed r) [e]))
  else
    op close
    alone

def parenthesised (r : Rules) : Read Node := do
  let start ← peek
  op "("
  if ← tryOp ")" then make start (.tuple [] .load)
  else if ← atWord "yield" then
    let e ← yieldExpr r
    op ")"
    return e
  else
    let e ← starNamed r
    display r start ")" e (.generatorExp e) (.tuple · .load) do
      if e.shape matches .starred .. then malformed
      return e

def bracketed (r : Rules) : Read Node := do
  let start ← peek
  op "["
  if ← tryOp "]" then make start (.list [] .load)
  else
    let e ← starNamed r
    display r start "]" e (.listComp e) (.list · .load) (make start (.list [e] .load))

/-- An entry of a dictionary, of which a merged one has no key. -/
def dictEntry (r : Rules) : Read (Option Node × Node) := do
  if ← tryOp "**" then return (none, ← r.bitwiseOr)
  else
    let k ← r.expression
    op ":"
    return (some k, ← r.expression)

def dictEntries (r : Rules) : List (Option Node × Node) → Read (List (Option Node × Node)) :=
  itemsUntil "\x7d" (dictEntry r)

def braced (r : Rules) : Read Node := do
  let start ← peek
  op "\x7b"
  if ← tryOp "\x7d" then make start (.dict [] [])
  else if ← atOp "**" then
    let es ← dictEntries r []
    make start (.dict (es.map (·.1)) (es.map (·.2)))
  else
    let e ← starNamed r
    if ← tryOp ":" then
      let v ← r.expression
      if ← atClause then
        let gens ← clauses r
        op "\x7d"
        make start (.dictComp e v gens)
      else
        let es ← if ← tryOp "," then dictEntries r [(some e, v)]
          else do
            op "\x7d"
            pure [(some e, v)]
        make start (.dict (es.map (·.1)) (es.map (·.2)))
    else display r start "\x7d" e (.setComp e) .set (make start (.set [e]))

def atom (r : Rules) : Read Node := do
  let t ← peek
  match t.kind with
  | .name =>
    if t.text == "True" then skip; make t (.constant (.bool true) false)
    else if t.text == "False" then skip; make t (.constant (.bool false) false)
    else if t.text == "None" then skip; make t (.constant .nothing false)
    else if reserved.contains t.text then refuse
    else skip; make t (.name t.text .load)
  | .number => skip; make t (.constant (Literal.ofNumber t.text) false)
  | .string => strings r
  | .op =>
    match t.text with
    | "(" => parenthesised r
    | "[" => bracketed r
    | "\x7b" => braced r
    | "..." => skip; make t (.constant .ellipsis false)
    | _ => refuse
  | _ => refuse

/-! ### Calls, items and attributes -/

/-- An argument of a call: starred, named, merged, or plain. -/
def argument (r : Rules) : Read Node := do
  let start ← peek
  if ← tryOp "*" then make start (.starred (← r.expression) .load)
  else if ← tryOp "**" then make start (.keyword none (← r.expression))
  else if isIdent start && isOp "=" (← peekAt 1) then
    skip; skip
    make start (.keyword (some start.text) (← r.expression))
  else namedExpression r

def isKeyword (n : Node) : Bool := n.shape matches .keyword ..

def isMerge (n : Node) : Bool := n.shape matches .keyword none _

/-- Plain arguments come before named ones, and starred ones before merged ones. -/
def argumentOrder : List Node → Bool
  | [] => true
  | a :: rest =>
    (if isMerge a then rest.all isKeyword
     else if isKeyword a then rest.all fun b => isKeyword b || b.shape matches .starred ..
     else true) && argumentOrder rest

def callArguments (r : Rules) (start : Token) : Read (List Node × List Node) := do
  let args ← loop (fun acc => do
    if ← tryOp ")" then return (acc, false)
    else
      let a ← argument r
      if ← atClause then
        if isKeyword a || a.shape matches .starred .. then malformed
        let gens ← clauses r
        let g ← make start (.generatorExp a gens)
        if ← tryOp ")" then
          if acc.isEmpty then return ([g], false) else malformed
        else malformed
      else if ← tryOp "," then return (acc ++ [a], true)
      else
        op ")"
        return (acc ++ [a], false)) []
  if argumentOrder args then return (args.filter (!isKeyword ·), args.filter isKeyword) else malformed

def slice (r : Rules) : Read Node := do
  let start ← peek
  if ← atOp "*" then starNamed r
  else
    let lower ← if ← atOp ":" then pure none else pure (some (← namedExpression r))
    if ← tryOp ":" then
      let stops : Read Bool := return (← atOp ":") || (← atOp ",") || (← atOp "]")
      let upper ← if ← stops then pure none else pure (some (← r.expression))
      let step ← if ← tryOp ":" then
          if ← stops then pure none else pure (some (← r.expression))
        else pure none
      make start (.slice lower upper step)
    else
      match lower with
      | some e => return e
      | none => refuse

def itemsTo (stop : Read Bool) (item : Read Node) (first : List Node) : Read (List Node) :=
  loop (fun acc => do
    if ← stop then return (acc, false) else return (acc ++ [← item], ← tryOp ",")) first

/-- What stands between the brackets of an item: one slice, or several as a tuple. -/
def slices (r : Rules) : Read Node := do
  let start ← peek
  let first ← slice r
  if ← tryOp "," then
    make start (.tuple (← itemsTo (atOp "]") (slice r) [first]) .load)
  else if first.shape matches .starred .. then make start (.tuple [first] .load)
  else return first

def primary (r : Rules) : Read Node := do
  let start ← peek
  let first ← atom r
  loop (fun e => do
    let t ← peek
    if ← tryOp "." then
      let a ← ident
      return (← make start (.attribute e a.text .load), true)
    else if ← tryOp "(" then
      let (args, keywords) ← callArguments r t
      return (← make start (.call e args keywords), true)
    else if ← tryOp "[" then
      let i ← slices r
      op "]"
      return (← make start (.subscript e i .load), true)
    else return (e, false)) first

def power (r : Rules) : Read Node := do
  let start ← peek
  let base ← if ← tryWord "await" then do make start (.await (← primary r)) else primary r
  if ← tryOp "**" then make start (.binOp base .pow (← r.factor)) else return base

def factor (r : Rules) : Read Node := do
  let start ← peek
  if ← tryOp "+" then make start (.unaryOp .plus (← r.factor))
  else if ← tryOp "-" then make start (.unaryOp .minus (← r.factor))
  else if ← tryOp "~" then make start (.unaryOp .invert (← r.factor))
  else power r

/-! ### Patterns -/

def numberPattern (r : Rules) : Read Node := do
  let start ← peek
  let signed : Read Node := do
    let s ← peek
    let minus ← tryOp "-"
    let t ← peek
    if t.kind == .number then
      skip
      let n ← make t (.constant (Literal.ofNumber t.text) false)
      if minus then make s (.unaryOp .minus n) else return n
    else refuse
  let left ← signed
  let t ← peek
  if isOp "+" t || isOp "-" t then
    skip
    let right ← signed
    make start (.binOp left (if t.text == "+" then .add else .sub) right)
  else
    let _ := r
    return left

def dottedName : Read Node := do
  let start ← ident
  let first ← make start (.name start.text .load)
  loop (fun e => do
    if ← tryOp "." then
      let a ← ident
      return (← make start (.attribute e a.text .load), true)
    else return (e, false)) first

/-- Arguments of a class pattern, plain ones first. -/
def classArguments (r : Rules) : Read (List Node × List String × List Node) :=
  untilClose ")" (fun (ps, names, kps) => do
    let t ← peek
    if isIdent t && isOp "=" (← peekAt 1) then
      skip; skip
      return (ps, names ++ [t.text], kps ++ [← r.pattern])
    else if names.isEmpty then return (ps ++ [← r.pattern], names, kps)
    else malformed) ([], [], [])

def mappingPattern (r : Rules) (start : Token) : Read Node := do
  let (keys, ps, rest) ← untilClose "\x7d" (fun (keys, ps, rest) => do
    if ← tryOp "**" then
      let t ← ident
      return (keys, ps, some t.text)
    else
      let t ← peek
      let key ← if t.kind == .string then strings r
        else if t.kind == .number || isOp "-" t then numberPattern r
        else if isWord "None" t || isWord "True" t || isWord "False" t then atom r
        else dottedName
      op ":"
      let p ← r.pattern
      return (keys ++ [key], ps ++ [p], rest)) ([], [], none)
  make start (.matchMapping keys ps rest)

def starPattern : Read Node := do
  let start ← peek
  op "*"
  let t ← ident
  make start (.matchStar (if t.text == "_" then none else some t.text))

def patternItems (r : Rules) (close : String) (first : List Node) : Read (List Node) :=
  itemsUntil close (do if ← atOp "*" then starPattern else r.pattern) first

def closedPattern (r : Rules) : Read Node := do
  let t ← peek
  match t.kind with
  | .string => make t (.matchValue (← strings r))
  | .number => make t (.matchValue (← numberPattern r))
  | .name =>
    if t.text == "None" then skip; make t (.matchSingleton .nothing)
    else if t.text == "True" then skip; make t (.matchSingleton (.bool true))
    else if t.text == "False" then skip; make t (.matchSingleton (.bool false))
    else
      let e ← dottedName
      if ← tryOp "(" then
        let (ps, names, kps) ← classArguments r
        make t (.matchClass e ps names kps)
      else
        match e.shape with
        | .name id _ => make t (.matchAs none (if id == "_" then none else some id))
        | _ => make t (.matchValue e)
  | .op =>
    match t.text with
    | "-" => make t (.matchValue (← numberPattern r))
    | "[" =>
      skip
      make t (.matchSequence (← patternItems r "]" []))
    | "(" =>
      skip
      if ← tryOp ")" then make t (.matchSequence [])
      else if ← atOp "*" then
        let p ← starPattern
        if ← tryOp "," then make t (.matchSequence (← patternItems r ")" [p])) else malformed
      else
        let p ← r.pattern
        if ← tryOp "," then make t (.matchSequence (← patternItems r ")" [p]))
        else
          op ")"
          return p
    | "\x7b" =>
      skip
      mappingPattern r t
    | _ => refuse
  | _ => refuse

def pattern (r : Rules) : Read Node := do
  let start ← peek
  let p ← chain (tryOp "|") .matchOr (closedPattern r)
  if ← tryWord "as" then
    let t ← ident
    if t.text == "_" then malformed
    make start (.matchAs (some p) (some t.text))
  else return p

/-- The pattern of a case: several with commas form a sequence. -/
def patterns (r : Rules) : Read Node := do
  let start ← peek
  let item : Read Node := do if ← atOp "*" then starPattern else pattern r
  let first ← item
  if ← tryOp "," then
    make start (.matchSequence (← itemsTo (do return (← atOp ":") || (← atWord "if")) item [first]))
  else if first.shape matches .matchStar _ then malformed
  else return first

/-! ### Simple statements -/

def augmentedOps : List (String × BinOp) :=
  [("+=", .add), ("-=", .sub), ("*=", .mult), ("@=", .matMult), ("/=", .div), ("%=", .mod), ("&=", .bitAnd),
   ("|=", .bitOr), ("^=", .bitXor), ("<<=", .lShift), (">>=", .rShift), ("**=", .pow), ("//=", .floorDiv)]

def isSingleTarget (e : Node) : Bool :=
  match e.shape with
  | .name .. | .attribute .. | .subscript .. => true
  | _ => false

def expressionStatement (r : Rules) : Read Node := do
  let start ← peek
  let e ← yieldOrStar r
  let t ← peek
  if isOp "=" t then
    let (targets, value) ← loop (fun (targets, value) => do
      if ← tryOp "=" then
        let next ← yieldOrStar r
        return ((targets ++ [← target .store value], next), true)
      else return ((targets, value), false)) (([], e) : List Node × Node)
    make start (.assign targets value)
  else if isOp ":" t then
    if !isSingleTarget e then malformed
    skip
    let hint ← r.expression
    let value ← if ← tryOp "=" then pure (some (← yieldOrStar r)) else pure none
    let simple := e.isName && !isOp "(" start
    make start (.annAssign (← target .store e) hint value simple)
  else
    match augmentedOps.find? fun (o, _) => isOp o t with
    | some (_, o) =>
      if !isSingleTarget e then malformed
      skip
      make start (.augAssign (← target .store e) o (← yieldOrStar r))
    | none => make start (.exprStmt e)

def dottedText : Read String := do
  let t ← ident
  loop (fun s => do
    if ← tryOp "." then return (s ++ "." ++ (← ident).text, true) else return (s, false)) t.text

def importAlias (name : Read String) : Read Node := do
  let t ← peek
  let n ← name
  if ← tryWord "as" then make t (.alias n (some (← ident).text)) else make t (.alias n none)

def commaList {α : Type} (item : Read α) : Read (List α) := do
  more (tryOp ",") item [← item]

def importFrom (start : Token) : Read Node := do
  let level ← loop (fun n => do
    if ← tryOp "." then return (n + 1, true)
    else if ← tryOp "..." then return (n + 3, true)
    else return (n, false)) 0
  let source ← if level > 0 && (← atWord "import") then pure none else pure (some (← dottedText))
  word "import"
  let one : Read Node := importAlias identText
  let t ← peek
  if ← tryOp "*" then make start (.importFrom source [← make t (.alias "*" none)] level)
  else if ← tryOp "(" then
    let names ← itemsUntil ")" one []
    if names.isEmpty then malformed
    make start (.importFrom source names level)
  else make start (.importFrom source (← commaList one) level)

def endsLine (t : Token) : Bool := t.kind == .newline || t.kind == .stop

def endsSimple (t : Token) : Bool := endsLine t || isOp ";" t

def simpleStatement (r : Rules) : Read Node := do
  let t ← peek
  if t.kind != .name then expressionStatement r
  else
    match t.text with
    | "pass" => skip; make t .pass
    | "break" => skip; make t .breakLoop
    | "continue" => skip; make t .continueLoop
    | "return" =>
      skip
      if endsSimple (← peek) then make t (.ret none) else make t (.ret (some (← starExpressions r)))
    | "raise" =>
      skip
      if endsSimple (← peek) then make t (.raise none none)
      else
        let e ← r.expression
        if ← tryWord "from" then make t (.raise (some e) (some (← r.expression)))
        else make t (.raise (some e) none)
    | "global" => skip; make t (.global (← commaList identText))
    | "nonlocal" => skip; make t (.nonlocal (← commaList identText))
    | "del" =>
      skip
      let es ← more (do return (← tryOp ",") && !endsSimple (← peek)) r.bitwiseOr [← r.bitwiseOr]
      make t (.delete (← es.mapM (target .del)))
    | "assert" =>
      skip
      let test ← r.expression
      if ← tryOp "," then make t (.assert test (some (← r.expression))) else make t (.assert test none)
    | "import" =>
      skip
      make t (.importNames (← commaList (importAlias dottedText)))
    | "from" =>
      skip
      importFrom t
    | _ => expressionStatement r

def simpleStatements (r : Rules) : Read (List Node) := do
  let all ← more (do return (← tryOp ";") && !endsLine (← peek)) (simpleStatement r) [← simpleStatement r]
  let t ← peek
  if t.kind == .newline then skip; return all
  else if t.kind == .stop then return all
  else refuse

/-! ### Compound statements -/

/-- The block after a colon: on the same line, or indented on the following ones. -/
def block (r : Rules) : Read (List Node) := do
  op ":"
  let t ← peek
  if t.kind == .newline then
    skip
    if (← peek).kind != .indent then throw (.bare .badIndent)
    skip
    let body ← r.statements
    if (← peek).kind == .dedent then skip; return body
    else refuse
  else simpleStatements r

def elseBlock (r : Rules) : Read (List Node) := do
  if ← tryWord "else" then r.block else return []

def condRest (r : Rules) : Read Node := do
  let start ← peek
  skip
  let test ← r.namedExpression
  let body ← r.block
  if ← atWord "elif" then make start (.cond test body [← r.elifRest])
  else make start (.cond test body (← elseBlock r))

def whileStatement (r : Rules) (start : Token) : Read Node := do
  let test ← r.namedExpression
  let body ← r.block
  make start (.whileLoop test body (← elseBlock r))

def forStatement (r : Rules) : Read (Loop Node) := do
  let t ← loopTargets r
  word "in"
  let iter ← starExpressions r
  let body ← r.block
  return { target := t, iter, body, orelse := ← elseBlock r }

def withItem (r : Rules) : Read Node := do
  let context ← r.expression
  if ← tryWord "as" then
    let start ← peek
    let t ← if ← tryOp "*" then make start (.starred (← r.bitwiseOr) .load) else r.bitwiseOr
    makeUnplaced (.withItem context (some (← target .store t)))
  else makeUnplaced (.withItem context none)

/-- The items of a `with`, which may stand in brackets of their own. -/
def withItems (r : Rules) : Read (List Node) := do
  let bracketedItems : Read (List Node) := do
    op "("
    let items ← itemsUntil ")" (withItem r) []
    if items.isEmpty || !(← atOp ":") then malformed
    return items
  match ← attempt? bracketedItems with
  | some items => return items
  | none => commaList (withItem r)

def exceptHandler (r : Rules) : Read (Node × Bool) := do
  let start ← peek
  word "except"
  let star ← tryOp "*"
  if ← atOp ":" then
    if star then malformed
    let body ← r.block
    return (← make start (.exceptHandler none none body), star)
  else
    let e ← r.expression
    let name ← if ← tryWord "as" then pure (some (← ident).text) else pure none
    let body ← r.block
    return (← make start (.exceptHandler (some e) name body), star)

def tryStatement (r : Rules) (start : Token) : Read Node := do
  let body ← r.block
  let handlers ← more (atWord "except") (exceptHandler r) []
  let orelse ← if handlers.isEmpty then pure [] else elseBlock r
  let final ← if ← tryWord "finally" then r.block else pure []
  if handlers.isEmpty && final.isEmpty then malformed
  let t : Attempt Node := { body, handlers := handlers.map (·.1), orelse, final }
  if handlers.any (·.2) then
    if handlers.all (·.2) then make start (.attemptStar t) else malformed
  else make start (.attempt t)

def functionRest (r : Rules) (decorators : List Node) : Read (Function Node) := do
  let name ← ident
  op "("
  let args ← parameters r true ")"
  op ")"
  let returns ← if ← tryOp "->" then pure (some (← r.expression)) else pure none
  let body ← r.block
  return { name := name.text, args, body, decorators, returns }

def classRest (r : Rules) (decorators : List Node) : Read (Class Node) := do
  let name ← ident
  let t ← peek
  let (bases, keywords) ← if ← tryOp "(" then callArguments r t else pure ([], [])
  let body ← r.block
  return { name := name.text, bases, keywords, body, decorators }

def caseBlock (r : Rules) : Read Node := do
  word "case"
  let p ← r.patterns
  let guard ← if ← tryWord "if" then pure (some (← r.namedExpression)) else pure none
  let body ← r.block
  makeUnplaced (.matchCase p guard body)

def subjectExpr (r : Rules) : Read Node := tupleOf (starNamed r)

/-- A `match` statement; the word is not reserved, so anything else that starts with it is left alone. -/
def matchStatement? (r : Rules) : Read (Option Node) := do
  let start ← peek
  if !isWord "match" start then return none
  let head : Read Node := do
    skip
    let subject ← subjectExpr r
    op ":"
    if (← peek).kind != .newline then malformed
    skip
    if (← peek).kind != .indent then malformed
    skip
    if !(← atWord "case") then malformed
    return subject
  match ← attempt? head with
  | none => return none
  | some subject =>
    let cases ← more (atWord "case") (caseBlock r) []
    if (← peek).kind == .dedent then skip; return some (← make start (.matchOn subject cases))
    else refuse

def definition (r : Rules) (decorators : List Node) : Read Node := do
  let t ← peek
  if ← tryWord "def" then make t (.functionDef (← functionRest r decorators))
  else if ← tryWord "class" then make t (.classDef (← classRest r decorators))
  else if isWord "async" t && isWord "def" (← peekAt 1) then
    skip; skip
    make t (.asyncFunctionDef (← functionRest r decorators))
  else refuse

def decorated (r : Rules) : Read Node := do
  let decorators ← more (tryOp "@") (do
    let e ← r.namedExpression
    if (← peek).kind != .newline then refuse
    skip
    return e) []
  definition r decorators

def statement (r : Rules) : Read (List Node) := do
  let t ← peek
  if isOp "@" t then return [← decorated r]
  else if t.kind != .name then simpleStatements r
  else
    match t.text with
    | "if" => return [← condRest r]
    | "while" => skip; return [← whileStatement r t]
    | "for" =>
      skip
      let l ← forStatement r
      return [← make t (.forLoop l)]
    | "with" =>
      skip
      let items ← withItems r
      return [← make t (.withBlock items (← r.block))]
    | "try" => skip; return [← tryStatement r t]
    | "def" | "class" => return [← definition r []]
    | "async" =>
      let next ← peekAt 1
      if isWord "for" next then
        skip; skip
        let l ← forStatement r
        return [← make t (.asyncFor l)]
      else if isWord "with" next then
        skip; skip
        let items ← withItems r
        return [← make t (.asyncWith items (← r.block))]
      else return [← definition r []]
    | "match" =>
      match ← matchStatement? r with
      | some s => return [s]
      | none => simpleStatements r
    | _ => simpleStatements r

def statements (r : Rules) : Read (List Node) :=
  loop (fun acc => do
    let t ← peek
    if t.kind == .dedent || t.kind == .stop then return (acc, false)
    else return (acc ++ (← statement r), true)) []

def Rules.none : Rules :=
  { expression := malformed, namedExpression := malformed, inversion := malformed, factor := malformed,
    bitwiseOr := malformed, statements := malformed, block := malformed, elifRest := malformed,
    pattern := malformed, patterns := malformed, argument := malformed }

/-- The rules, of which each may be entered at most `n` levels deep. -/
def Rules.upTo : Nat → Rules
  | 0 => .none
  | n + 1 =>
    { expression := fun s => Grammar.expression (upTo n) s
      namedExpression := fun s => Grammar.namedExpression (upTo n) s
      inversion := fun s => Grammar.inversion (upTo n) s
      factor := fun s => Grammar.factor (upTo n) s
      bitwiseOr := fun s => Grammar.bitwiseOr (upTo n) s
      statements := fun s => Grammar.statements (upTo n) s
      block := fun s => Grammar.block (upTo n) s
      elifRest := fun s => Grammar.condRest (upTo n) s
      pattern := fun s => Grammar.pattern (upTo n) s
      patterns := fun s => Grammar.patterns (upTo n) s
      argument := fun s => Grammar.argument (upTo n) s }

def program (r : Rules) : Read (List Node) := do
  let body ← statements r
  if (← peek).kind == .stop then return body else refuse

/-- Reads a program as a module; new nodes are numbered from `next` on. -/
def read (next : NodeId) (source : String) : Except Fault (Node × NodeId) := do
  let tokens ← Token.scan source
  let fuel := source.length + 10
  match program (Rules.upTo fuel) { tokens, pos := 0, next } with
  | .ok body s => return (⟨s.next, none, none, .module body⟩, s.next + 1)
  | .error f _ => throw f

def readExpression (text : String) : Except Fault Node := do
  let cs := text.toList.dropWhile fun c => c == ' ' || c == '\t'
  let tokens ← Token.scan (String.ofList cs)
  let whole : Read Node := do
    let e ← starExpressions (Rules.upTo (text.length + 10))
    let t ← peek
    if t.kind == .newline || t.kind == .stop then return e else refuse
  match whole { tokens, pos := 0, next := 0 } with
  | .ok e _ => return e
  | .error f _ => throw f

end Polyglot.Grammar
