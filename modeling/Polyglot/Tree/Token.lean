import Polyglot.Fault
import Polyglot.Text.Letter
import Polyglot.Text.Search

/-!
# Tokens

A program text is cut into tokens. Layout is made explicit: the end of a logical line, and every change
of indentation between logical lines, is a token. Inside brackets line ends mean nothing.
-/
namespace Polyglot

inductive Token.Kind where
  | name | number | string | op | newline | indent | dedent | stop
  deriving DecidableEq, Inhabited

/-- A token with its text and where it starts: line from one, column in bytes from zero. -/
structure Token where
  kind : Token.Kind
  text : String
  line : Nat
  col : Nat
  deriving Inhabited

namespace Token

def advance (line col : Nat) (cs : List Char) : Nat × Nat :=
  cs.foldl (fun (l, k) c => if c == '\n' then (l + 1, 0) else (l, k + c.utf8Size)) (line, col)

def operators : List String :=
  ["**=", "//=", ">>=", "<<=", "...", "!=", "->", ":=", "==", "<=", ">=", "+=", "-=", "*=", "/=", "%=",
   "&=", "|=", "^=", "@=", "**", "//", "<<", ">>", "+", "-", "*", "/", "%", "@", "&", "|", "^", "~",
   "<", ">", "=", "(", ")", "[", "]", "\x7b", "\x7d", ",", ":", ".", ";"]

def operator? (cs : List Char) : Option (String × List Char) :=
  operators.findSome? fun o => (Text.afterPrefix? o.toList cs).map fun rest => (o, rest)

def stringMarks : List String := ["r", "b", "u", "f", "rb", "br", "fr", "rf"]

/-- Reads a string up to its closing quote. A backslash protects the character after it; only a string in
triple quotes may run over a line end. -/
def stringBody (quote : Char) (triple : Bool) : List Char → List Char → Option (List Char × List Char)
  | [], _ => none
  | '\\' :: c :: r, acc => stringBody quote triple r (c :: '\\' :: acc)
  | c :: r, acc =>
    if c == quote then
      if triple then
        match r with
        | c₁ :: c₂ :: r' =>
          if c₁ == quote && c₂ == quote then some ((quote :: quote :: quote :: acc).reverse, r')
          else stringBody quote triple r (c :: acc)
        | _ => none
      else some ((quote :: acc).reverse, r)
    else if c == '\n' && !triple then none
    else stringBody quote triple r (c :: acc)

def stringFrom : List Char → Option (List Char × List Char)
  | '"' :: '"' :: '"' :: r => stringBody '"' true r ['"', '"', '"']
  | '\'' :: '\'' :: '\'' :: r => stringBody '\'' true r ['\'', '\'', '\'']
  | '"' :: r => stringBody '"' false r ['"']
  | '\'' :: r => stringBody '\'' false r ['\'']
  | _ => none

/-- Digits of a class, where single underscores may stand between two digits. -/
def digitRun (p : Char → Bool) : List Char → List Char × List Char
  | c :: '_' :: d :: r =>
    if p c && p d then
      let (a, b) := digitRun p (d :: r)
      (c :: '_' :: a, b)
    else if p c then ([c], '_' :: d :: r) else ([], c :: '_' :: d :: r)
  | c :: r =>
    if p c then
      let (a, b) := digitRun p r
      (c :: a, b)
    else ([], c :: r)
  | [] => ([], [])

def isBinDigit (c : Char) : Bool := c == '0' || c == '1'
def isOctDigit (c : Char) : Bool := '0' ≤ c && c ≤ '7'
def isHexDigit (c : Char) : Bool := c.isDigit || ('a' ≤ c && c ≤ 'f') || ('A' ≤ c && c ≤ 'F')

/-- The digits after a base mark such as `0x`; an underscore may follow the mark. -/
def basedDigits (p : Char → Bool) (r : List Char) : Option (List Char × List Char) :=
  let (lead, r') := match r with
    | '_' :: r' => (['_'], r')
    | _ => ([], r)
  match digitRun p r' with
  | ([], _) => none
  | (ds, rest) => some (lead ++ ds, rest)

def exponentPart : List Char → List Char × List Char
  | e :: r =>
    if e == 'e' || e == 'E' then
      let (sign, r') := match r with
        | '+' :: r' => (['+'], r')
        | '-' :: r' => (['-'], r')
        | _ => ([], r)
      match digitRun Char.isDigit r' with
      | ([], _) => ([], e :: r)
      | (ds, rest) => (e :: sign ++ ds, rest)
    else ([], e :: r)
  | [] => ([], [])

/-- The words that may follow a number without a blank. -/
def afterNumber : List String := ["and", "else", "for", "if", "in", "is", "not", "or"]

def endsNumber (rest : List Char) : Bool :=
  match rest with
  | [] => true
  | c :: _ =>
    if Text.isNameRest c then afterNumber.any fun w => (Text.afterPrefix? w.toList rest).isSome
    else true

def numberFrom (cs : List Char) : Option (List Char × List Char) := do
  let (text, rest) ← match cs with
    | '0' :: x :: r =>
      if x == 'x' || x == 'X' then (basedDigits isHexDigit r).map fun (d, rest) => ('0' :: x :: d, rest)
      else if x == 'o' || x == 'O' then (basedDigits isOctDigit r).map fun (d, rest) => ('0' :: x :: d, rest)
      else if x == 'b' || x == 'B' then (basedDigits isBinDigit r).map fun (d, rest) => ('0' :: x :: d, rest)
      else decimal cs
    | _ => decimal cs
  if endsNumber rest then some (text, rest) else none
where
  decimal (cs : List Char) : Option (List Char × List Char) :=
    let (whole, r) := digitRun Char.isDigit cs
    let (point, r) := match r with
      | '.' :: r' =>
        let (frac, r'') := digitRun Char.isDigit r'
        ('.' :: frac, r'')
      | _ => ([], r)
    let (expo, r) := exponentPart r
    let (unit, r) := match r with
      | c :: r' => if c == 'j' || c == 'J' then ([c], r') else ([], r)
      | [] => ([], r)
    let isWhole := point.isEmpty && expo.isEmpty && unit.isEmpty
    if isWhole && whole.head? == some '0' && whole.any (fun c => c != '0' && c != '_') then none
    else some (whole ++ point ++ expo ++ unit, r)

structure Scan where
  rest : List Char
  line : Nat
  col : Nat
  brackets : List Char
  /-- Columns of the open blocks, counted with tabs as up to eight blanks and as one, innermost first. -/
  indents : List (Nat × Nat)
  fresh : Bool
  tokens : Array Token

def Scan.emit (s : Scan) (kind : Kind) (text : List Char) (rest : List Char) : Scan :=
  let (line, col) := advance s.line s.col text
  { s with rest, line, col, tokens := s.tokens.push ⟨kind, String.ofList text, s.line, s.col⟩ }

def Scan.skip (s : Scan) (text : List Char) (rest : List Char) : Scan :=
  let (line, col) := advance s.line s.col text
  { s with rest, line, col }

def Scan.mark (s : Scan) (kind : Kind) : Scan :=
  { s with tokens := s.tokens.push ⟨kind, "", s.line, s.col⟩ }

/-- The width of the blanks at the start of a line, counted both ways, and what follows. -/
def margin : List Char → Nat → Nat → Nat → Nat × Nat × Nat × List Char
  | ' ' :: r, k, a, n => margin r (k + 1) (a + 1) (n + 1)
  | '\t' :: r, k, a, n => margin r ((k / 8 + 1) * 8) (a + 1) (n + 1)
  | '\x0c' :: r, _, _, n => margin r 0 0 (n + 1)
  | '\\' :: '\n' :: r, k, a, n =>
    let (_, _, n', r') := margin r 0 0 (n + 2)
    (k, a, n', r')
  | r, k, a, n => (k, a, n, r)

def closeBlocks (k a : Nat) : List (Nat × Nat) → Nat → Except Fault (List (Nat × Nat) × Nat)
  | [], _ => .error (.bare .badIndent)
  | (k', a') :: r, n =>
    if k == k' then (if a == a' then .ok ((k', a') :: r, n) else .error (.bare .badTab))
    else if k < k' then closeBlocks k a r (n + 1)
    else .error (.bare .badIndent)

def Scan.begin (s : Scan) : Except Fault Scan :=
  let (k, a, n, r) := margin s.rest 0 0 0
  let s' := s.skip (s.rest.take n) r
  match r with
  | [] => .ok { s' with fresh := false }
  | '\n' :: r' => .ok (s'.skip ['\n'] r')
  | '#' :: _ =>
    let comment := r.takeWhile (· != '\n')
    .ok (s'.skip comment (r.drop comment.length))
  | _ =>
    match s.indents with
    | [] => .ok { s' with fresh := false }
    | (k₀, a₀) :: _ =>
      if k == k₀ then if a == a₀ then .ok { s' with fresh := false } else .error (.bare .badTab)
      else if k > k₀ then
        if a > a₀ then .ok { s'.mark .indent with fresh := false, indents := (k, a) :: s.indents }
        else .error (.bare .badTab)
      else do
        let (indents, closed) ← closeBlocks k a s.indents 0
        let t := (List.range closed).foldl (fun t _ => t.mark .dedent) s'
        return { t with fresh := false, indents }

def closerOf : Char → Char
  | '(' => ')'
  | '[' => ']'
  | _ => '}'

def Scan.bracket (s : Scan) (o : String) : Except Fault Scan :=
  match o.toList with
  | [c] =>
    if c == '(' || c == '[' || c == '{' then .ok { s with brackets := c :: s.brackets }
    else if c == ')' || c == ']' || c == '}' then
      match s.brackets with
      | b :: bs => if closerOf b == c then .ok { s with brackets := bs } else .error (.bare .malformed)
      | [] => .error (.bare .malformed)
    else .ok s
  | _ => .ok s

def Scan.token (s : Scan) : Except Fault Scan :=
  match s.rest with
  | [] => .ok s
  | '\n' :: r =>
    if s.brackets.isEmpty then
      .ok { s.emit .newline ['\n'] r with fresh := true }
    else .ok (s.skip ['\n'] r)
  | '\\' :: '\n' :: r => .ok (s.skip ['\\', '\n'] r)
  | c :: r =>
    if c == ' ' || c == '\t' || c == '\x0c' then .ok (s.skip [c] r)
    else if c == '#' then
      let comment := s.rest.takeWhile (· != '\n')
      .ok (s.skip comment (s.rest.drop comment.length))
    else if Text.isNameStart c then
      let word := s.rest.takeWhile Text.isNameRest
      let after := s.rest.drop word.length
      let marks := stringMarks.contains (String.ofList (word.map Char.toLower))
      match after with
      | q :: _ =>
        if (q == '"' || q == '\'') && marks then
          match stringFrom after with
          | some (body, rest) => .ok (s.emit .string (word ++ body) rest)
          | none => .error (.bare .malformed)
        else .ok (s.emit .name word after)
      | [] => .ok (s.emit .name word after)
    else if c == '"' || c == '\'' then
      match stringFrom s.rest with
      | some (body, rest) => .ok (s.emit .string body rest)
      | none => .error (.bare .malformed)
    else if c.isDigit || (c == '.' && (r.head?.map Char.isDigit).getD false) then
      match numberFrom s.rest with
      | some (text, rest) => .ok (s.emit .number text rest)
      | none => .error (.bare .malformed)
    else
      match operator? s.rest with
      | some (o, rest) => (s.emit .op o.toList rest).bracket o
      | none => .error (.bare .malformed)

def Scan.finish (s : Scan) : Except Fault (Array Token) :=
  if !s.brackets.isEmpty then .error (.bare .malformed)
  else
    let s : Scan := match s.tokens.back? with
      | some t => if t.kind == .newline then s else s.mark .newline
      | none => s
    let s : Scan := s.indents.foldl (fun s (k, _) => if k == 0 then s else s.mark .dedent) s
    .ok (s.mark .stop).tokens

def scanAll : Nat → Scan → Except Fault (Array Token)
  | 0, s => s.finish
  | n + 1, s =>
    if s.rest.isEmpty then s.finish
    else do
      let s' ← if s.fresh && s.brackets.isEmpty then s.begin else s.token
      scanAll n s'

/-- Line ends are line feeds, however they were written. -/
def unixLines : List Char → List Char
  | '\r' :: '\n' :: r => '\n' :: unixLines r
  | '\r' :: r => '\n' :: unixLines r
  | c :: r => c :: unixLines r
  | [] => []

/-- The tokens of a text whose first character stands at the given place. -/
def scanAt (line col : Nat) (cs : List Char) : Except Fault (Array Token) :=
  scanAll (2 * cs.length + 2)
    { rest := cs, line, col, brackets := [], indents := [(0, 0)], fresh := true, tokens := #[] }

def scan (source : String) : Except Fault (Array Token) :=
  let cs := unixLines source.toList
  if cs.contains '\x00' then .error (.bare .malformed) else scanAt 1 0 cs

end Token
end Polyglot
