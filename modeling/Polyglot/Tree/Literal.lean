import Polyglot.Tree.Basic
import Polyglot.Tree.Token
import Polyglot.Text.Quoted
import Polyglot.Decimal.Shortest

/-!
# Literals: from their spelling to their value, and back
-/
namespace Polyglot.Literal

def digitValue (c : Char) : Nat :=
  if c.isDigit then c.toNat - '0'.toNat
  else if 'a' ≤ c && c ≤ 'f' then c.toNat - 'a'.toNat + 10
  else c.toNat - 'A'.toNat + 10

def ofDigits (base : Nat) (cs : List Char) : Nat :=
  cs.foldl (fun n c => n * base + digitValue c) 0

/-- The double nearest to `m * 10 ^ e`. Exponents far out of range need no big powers. -/
def decimalValue (m : Nat) (e : Int) : Float :=
  let width := Int.ofNat (Nat.toDigits 10 m).length
  if m == 0 then 0.0
  else if e + width > 400 then 1.0 / 0.0
  else if e + width < -400 then 0.0
  else if 0 ≤ e then Float.ofScientific m false e.toNat
  else Float.ofScientific m true (-e).toNat

def floatOf (cs : List Char) : Float :=
  let mantissa := cs.takeWhile fun c => c != 'e' && c != 'E'
  let exponent := (cs.drop mantissa.length).drop 1
  let whole := mantissa.takeWhile (· != '.')
  let fraction := (mantissa.drop whole.length).drop 1
  let e : Int := match exponent with
    | '-' :: ds => -Int.ofNat (ofDigits 10 ds)
    | '+' :: ds => Int.ofNat (ofDigits 10 ds)
    | ds => Int.ofNat (ofDigits 10 ds)
  decimalValue (ofDigits 10 (whole ++ fraction)) (e - Int.ofNat fraction.length)

def ofNumber (text : String) : Literal :=
  let cs := text.toList.filter (· != '_')
  match cs with
  | '0' :: x :: ds =>
    if x == 'x' || x == 'X' then .int (ofDigits 16 ds)
    else if x == 'o' || x == 'O' then .int (ofDigits 8 ds)
    else if x == 'b' || x == 'B' then .int (ofDigits 2 ds)
    else decimal cs
  | _ => decimal cs
where
  decimal (cs : List Char) : Literal :=
    match cs.getLast? with
    | some c =>
      if c == 'j' || c == 'J' then .imaginary (floatOf cs.dropLast)
      else if cs.any fun c => c == '.' || c == 'e' || c == 'E' then .float (floatOf cs)
      else .int (ofDigits 10 cs)
    | none => .int 0

/-- Exactly `n` hexadecimal digits and the rest. -/
def hexRun (n : Nat) (cs : List Char) : Option (Nat × List Char) :=
  let ds := cs.take n
  if ds.length == n && ds.all Token.isHexDigit then some (ofDigits 16 ds, cs.drop n) else none

def octRun (cs : List Char) : Nat × List Char :=
  let ds := (cs.take 3).takeWhile Token.isOctDigit
  (ofDigits 8 ds, cs.drop ds.length)

def simpleEscape : Char → Option (List Char)
  | '\n' => some []
  | '\\' => some ['\\']
  | '\'' => some ['\'']
  | '"' => some ['"']
  | 'a' => some ['\x07']
  | 'b' => some ['\x08']
  | 'f' => some ['\x0c']
  | 'n' => some ['\n']
  | 'r' => some ['\r']
  | 't' => some ['\t']
  | 'v' => some ['\x0b']
  | _ => none

/-- A character by its code; codes that are no characters become the replacement character. -/
def charOf (n : Nat) : Option Char :=
  if n > 0x10ffff then none
  else if 0xd800 ≤ n && n < 0xe000 then some '�'
  else some (Char.ofNat n)

/-- Undoes the escapes of a literal. Escapes by code point beyond a byte exist only in texts; a backslash
before any other character stands for itself. -/
def unescape (isText : Bool) : Nat → List Char → Option (List Char)
  | 0, _ => some []
  | _, [] => some []
  | n + 1, '\\' :: c :: r =>
    match simpleEscape c with
    | some cs => (unescape isText n r).map (cs ++ ·)
    | none =>
      if Token.isOctDigit c then
        let (v, r') := octRun (c :: r)
        (unescape isText n r').map (Char.ofNat (if isText then v else v % 256) :: ·)
      else
        let width := if c == 'x' then 2 else if c == 'u' then 4 else if c == 'U' then 8 else 0
        if width == 2 || (isText && width > 0) then do
          let (v, r') ← hexRun width r
          let ch ← charOf v
          (unescape isText n r').map (ch :: ·)
        else if isText && c == 'N' then none
        else (unescape isText n r).map ('\\' :: c :: ·)
  | n + 1, c :: r => (unescape isText n r).map (c :: ·)

/-- What a value is called when it is printed inside another text. -/
def shown : Literal → String
  | .nothing => "None"
  | .ellipsis => "Ellipsis"
  | .bool b => if b then "True" else "False"
  | .int n => toString n
  | .float x => Decimal.write Decimal.plain x
  | .imaginary x => Decimal.write Decimal.pointless x ++ "j"
  | .str s => s
  | .bytes bs => Text.quotedBytes bs

/-- As `shown`, but texts are quoted. -/
def quotedText : Literal → String
  | .str s => Text.quoted s
  | l => l.shown

/-- Whether a value counts as true in a condition. -/
def truthy : Literal → Bool
  | .nothing => false
  | .ellipsis => true
  | .bool b => b
  | .int n => n != 0
  | .float x => x != 0.0
  | .imaginary x => x != 0.0
  | .str s => !s.isEmpty
  | .bytes bs => !bs.isEmpty

/-- Whether a value is an integer, truth values included. -/
def isWhole : Literal → Bool
  | .int _ | .bool _ => true
  | _ => false

def isStr : Literal → Bool
  | .str _ => true
  | _ => false

end Polyglot.Literal
