import Polyglot.Text.Printable
import Polyglot.Text.Search

/-!
# Quoted literals

A text or a sequence of bytes in quotes, with everything that cannot be shown escaped. The quote is the
single one, unless that stands in the text and the double one does not.
-/
namespace Polyglot.Text

def hexDigit (n : Nat) : Char := ("0123456789abcdef".toList.getD n '0')

/-- The `width` last hexadecimal digits of a number. -/
def hexFixed (width n : Nat) : String :=
  String.ofList ((List.range width).reverse.map fun i => hexDigit (n / Nat.pow 16 i % 16))

def hex (n : Nat) : String := String.ofList (Nat.toDigits 16 n)

def escapeCode (c : Char) : String :=
  let n := c.toNat
  if c == '\n' then "\\n" else if c == '\r' then "\\r" else if c == '\t' then "\\t"
  else if n < 0x100 then "\\x" ++ hexFixed 2 n
  else if n < 0x10000 then "\\u" ++ hexFixed 4 n
  else "\\U" ++ hexFixed 8 n

def quoteFor (single double : Bool) : Char := if single && !double then '"' else '\''

def quotedChar (quote c : Char) : String :=
  if c == quote || c == '\\' then String.ofList ['\\', c]
  else if isPrintable c then c.toString else escapeCode c

def quoted (s : String) : String :=
  let q := quoteFor (s.contains '\'') (s.contains '"')
  q.toString ++ String.join (s.toList.map (quotedChar q)) ++ q.toString

def quotedByte (quote : Char) (b : UInt8) : String :=
  let c := Char.ofNat b.toNat
  if c == quote || c == '\\' then String.ofList ['\\', c]
  else if 0x20 ≤ b.toNat && b.toNat < 0x7f then c.toString
  else escapeCode c

def quotedBytes (bs : List UInt8) : String :=
  let q := quoteFor (bs.contains 39) (bs.contains 34)
  "b" ++ q.toString ++ String.join (bs.map (quotedByte q)) ++ q.toString

end Polyglot.Text
