/-!
# Blanks and lines

Blanks are the white space of the whole character set, not only of ASCII. A text is cut into lines at
every line break, of which a carriage return followed by a line feed is one.
-/
namespace Polyglot.Text

def isBlank (c : Char) : Bool :=
  let n := c.toNat
  (9 ≤ n && n ≤ 13) || (0x1c ≤ n && n ≤ 0x20) || n == 0x85 || n == 0xa0 || n == 0x1680 ||
    (0x2000 ≤ n && n ≤ 0x200a) || n == 0x2028 || n == 0x2029 || n == 0x202f || n == 0x205f || n == 0x3000

def isLineBreak (c : Char) : Bool :=
  let n := c.toNat
  (10 ≤ n && n ≤ 13) || (0x1c ≤ n && n ≤ 0x1e) || n == 0x85 || n == 0x2028 || n == 0x2029

def dropEnd (p : Char → Bool) (cs : List Char) : List Char :=
  (cs.reverse.dropWhile p).reverse

def strip (s : String) : String := String.ofList (dropEnd isBlank (s.toList.dropWhile isBlank))

/-- The lines of a text, where `acc` holds the current line backwards and `open` says whether a
current line has begun. -/
def linesFrom : List Char → List Char → Bool → List String
  | [], acc, started => if started then [String.ofList acc.reverse] else []
  | '\r' :: '\n' :: r, acc, _ => String.ofList acc.reverse :: linesFrom r [] false
  | c :: r, acc, _ =>
    if isLineBreak c then String.ofList acc.reverse :: linesFrom r [] false
    else linesFrom r (c :: acc) true

def splitLines (s : String) : List String := linesFrom s.toList [] false

def plainBreaks (s : String) : String := String.ofList (go s.toList)
where
  go : List Char → List Char
    | [] => []
    | '\r' :: '\n' :: r => '\n' :: go r
    | c :: r => (if c == '\r' then '\n' else c) :: go r

/-- The maximal runs of characters that are no blanks. -/
def words (s : String) : List String :=
  (go s.toList []).filterMap fun w => if w.isEmpty then none else some (String.ofList w)
where
  go : List Char → List Char → List (List Char)
    | [], acc => [acc.reverse]
    | c :: r, acc => if isBlank c then acc.reverse :: go r [] else go r (c :: acc)

end Polyglot.Text
