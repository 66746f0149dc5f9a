import Polyglot.Text.Blank

/-!
# Finding and replacing in texts
-/
namespace Polyglot.Text

def afterPrefix? : List Char → List Char → Option (List Char)
  | [], cs => some cs
  | _ :: _, [] => none
  | p :: ps, c :: cs => if p == c then afterPrefix? ps cs else none

def cutChars (pat : List Char) : List Char → Option (List Char × List Char)
  | [] => if pat.isEmpty then some ([], []) else none
  | c :: cs =>
    match afterPrefix? pat (c :: cs) with
    | some rest => some ([], rest)
    | none => (cutChars pat cs).map fun (a, b) => (c :: a, b)

def cut? (s pat : String) : Option (String × String) :=
  (cutChars pat.toList s.toList).map fun (a, b) => (String.ofList a, String.ofList b)

def cutLast? (s pat : String) : Option (String × String) :=
  (cutChars pat.toList.reverse s.toList.reverse).map fun (a, b) =>
    (String.ofList b.reverse, String.ofList a.reverse)

def occursIn (pat s : String) : Bool := (cut? s pat).isSome

def startsWith (s pat : String) : Bool := (afterPrefix? pat.toList s.toList).isSome

def endsWith (s pat : String) : Bool :=
  (afterPrefix? pat.toList.reverse s.toList.reverse).isSome

def dropStart (s : String) (n : Nat) : String := String.ofList (s.toList.drop n)

def dropLast (s : String) (n : Nat) : String := String.ofList (s.toList.take (s.length - n))

def takeStart (s : String) (n : Nat) : String := String.ofList (s.toList.take n)

def head (s : String) : String := takeStart s 1

/-- The pieces of a text between the occurrences of `pat`, from left to right. `skip` characters still belong to an
occurrence, and `held` is the current piece backwards. -/
def pieces (pat : List Char) : Nat → List Char → List Char → List (List Char)
  | _, held, [] => [held.reverse]
  | skip + 1, held, _ :: cs => pieces pat skip held cs
  | 0, held, c :: cs =>
    if (afterPrefix? pat (c :: cs)).isSome then held.reverse :: pieces pat (pat.length - 1) [] cs
    else pieces pat 0 (c :: held) cs

/-- The parts of a text between the occurrences of `pat`; a text without content divides nothing. -/
def split (s pat : String) : List String :=
  if pat.isEmpty then [s] else (pieces pat.toList 0 [] s.toList).map String.ofList

def replaceAll (s old new : String) : String := new.intercalate (split s old)

def replaceFirst (s old new : String) : String :=
  match cut? s old with
  | some (a, b) => a ++ new ++ b
  | none => s

def times (s : String) (n : Nat) : String := String.join (List.replicate n s)

def lines (xs : List String) : String := "\n".intercalate xs

def commas (xs : List String) : String := ", ".intercalate xs

def isDigits (s : String) : Bool := !s.isEmpty && s.toList.all Char.isDigit

def indentOf (l : List Char) : List Char := l.takeWhile fun c => c == ' ' || c == '\t'

def commonPrefix : List Char → List Char → List Char
  | a :: as, b :: bs => if a == b then a :: commonPrefix as bs else []
  | _, _ => []

/-- Removes the indentation that all lines share; lines of blanks only count for nothing and become
empty. -/
def dedent (s : String) : String :=
  let ls := (split s "\n").map fun l =>
    let cs := l.toList
    if cs.all (fun c => c == ' ' || c == '\t') then [] else cs
  let indents := (ls.filter (!·.isEmpty)).map indentOf
  let margin := match indents with
    | [] => 0
    | i :: is => (is.foldl commonPrefix i).length
  lines (ls.map fun cs => String.ofList (cs.drop (if cs.isEmpty then 0 else margin)))

end Polyglot.Text
