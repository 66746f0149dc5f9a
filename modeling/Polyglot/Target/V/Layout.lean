import Polyglot.Text.Search

/-!
# The layout of V

Puts blanks around operators and indents lines by the braces that are open. Texts and comments stay as they are:
while a line is laid out, marks stand in their place.
-/
namespace Polyglot.V.Layout

def mark (k : Nat) : String := "__VV_PH_" ++ toString k ++ "__"

/-- Hides texts between quotes and a comment at the end of a line: the line with marks, and what they stand for.
`quote` is the quote of the text that is open and `held` what was read of it, backwards. A quote that is never
closed opens nothing. -/
def hide (k : Nat) (quote : Option Char) (held : List Char) : List Char → List Char × List String
  | [] => (held.reverse, [])
  | c :: cs =>
    match quote with
    | some q =>
      if c == q then
        let (rest, hidden) := hide (k + 1) none [] cs
        ((mark k).toList ++ rest, String.ofList (c :: held).reverse :: hidden)
      else hide k quote (c :: held) cs
    | none =>
      if (c == '"' || c == '\'') && cs.contains c then hide k (some c) [c] cs
      else if c == '/' && cs.head? == some '/' then ((mark k).toList, [String.ofList (c :: cs)])
      else
        let (rest, hidden) := hide k none [] cs
        (c :: rest, hidden)

def restore (k : Nat) (line : String) : List String → String
  | [] => line
  | h :: hs => restore (k + 1) (Text.replaceAll line (mark k) h) hs

def isOperator (c d : Char) : Bool :=
  (d == '=' && "=!><+-*/%:".toList.contains c) || (c == '&' && d == '&') || (c == '|' && d == '|')

/-- One blank on either side of every operator. `after` says that an operator was just written, and `pending`
holds the blanks since the last character, backwards. -/
def spaced (after : Bool) (pending : List Char) : List Char → List Char
  | [] => pending.reverse
  | [c] =>
    if Text.isBlank c then (if after then [] else (c :: pending).reverse)
    else if c == '=' then [' ', '=', ' ']
    else pending.reverse ++ [c]
  | c :: d :: cs =>
    if Text.isBlank c then spaced after (if after then [] else c :: pending) (d :: cs)
    else if isOperator c d then [' ', c, d, ' '] ++ spaced true [] cs
    else if c == '=' then [' ', '=', ' '] ++ spaced true [] (d :: cs)
    else pending.reverse ++ [c] ++ spaced false [] (d :: cs)

/-- A line that is no empty one, at some depth: its text, and how many braces it opens more than it closes. -/
def line (depth : Nat) (text : String) : String × Int :=
  let (cs, hidden) := hide 0 none [] text.toList
  let code := spaced false [] cs
  let opened : Int := (code.count '\x7b' : Int) - (code.count '\x7d' : Int)
  let closes := match code.dropWhile Text.isBlank with
    | c :: _ => c == '\x7d' || c == ')'
    | [] => false
  let depth := if closes then depth - 1 else depth
  (Text.times "    " depth ++ Text.strip (restore 0 (String.ofList code) hidden), opened)

def linesAt (depth : Nat) : List String → List String
  | [] => []
  | l :: ls =>
    let text := Text.strip l
    if text.isEmpty then "" :: linesAt depth ls
    else
      let (text, opened) := line depth text
      text :: linesAt ((depth : Int) + opened).toNat ls

def format (text : String) : String := Text.lines (linesAt 0 (Text.splitLines text)) ++ "\n"

end Polyglot.V.Layout
