import Polyglot.Tree.Literal

/-!
# Type terms

What a type annotation denotes for a target: a name, several terms side by side, or a value that stands
where a type should.
-/
namespace Polyglot

inductive TypeTerm where
  | text (s : String)
  | many (ts : List TypeTerm)
  | value (v : Literal)
  | absent
  deriving Inhabited

namespace TypeTerm

def ofLiteral : Literal → TypeTerm
  | .str s => .text s
  | .nothing => .absent
  | v => .value v

mutual
def quoted : TypeTerm → String
  | .text s => Text.quoted s
  | .many ts => "[" ++ Text.commas (quotedAll ts) ++ "]"
  | .value v => v.quotedText
  | .absent => "None"

def quotedAll : List TypeTerm → List String
  | [] => []
  | t :: ts => t.quoted :: quotedAll ts
end

def shown : TypeTerm → String
  | .text s => s
  | .value v => v.shown
  | t => t.quoted

mutual
def same : TypeTerm → TypeTerm → Bool
  | .text a, .text b => a == b
  | .many as, .many bs => sameAll as bs
  | .value a, .value b => a.quotedText == b.quotedText
  | .absent, .absent => true
  | _, _ => false

def sameAll : List TypeTerm → List TypeTerm → Bool
  | [], [] => true
  | a :: as, b :: bs => same a b && sameAll as bs
  | _, _ => false
end

instance : BEq TypeTerm := ⟨same⟩

def isText (t : TypeTerm) (s : String) : Bool := t == .text s

def text? : TypeTerm → Option String
  | .text s => some s
  | _ => none

/-- Whether a term counts as given: not absent, not an empty name. -/
def given : TypeTerm → Bool
  | .text s => !s.isEmpty
  | .many ts => !ts.isEmpty
  | .value v => v.truthy
  | .absent => false

end TypeTerm

inductive Lifetime where
  | unknown
  | static
  deriving DecidableEq, Inhabited

end Polyglot
