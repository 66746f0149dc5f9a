import Mathlib.Data.List.Basic
import Mathlib.Order.Nat
/-!
# Reading formulas

How a formula of C++ is read. The text is cut into the longest lexemes that can be, and of the tokens that they stand
for a grammar derives a tree: operators bind by level, those of one level from the left, and what stands in brackets is
one operand.
-/
namespace Polyglot


inductive Operator where
  | or | and | bitOr | bitXor | bitAnd | eq | ne | lt | le | gt | ge | shl | shr | add | sub | mul | div | rem
  deriving DecidableEq

namespace Operator

def all : List Operator :=
  [.or, .and, .bitOr, .bitXor, .bitAnd, .eq, .ne, .lt, .le, .gt, .ge, .shl, .shr, .add, .sub, .mul, .div, .rem]

def symbol : Operator → String
  | .or => "||" | .and => "&&" | .bitOr => "|" | .bitXor => "^" | .bitAnd => "&" | .eq => "==" | .ne => "!="
  | .lt => "<" | .le => "<=" | .gt => ">" | .ge => ">=" | .shl => "<<" | .shr => ">>" | .add => "+" | .sub => "-"
  | .mul => "*" | .div => "/" | .rem => "%"

def level : Operator → Nat
  | .or => 1 | .and => 2 | .bitOr => 3 | .bitXor => 4 | .bitAnd => 5 | .eq | .ne => 6
  | .lt | .le | .gt | .ge => 7 | .shl | .shr => 8 | .add | .sub => 9 | .mul | .div | .rem => 10

def isLogic : Operator → Bool
  | .or | .and => true
  | _ => false

def isComparison : Operator → Bool
  | .eq | .ne | .lt | .le | .gt | .ge => true
  | _ => false

theorem level_pos (o : Operator) : 1 ≤ o.level := by cases o <;> decide

theorem level_lt (o : Operator) : o.level < 11 := by cases o <;> decide

/-- An operator that joins conditions has its level to itself. -/
theorem eq_of_level_eq {o p : Operator} (ho : o.isLogic = true) (h : p.level = o.level) : p = o := by
  cases o with
  | or | and => cases p <;> first | rfl | cases h
  | _ => cases ho

end Operator

inductive Sign where
  | not | minus
  deriving DecidableEq

def Sign.symbol : Sign → String
  | .not => "!"
  | .minus => "-"

inductive Formula where
  | word (text : String)
  | unary (s : Sign) (f : Formula)
  | binary (o : Operator) (l r : Formula)
  deriving DecidableEq

namespace Formula

/-- The parts of which formulas are written. The sign of a negative value is the operator that subtracts. -/
inductive Token where
  | word (text : String)
  | op (o : Operator)
  | not
  | opening
  | closing
  deriving DecidableEq

def signToken : Sign → Token
  | .not => .not
  | .minus => .op .sub

/-! ### Lexemes -/

def isWordChar (c : Char) : Bool := c.isAlphanum || c == '_' || 128 ≤ c.toNat

/-- The punctuation of the language. With a text, all its beginnings are in the list. -/
def punctuation : List String :=
  ["\x7b", "\x7d", "[", "]", "(", ")", ";", ":", "::", "?", ".", ".*", "->", "->*", "~", "!", "+", "-", "*", "/", "%", "^",
   "&", "|", "=", "+=", "-=", "*=", "/=", "%=", "^=", "&=", "|=", "==", "!=", "<", ">", "<=", ">=", "<=>", "&&", "||",
   "<<", ">>", "<<=", ">>=", "++", "--", ",", "<:", "<%", ":>", "%>", "%:", "//", "/*"]

def operatorWords : List String :=
  ["and", "and_eq", "bitand", "bitor", "compl", "not", "not_eq", "or", "or_eq", "xor", "xor_eq"]

def continues : List Char → Char → Bool
  | [], _ => false
  | d :: w, c => if isWordChar d then isWordChar c else punctuation.contains (String.ofList (d :: w ++ [c]))

def finished : List Char → List (List Char)
  | [] => []
  | w => [w]

def lexemes : List Char → List Char → List (List Char)
  | w, [] => finished w
  | w, c :: cs =>
    if continues w c then lexemes (w ++ [c]) cs else finished w ++ lexemes (if c.isWhitespace then [] else [c]) cs

def tokenOf : List Char → Option Token
  | [] => none
  | c :: w =>
    let text := String.ofList (c :: w)
    if isWordChar c then if operatorWords.contains text then none else some (.word text)
    else if text == "(" then some .opening
    else if text == ")" then some .closing
    else if text == "!" then some .not
    else (Operator.all.find? (·.symbol == text)).map .op

def tokensOf (text : String) : Option (List Token) := (lexemes [] text.toList).mapM tokenOf

/-! ### Grammar -/

/-- What is read as a formula whose operators, outside of brackets, bind at a level or tighter. -/
inductive Derives : Nat → List Token → Formula → Prop
  | word (k : Nat) (w : String) : Derives k [.word w] (.word w)
  | group {ts : List Token} {f : Formula} (k : Nat) (h : Derives 1 ts f) : Derives k (.opening :: (ts ++ [.closing])) f
  | unary {k : Nat} {ts : List Token} {f : Formula} (s : Sign) (hk : k ≤ 11) (h : Derives 11 ts f) :
      Derives k (signToken s :: ts) (.unary s f)
  | binary {k : Nat} {ls rs : List Token} {l r : Formula} (o : Operator) (hk : k ≤ o.level) (hl : Derives o.level ls l)
      (hr : Derives (o.level + 1) rs r) : Derives k (ls ++ .op o :: rs) (.binary o l r)

def Reads (text : String) (f : Formula) : Prop := ∃ ts, tokensOf text = some ts ∧ Derives 1 ts f

theorem Derives.mono {ts : List Token} {k j : Nat} {f : Formula} (h : Derives k ts f) (hj : j ≤ k) : Derives j ts f := by
  cases h with
  | word => exact .word j _
  | group _ h => exact .group j h
  | unary s hk h => exact .unary s (hj.trans hk) h
  | binary o hk hl hr => exact .binary o (hj.trans hk) hl hr

end Formula
end Polyglot
