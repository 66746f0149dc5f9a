import Mathlib.Data.List.Forall2
import Mathlib.Data.String.Basic

/-!
# S-expressions

An s-expression is a word or a list of s-expressions. Its text is read in two steps: into words and parentheses, and
from these into an s-expression. A text spells s-expressions if it is read as their words and parentheses, whatever
follows it.
-/
namespace Polyglot

open List

inductive SExpr where
  | atom (w : String)
  | list (es : List SExpr)
  deriving Inhabited

namespace SExpr

/-! ### Reading -/

inductive Token where
  | left
  | right
  | word (w : String)
  deriving DecidableEq

def isSpace (c : Char) : Bool := c == ' ' || c == '\n' || c == '\t' || c == '\r'

def isWordChar (c : Char) : Bool := !(isSpace c || c == '(' || c == ')')

def wordOf (held : List Char) : List Token := if held.isEmpty then [] else [.word (String.ofList held.reverse)]

/-- The words and parentheses of a text; the current word is held backwards. -/
def tokensFrom (held : List Char) : List Char → List Token
  | [] => wordOf held
  | c :: cs =>
    if c == '(' then wordOf held ++ .left :: tokensFrom [] cs
    else if c == ')' then wordOf held ++ .right :: tokensFrom [] cs
    else if isSpace c then wordOf held ++ tokensFrom [] cs
    else tokensFrom (c :: held) cs

/-- One word or parenthesis is read. The lists that are open are held with the innermost first, and each backwards. -/
def shift : Token → List (List SExpr) → Option (List (List SExpr))
  | .left, stack => some ([] :: stack)
  | .word w, es :: stack => some ((.atom w :: es) :: stack)
  | .right, es :: fs :: stack => some ((.list es.reverse :: fs) :: stack)
  | _, _ => none

def shiftAll : List Token → List (List SExpr) → Option (List (List SExpr))
  | [], stack => some stack
  | t :: ts, stack => (shift t stack).bind (shiftAll ts)

def read (s : String) : Option SExpr :=
  match shiftAll (tokensFrom [] s.toList) [[]] with
  | some [[e]] => some e
  | _ => none

/-! ### Spelling -/

mutual
def tokens : SExpr → List Token
  | .atom w => [.word w]
  | .list es => .left :: (tokensAll es ++ [.right])

def tokensAll : List SExpr → List Token
  | [] => []
  | e :: es => e.tokens ++ tokensAll es
end

theorem tokensAll_append (es fs : List SExpr) : tokensAll (es ++ fs) = tokensAll es ++ tokensAll fs := by
  induction es with
  | nil => rfl
  | cons e es ih => rw [cons_append, tokensAll, tokensAll, ih, append_assoc]

theorem shiftAll_append (ts us : List Token) (stack : List (List SExpr)) :
    shiftAll (ts ++ us) stack = (shiftAll ts stack).bind (shiftAll us) := by
  induction ts generalizing stack with
  | nil => rfl
  | cons t ts ih =>
    rw [cons_append, shiftAll, shiftAll, Option.bind_assoc]
    exact congrArg _ (funext ih)

mutual
theorem shiftAll_tokens (e : SExpr) (es : List SExpr) (stack : List (List SExpr)) :
    shiftAll e.tokens (es :: stack) = some ((e :: es) :: stack) := by
  cases e with
  | atom w => rfl
  | list fs =>
    rw [tokens, shiftAll, shift, Option.bind_some, shiftAll_append, shiftAll_tokensAll fs [] (es :: stack), Option.bind_some,
      append_nil, shiftAll, shift, reverse_reverse]
    rfl

theorem shiftAll_tokensAll (fs es : List SExpr) (stack : List (List SExpr)) :
    shiftAll (tokensAll fs) (es :: stack) = some ((fs.reverse ++ es) :: stack) := by
  cases fs with
  | nil => rfl
  | cons f fs =>
    rw [tokensAll, shiftAll_append, shiftAll_tokens f es stack, Option.bind_some, shiftAll_tokensAll fs (f :: es) stack,
      reverse_cons, append_assoc]
    rfl
end

/-- No word goes on at the start of a text. -/
def Stops (cs : List Char) : Prop := ∀ c ∈ cs.head?, isWordChar c = false

/-- A text is read as the words and parentheses of s-expressions, whatever follows it. -/
def Spells (s : String) (es : List SExpr) : Prop :=
  ∀ cs, Stops cs → tokensFrom [] (s.toList ++ cs) = tokensAll es ++ tokensFrom [] cs

def Blank (b : String) : Prop := ∃ c, isSpace c = true ∧ b = String.singleton c

theorem Blank.space : Blank " " := ⟨' ', rfl, rfl⟩

theorem Blank.line : Blank "\n" := ⟨'\n', rfl, rfl⟩

variable {s t w b : String} {e : SExpr} {es fs : List SExpr} {cs held : List Char} {c : Char} {ts : List String}

theorem tokensFrom_of_stops (h : Stops cs) (held : List Char) : tokensFrom held cs = wordOf held ++ tokensFrom [] cs := by
  cases cs with
  | nil => simp [tokensFrom, wordOf]
  | cons c cs =>
    have hc : isWordChar c = false := h c rfl
    simp only [isWordChar, Bool.not_eq_false', Bool.or_eq_true] at hc
    rw [tokensFrom, tokensFrom]
    by_cases hleft : (c == '(') = true
    · simp [hleft, wordOf]
    by_cases hright : (c == ')') = true
    · simp [hleft, hright, wordOf]
    have hspace : isSpace c = true := by
      rcases hc with (hc | hc) | hc
      · exact hc
      · exact absurd hc hleft
      · exact absurd hc hright
    simp [hleft, hright, hspace, wordOf]

theorem tokensFrom_word (hword : ∀ c ∈ cs, isWordChar c = true) (held rest : List Char) :
    tokensFrom held (cs ++ rest) = tokensFrom (cs.reverse ++ held) rest := by
  induction cs generalizing held with
  | nil => rfl
  | cons c cs ih =>
    obtain ⟨hc, hcs⟩ := forall_mem_cons.1 hword
    simp only [isWordChar, Bool.not_eq_true', Bool.or_eq_false_iff] at hc
    obtain ⟨⟨hspace, hleft⟩, hright⟩ := hc
    rw [cons_append, tokensFrom, hleft, hright, hspace]
    simp [ih hcs]

namespace Spells

theorem word (hne : w ≠ "") (hword : ∀ c ∈ w.toList, isWordChar c = true) : Spells w [.atom w] := by
  intro cs hcs
  have hheld : w.toList.reverse ≠ [] := by simpa using hne
  rw [tokensFrom_word hword, append_nil, tokensFrom_of_stops hcs, wordOf, if_neg (by simpa using hheld),
    reverse_reverse, String.ofList_toList]
  rfl

theorem nil : Spells "" [] := fun _ _ => rfl

/-- What starts with no word can follow. -/
theorem append (hs : Spells s es) (ht : Spells t fs) (hstops : ∀ c ∈ t.toList.head?, isWordChar c = false) :
    Spells (s ++ t) (es ++ fs) := by
  intro cs hcs
  have hnext : Stops (t.toList ++ cs) := by
    cases htl : t.toList with
    | nil => exact hcs
    | cons c ds =>
      rw [htl] at hstops
      exact hstops
  rw [String.toList_append, append_assoc, hs _ hnext, ht cs hcs, tokensAll_append, append_assoc]

theorem blank_append (hb : Blank b) (hs : Spells s es) : Spells (b ++ s) es := by
  obtain ⟨c, hc, rfl⟩ := hb
  intro cs hcs
  have hleft : (c == '(') = false := by
    rw [beq_eq_false_iff_ne]
    rintro rfl
    cases hc
  have hright : (c == ')') = false := by
    rw [beq_eq_false_iff_ne]
    rintro rfl
    cases hc
  rw [String.toList_append, String.toList_singleton, singleton_append, cons_append, tokensFrom, hleft, hright, hc]
  exact hs cs hcs

theorem list (hs : Spells s es) : Spells ("(" ++ s ++ ")") [.list es] := by
  intro cs hcs
  have hstops : Stops (')' :: cs) := by
    intro c hc
    cases hc
    rfl
  have htext : ("(" ++ s ++ ")").toList ++ cs = '(' :: (s.toList ++ ')' :: cs) := by simp
  rw [htext, tokensFrom, if_pos (beq_self_eq_true _), hs _ hstops]
  simp [tokensFrom, wordOf, tokensAll, tokens]

theorem append_blank (hs : Spells s es) (hb : Blank b) (ht : Spells t fs) : Spells (s ++ (b ++ t)) (es ++ fs) := by
  refine hs.append (ht.blank_append hb) fun d hd => ?_
  obtain ⟨c, hc, rfl⟩ := hb
  rw [String.toList_append, String.toList_singleton, singleton_append, head?_cons] at hd
  cases hd
  rw [isWordChar, hc]
  rfl

theorem joined (hb : Blank b) (h : List.Forall₂ (fun t e => Spells t [e]) ts es) : Spells (b.intercalate ts) es := by
  induction h with
  | nil => exact .nil
  | @cons t e ts es ht hts ih =>
    cases hts with
    | nil => rwa [String.intercalate_singleton]
    | cons =>
      rw [String.intercalate_cons_cons, String.append_assoc]
      exact ht.append_blank hb ih

theorem form (hw : Spells w [.atom w]) (h : List.Forall₂ (fun t e => Spells t [e]) ts es) :
    Spells ("(" ++ w ++ " " ++ " ".intercalate ts ++ ")") [.list (.atom w :: es)] := by
  have hinner := hw.append_blank .space (joined .space h)
  simpa only [String.append_assoc, singleton_append] using hinner.list

end Spells

theorem read_of_spells (h : Spells s [e]) : read s = some e := by
  have htokens : tokensFrom [] s.toList = tokensAll [e] := by
    have := h [] (by intro c hc; cases hc)
    simpa [tokensFrom, wordOf] using this
  rw [read, htokens, shiftAll_tokensAll]
  rfl

end SExpr

end Polyglot
