import Polyglot.Proofs.Terms
import Polyglot.Proofs.TypeReading

/-!
# Arithmetic that is emitted

An expression over names, whole numbers, signs and operators stands for a term in the words of a target. Where every
operation is put in brackets, the text that is emitted is read as this term. Targets of which the types stand first do
so: D and Dart.
-/
namespace Polyglot

open Session Emit Effect Dialect List Lexemes

attribute [local simp] Node.children Shape.children

variable {ps : List String}

theorem isWord_number (i : Nat) : isWord (toString i) = true := by
  simp only [isWord, Bool.and_eq_true, Bool.not_eq_true', isEmpty_eq_false_iff, all_eq_true]
  refine ⟨(digits_number i).1, fun c hc => ?_⟩
  simp [Formula.isWordChar, Char.isAlphanum, (digits_number i).2 c hc]

theorem isWord_append {w v : String} (hw : isWord w = true) (hv : isWord v = true) : isWord (w ++ v) = true := by
  simp only [isWord, String.toList_append, all_append, Bool.and_eq_true, Bool.not_eq_true', isEmpty_eq_false_iff] at hw hv ⊢
  exact ⟨by simp [hw.1], hw.2, hv.2⟩

/-! ### Operations in brackets -/

namespace Script

/-- Whether signs and operators are lexemes, those without blanks around them of punctuation. -/
def sound (S : Script) : Bool :=
  regular S.punctuation && S.signs.all (fun s => S.isMark s && s != "(") &&
    S.levels.all fun (o, _) => o != ")" && if S.tight.contains o then S.isMark o else S.isLexeme o

/-- A term, and the same with brackets around every operation and everything but words behind a sign, where no operator
runs together with a sign. -/
inductive Bracketed (S : Script) : Term → Term → Prop
  | word {w : String} (hw : isWord w = true) : Bracketed S (.word w) (.word w)
  | sign {s w : String} (hs : s ∈ S.signs) (hw : isWord w = true) : Bracketed S (.sign s (.word w)) (.sign s (.word w))
  | signed {s : String} {e t : Term} (hs : s ∈ S.signs) (h : Bracketed S e t) : Bracketed S (.sign s e) (.sign s (.group t))
  | op {o : String} {e f l r : Term} (ho : S.level o ≠ 0) (hl : Bracketed S e l) (hr : Bracketed S f r)
      (hsign : S.tight.contains o = true → ∀ s u, f = .sign s u → S.parts o s = true) :
      Bracketed S (.op o e f) (.group (.op o l r))

variable {S : Script} {e t : Term} {o s : String}

theorem mem_levels (h : S.level o ≠ 0) : ∃ k, (o, k) ∈ S.levels := by
  unfold level at h
  cases hk : S.levels.lookup o with
  | none => rw [hk] at h; exact absurd rfl h
  | some k => exact ⟨k, mem_of_lookup hk⟩

theorem Bracketed.top_le (h : S.Bracketed e t) : S.top ≤ S.bound t := by
  cases h with
  | word | op => exact Nat.le_succ _
  | sign | signed => exact le_rfl

theorem Bracketed.strip_eq (h : S.Bracketed e t) : t.strip = e := by
  induction h with
  | word | sign => rfl
  | signed _ _ ih => rw [Term.strip, Term.strip, ih]
  | op _ _ _ _ ihl ihr => rw [Term.strip, Term.strip, ihl, ihr]

variable (hS : S.sound = true)
include hS

theorem isMark_of_sign (hs : s ∈ S.signs) : S.isMark s = true ∧ s ≠ "(" := by
  simp only [sound, Bool.and_eq_true, all_eq_true, bne_iff_ne] at hS
  exact hS.1.2 s hs

theorem lexeme_of_level (ho : S.level o ≠ 0) :
    o ≠ ")" ∧ (if S.tight.contains o then S.isMark o else S.isLexeme o) = true := by
  obtain ⟨k, hk⟩ := mem_levels ho
  simp only [sound, Bool.and_eq_true, all_eq_true, bne_iff_ne] at hS
  exact hS.2 _ hk

theorem regular_of_sound : regular S.punctuation = true := by
  simp only [sound, Bool.and_eq_true] at hS
  exact hS.1.1

namespace Bracketed

theorem parts_group (ho : S.isMark o = true) (t : Term) : S.parts o (S.text (.group t)) = true :=
  parts_of_head (regular_of_sound hS) ho ⟨'(', _, by rw [text, String.toList_append, String.toList_append]; rfl, .inr rfl⟩

variable (h : S.Bracketed e t)
include h

theorem good : S.good t = true := by
  have hsign {s : String} (hs : s ∈ S.signs) : isWord s = false ∧ s ≠ "(" :=
    (isMark_of_sign hS hs).imp_left isWord_of_isMark
  induction h with
  | word hw => exact hw
  | sign hs hw => simp [Script.good, hsign hs, hw, bound, hs]
  | signed hs _ ih => simp [Script.good, hsign hs, ih, bound, hs]
  | @op o _ _ _ _ ho hl hr _ ihl ihr =>
    have hlevel := S.level_lt o
    have hleft := hl.top_le
    have hright := hr.top_le
    refine good_op.2 ⟨ihl, ihr, (lexeme_of_level hS ho).1, ho, ?_, ?_⟩
    · unfold grip
      split_ifs <;> omega
    · unfold reach
      split_ifs <;> omega

/-- What is bracketed begins with a word, a bracket or a sign. -/
theorem parts_of_sign (ho : S.isMark o = true)
    (hsign : ∀ s u, e = .sign s u → S.parts o s = true) : S.parts o (S.text t) = true := by
  have hbegins {s : String} {u v : Term} (hs : s ∈ S.signs) (he : e = .sign s u) : S.parts o (S.text (.sign s v)) = true := by
    obtain ⟨c, cs, hcs, -⟩ := isMark_cons (isMark_of_sign hS hs).1
    have hparts := hsign s u he
    simpa [parts, text, String.toList_append, hcs] using hparts
  cases h with
  | word hw =>
    obtain ⟨c, cs, hcs, hc⟩ := exists_head hw
    exact parts_of_head (regular_of_sound hS) ho ⟨c, cs, hcs, .inl hc⟩
  | sign hs | signed hs => exact hbegins hs rfl
  | op => exact parts_group hS ho _

theorem clear : S.clear t = true := by
  induction h with
  | word hw => exact hw
  | sign hs hw =>
    have hmark := (isMark_of_sign hS hs).1
    simp only [Script.clear, hmark, hw, parts_of_sign hS (.word hw) hmark (by rintro _ _ ⟨⟩), Bool.and_true]
  | signed hs _ ih =>
    have hmark := (isMark_of_sign hS hs).1
    simp only [Script.clear, hmark, parts_group hS hmark, ih, Bool.and_true]
  | @op o _ _ _ r ho hl hr hsign ihl ihr =>
    have hlexeme := (lexeme_of_level hS ho).2
    simp only [Script.clear, ihl, ihr, Bool.true_and]
    by_cases htight : S.tight.contains o = true
    · rw [if_pos htight] at hlexeme ⊢
      rw [hlexeme, parts_of_sign hS hr hlexeme (hsign htight)]
      rfl
    · rwa [if_neg htight] at hlexeme ⊢

theorem read_eq : S.read (S.text t) = some e := by
  rw [S.read_of_good (S.regular_of_sound hS) (h.clear hS) (h.good hS), h.strip_eq]

end Bracketed
end Script

/-! ### Expressions -/

/-- How names, signs and operators are written. -/
structure Wording where
  name : String → String
  sign : UnaryOp → Option String := fun _ => none
  operator : Node → BinOp → Option String

namespace Wording

variable {w : Wording} {k : Nat} {n c : Node} {e : Term} {p : Page}

/-- The term for which an expression stands that is less than `k` levels deep. -/
def termOf (w : Wording) : Nat → Node → Option Term
  | 0, _ => none
  | k + 1, n =>
    match n.shape with
    | .name id _ => if isWord id then some (.word (w.name id)) else none
    | .constant (.int i) _ => if 0 ≤ i then some (.word (toString i)) else none
    | .unaryOp op e => do return .sign (← w.sign op) (← termOf w k e)
    | .binOp l op r => do return .op (← w.operator n op) (← termOf w k l) (← termOf w k r)
    | _ => none

inductive Stands (w : Wording) (k : Nat) (n : Node) : Term → Prop
  | name {id : String} {u : Usage} (hn : n.shape = .name id u) (hid : isWord id = true) : Stands w k n (.word (w.name id))
  | number {i : Nat} {m : Bool} (hn : n.shape = .constant (.int i) m) : Stands w k n (.word (toString i))
  | sign {op : UnaryOp} {s : String} {c : Node} {e : Term} (hn : n.shape = .unaryOp op c) (hop : w.sign op = some s)
      (he : w.termOf k c = some e) : Stands w k n (.sign s e)
  | op {op : BinOp} {o : String} {l r : Node} {e f : Term} (hn : n.shape = .binOp l op r) (hop : w.operator n op = some o)
      (hl : w.termOf k l = some e) (hr : w.termOf k r = some f) : Stands w k n (.op o e f)

theorem stands_of_termOf (h : w.termOf (k + 1) n = some e) : w.Stands k n e := by
  unfold termOf at h
  split at h <;> try simp only [Option.bind_eq_bind, Option.bind_eq_some_iff] at h
  case h_1 id u hn =>
    split at h <;> cases h
    exact .name hn ‹_›
  case h_2 i m hn =>
    split at h <;> cases h
    obtain ⟨i, rfl⟩ := Int.eq_ofNat_of_zero_le ‹_›
    exact .number hn
  case h_3 op c hn =>
    obtain ⟨s, hs, f, hf, ⟨⟩⟩ := h
    exact .sign hn hs hf
  case h_4 l op r hn =>
    obtain ⟨o, ho, f, hf, g, hg, ⟨⟩⟩ := h
    exact .op hn ho hf hg
  case h_5 => cases h

theorem word_of_number (h : w.termOf k c = some e) (hc : (c.isCall || isNumber c) = true) : ∃ v, e = .word v := by
  cases k with
  | zero => cases h
  | succ k =>
    cases stands_of_termOf h with
    | name | number => exact ⟨_, rfl⟩
    | sign hn | op hn => simp [Node.isCall, isNumber, hn] at hc

theorem not_list (h : w.termOf k c = some e) (es : List Node) (u : Usage) : c.shape ≠ .list es u := by
  intro hc
  cases k with
  | zero => cases h
  | succ k => simp [termOf, hc] at h

/-- What is conveyed of every expression once it is conveyed of its parts. -/
theorem conveys_emitter {step : Visit → Visit} {c : Node → Prop} {P : Node → Term → Option String → Prop}
    (hstep : ∀ (self : Visit) (k : Nat) (m : Node) (e : Term), m.Within n → w.Stands k m e →
      (∀ a ∈ m.children, ∀ f, w.termOf k a = some f → Conveys p (c a) (P a f) (self a)) → Conveys p (c m) (P m e) (step self m))
    (hheld : Holds k p.session n) (he : w.termOf k n = some e) (hk : k ≤ nestingLimit) :
    Conveys p (c n) (P n e) (Target.emitter step n) := by
  unfold Target.emitter
  generalize nestingLimit = j at hk
  induction k generalizing n e j with
  | zero => cases he
  | succ k ih =>
    obtain ⟨j, rfl⟩ := exists_succ_of_lt hk
    have hstands := stands_of_termOf he
    have hn : n.shape.opening? = none := by
      cases hstands with
      | name hn | number hn | sign hn | op hn => rw [hn]; rfl
    refine conveys_level hheld.1 hn (hstep _ k n e .self hstands fun a ha f hf => ?_)
    exact ih (fun self k m e hm => hstep self k m e (.part ha hm)) (hheld.2 a ha) hf j (by omega)

end Wording

theorem Emit.Conveys.say {p : Page} {n : Node} {c : Prop} {Q : Term → Prop} {f : Term → String} {d : Dialect}
    (h : Conveys p c (fun r => ∃ t, Q t ∧ r = some (f t)) (d.visit n)) :
    Conveys p c (fun s => ∃ t, Q t ∧ s = f t) (d.say n) := by
  refine h.last fun r hr => .pure ?_
  obtain ⟨t, ht, rfl⟩ := hr
  exact ⟨t, ht, rfl⟩

/-! ### Types first -/

namespace TypeFirst

variable {step : Visit → Visit} {whole o : String} {S : Script} {p : Page} {n : Node} {k : Nat} {e : Term}

/-- How arithmetic is written; a division that is marked as whole has its own operator. -/
def wording (whole : String) (s : Session) : Wording where
  name id := shown (name id)
  sign op := if op == .minus then some "-" else none
  operator n op :=
    match op with
    | .add | .sub | .mod => Symbols.common.binary op
    | .mult => if (s.known n.id).integerDivision then none else some "*"
    | .div => some (if (s.known n.id).integerDivision then whole else "/")
    | _ => none

def script (punctuation : List String) (whole : String) : Script where
  punctuation
  levels := [("+", 1), ("-", 1), ("*", 2), ("/", 2), ("%", 2), (whole, 2)]
  tight := ["*", "/", whole]
  signs := ["-"]

/-- A target that emits arithmetic by the common rules. -/
def Follows (step : Visit → Visit) (whole : String) : Prop :=
  ∀ self (n : Node), ∃ d : Dialect, d.visit = self ∧ d.symbols = .common ∧
    match n.shape with
    | .name .. | .constant (.int _) _ | .unaryOp .minus _ => step self n = TypeFirst.step d n
    | .binOp l op r => step self n = binary d n l op r whole
    | _ => True

theorem isWord_name {id : String} (h : isWord id = true) : isWord (shown (name id)) = true := by
  unfold name
  split_ifs
  · decide
  · decide
  · exact isWord_append h (by decide)
  · simp only [plainName, shown]
    split_ifs
    · decide
    · decide
    · exact h

theorem some_shown_name (id : String) : name id = some (shown (name id)) := by
  unfold name plainName
  split_ifs <;> rfl

theorem level_script (hwhole : whole = "/" ∨ whole = "~/") (ho : o ∈ ["+", "-", "*", "/", "%", whole]) :
    (script ps whole).level o ≠ 0 := by
  simp only [mem_cons, not_mem_nil, or_false] at ho
  obtain rfl | rfl := hwhole <;> obtain rfl | rfl | rfl | rfl | rfl | rfl := ho <;> exact Nat.succ_ne_zero _

theorem text_script (hwhole : whole = "/" ∨ whole = "~/") (ho : o ∈ ["+", "-", "*", "/", "%", whole]) (l r : Term) :
    (script ps whole).text (.group (.op o l r)) = if o ∈ ["+", "-", "%"]
      then "(" ++ (script ps whole).text l ++ " " ++ o ++ " " ++ (script ps whole).text r ++ ")"
      else "(" ++ (script ps whole).text l ++ o ++ (script ps whole).text r ++ ")" := by
  simp only [mem_cons, not_mem_nil, or_false] at ho
  obtain rfl | rfl := hwhole <;> obtain rfl | rfl | rfl | rfl | rfl | rfl := ho <;>
    simp [Script.text, script, String.append_assoc]

section

variable (hstep : Follows step whole) (hS : S = script ps whole) (hwhole : whole = "/" ∨ whole = "~/")
  (hsigns : ∀ o ∈ S.tight, ∀ s ∈ S.signs, S.parts o s = true) (hheld : Holds k p.session n)
  (he : (wording whole p.session).termOf k n = some e) (hk : k ≤ nestingLimit)
include hstep hS hwhole hsigns hheld he hk

/-- An expression is emitted with brackets around every operation. -/
theorem conveys_bracketed : Conveys p True (fun r => ∃ t, S.Bracketed e t ∧ r = some (S.text t)) (Target.emitter step n) := by
  refine Wording.conveys_emitter (c := fun _ => True) (P := fun _ e r => ∃ t, S.Bracketed e t ∧ r = some (S.text t))
    (fun self k m e _ hstands hparts => ?_) hheld he hk
  obtain ⟨d, rfl, hsymbols, hrule⟩ := hstep self m
  have hminus : "-" ∈ S.signs := hS ▸ mem_singleton_self _
  cases hstands with
  | @name id u hn hid =>
    rw [hn] at hrule
    simp only [hrule, TypeFirst.step, hn]
    exact .pure ⟨_, .word (isWord_name hid), some_shown_name id⟩
  | number hn =>
    rw [hn] at hrule
    simp only [hrule, TypeFirst.step, Dialect.step, hn]
    exact .pure ⟨_, .word (isWord_number _), rfl⟩
  | @sign op s c e hn hop he =>
    obtain ⟨rfl, rfl⟩ : op = .minus ∧ "-" = s := by simpa [wording] using hop
    rw [hn] at hrule
    have hsay := (hparts c (by simp [hn]) e he).say
    simp only [hrule, TypeFirst.step, Dialect.step, hn]
    refine hsay.last fun t ht => .pure ?_
    obtain ⟨u, hu, rfl⟩ := ht
    split
    · obtain ⟨v, rfl⟩ := Wording.word_of_number he ‹_›
      cases hu with
      | word hv => exact ⟨_, .sign hminus hv, rfl⟩
    · refine ⟨_, .signed hminus hu, ?_⟩
      simp only [Script.text, show "-(" = "-" ++ "(" from rfl, String.append_assoc]
  | @op op o l r e f hn hop hl hr =>
    have hsayl := (hparts l (by simp [hn]) e hl).say
    have hsayr := (hparts r (by simp [hn]) f hr).say
    rw [hn] at hrule
    simp only [hrule, binary, Dialect.binarySymbol, hsymbols]
    refine hsayl.last fun _ ha => hsayr.last fun _ hb => ?_
    obtain ⟨a, ha, rfl⟩ := ha
    obtain ⟨b, hb, rfl⟩ := hb
    have hpure (ho : o ∈ ["+", "-", "*", "/", "%", whole]) : Conveys p True
        (fun r => ∃ t, S.Bracketed (.op o e f) t ∧ r = some (S.text t)) (pure (some (if o ∈ ["+", "-", "%"]
          then "(" ++ S.text a ++ " " ++ o ++ " " ++ S.text b ++ ")" else "(" ++ S.text a ++ o ++ S.text b ++ ")"))) := by
      subst hS
      refine .pure ⟨_, .op (level_script hwhole ho) ha hb ?_, by rw [text_script hwhole ho]⟩
      rintro htight s v rfl
      cases hb with
      | sign hs | signed hs => exact hsigns o (contains_iff_mem.1 htight) s hs
    cases op with
    | add | sub | mod =>
      cases hop
      exact hpure (by simp)
    | mult | div =>
      refine (Conveys.factsOf m.id).last fun x hx => ?_
      have hmark : x.integerDivision = (p.session.known m.id).integerDivision := (congrArg Facts.integerDivision hx :)
      simp only [wording, ← hmark] at hop
      cases hx' : x.integerDivision <;> simp only [hx', if_true, if_false, Bool.false_eq_true] at hop ⊢ <;> cases hop
      all_goals obtain rfl | rfl := hwhole <;> exact hpure (by simp)
    | _ => cases hop

theorem reads_back (hsound : S.sound = true) :
    ∃ text p', Target.emitter step n p = .ok (some text) p' ∧ S.read text = some e := by
  obtain ⟨hreturns, hresult⟩ := conveys_bracketed hstep hS hwhole hsigns hheld he hk p ⟨.refl _, rfl⟩
  obtain ⟨r, p', hrun⟩ := hreturns trivial
  obtain ⟨-, -, t, ht, rfl⟩ := hresult r p' hrun
  exact ⟨_, p', hrun, ht.read_eq hsound⟩

end
end TypeFirst

def D.script : Script :=
  TypeFirst.script (common ++ ["/+", "--", "++", ">>>", ">>>=", "^^", "^^=", "=>", "~="]) "/"

def Dart.script : Script :=
  TypeFirst.script (common ++ ["...?", "?.", "?..", "??", "??=", "~/", "~/=", "--", "++", ">>>", ">>>=", "=>"]) "~/"

theorem D.follows : TypeFirst.Follows D.step "/" := by
  intro self n
  refine ⟨TypeFirst.assigning (D.dialect self) (D.assignOne self), rfl, rfl, ?_⟩
  split <;> simp only [D.step, *]

theorem Dart.follows : TypeFirst.Follows Dart.step "~/" := by
  intro self n
  refine ⟨TypeFirst.assigning (Dart.dialect self) (Dart.assignOne self), rfl, rfl, ?_⟩
  split <;> simp only [Dart.step, *]

namespace TypeFirst

/-- The expression `-(a % 3) * (b / -5) - c`. -/
def difference : Node :=
  let node (id : NodeId) (shape : Shape Node) : Node := ⟨id, some 1, none, shape⟩
  let remainder := node 3 (.binOp (node 1 (.name "a" .load)) .mod (node 2 (.constant (.int 3) false)))
  let divisor := node 6 (.unaryOp .minus (node 5 (.constant (.int 5) false)))
  let quotient := node 7 (.binOp (node 4 (.name "b" .load)) .div divisor)
  node 11 (.binOp (node 9 (.binOp (node 8 (.unaryOp .minus remainder)) .mult quotient)) .sub (node 10 (.name "c" .load)))

def differenceTerm (whole : String) : Term :=
  .op "-" (.op "*" (.sign "-" (.op "%" (.word "a") (.word "3"))) (.op whole (.word "b") (.sign "-" (.word "5")))) (.word "c")

end TypeFirst
end Polyglot
