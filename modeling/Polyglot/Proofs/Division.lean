import Polyglot.Proofs.CppFormulas

/-!
# Whole numbers

A program rounds quotients down, and the operators for which its own are exchanged round them towards zero. So an
expression keeps its value, and each of its parts does, if and only if every division in it goes without remainder or
is one of numbers that have the same sign.
-/
namespace Polyglot.WholeNumber

open Session Effect Cpp

inductive Op where
  | add | sub | mul | floorDiv | mod
  deriving DecidableEq

namespace Op

def binOp : Op → BinOp
  | .add => .add | .sub => .sub | .mul => .mult | .floorDiv => .floorDiv | .mod => .mod

def ofBinOp : BinOp → Option Op
  | .add => some .add | .sub => some .sub | .mult => some .mul | .floorDiv => some .floorDiv | .mod => some .mod
  | _ => none

def isDivision : Op → Bool
  | .floorDiv | .mod => true
  | .add | .sub | .mul => false

/-- What an operator gives in a program. Quotients are rounded down, and nothing is divided by zero. -/
def apply : Op → Int → Int → Option Int
  | .add, a, b => some (a + b)
  | .sub, a, b => some (a - b)
  | .mul, a, b => some (a * b)
  | .floorDiv, a, b => if b = 0 then none else some (a.fdiv b)
  | .mod, a, b => if b = 0 then none else some (a.fmod b)

end Op

/-- What a symbol stands for in a language whose quotients are rounded towards zero. -/
def machine (symbol : String) (a b : Int) : Option Int :=
  if symbol = "+" then some (a + b)
  else if symbol = "-" then some (a - b)
  else if symbol = "*" then some (a * b)
  else if b = 0 then none
  else if symbol = "/" then some (a.tdiv b)
  else if symbol = "%" then some (a.tmod b)
  else none

/-- A division that goes without remainder or is one of numbers of the same sign. -/
def Clean (a b : Int) : Prop := b ∣ a ∨ 0 ≤ a * b

theorem tdiv_eq_fdiv_iff {a b : Int} (hb : b ≠ 0) : a.tdiv b = a.fdiv b ↔ Clean a b := by
  rw [Int.fdiv_eq_tdiv, Clean]
  by_cases hdvd : b ∣ a
  · simp [hdvd]
  · have ha : a ≠ 0 := by
      rintro rfl
      exact hdvd (Int.dvd_zero b)
    rcases Int.lt_or_gt_of_ne ha with ha | ha <;> rcases Int.lt_or_gt_of_ne hb with hb | hb
    · have hprod := Int.mul_pos_of_neg_of_neg ha hb
      simp [hdvd, Int.not_le.2 ha, Int.not_le.2 hb, Int.sign_eq_neg_one_of_neg hb, Int.le_of_lt hprod]
    · have hprod := Int.mul_neg_of_neg_of_pos ha hb
      simp [hdvd, Int.not_le.2 ha, Int.le_of_lt hb, Int.sign_eq_one_of_pos hb, Int.not_le.2 hprod]
      omega
    · have hprod := Int.mul_neg_of_pos_of_neg ha hb
      omega
    · have hprod := Int.mul_pos ha hb
      simp [hdvd, Int.le_of_lt ha, Int.le_of_lt hb, Int.le_of_lt hprod]

/-- Remainders agree where quotients do. -/
theorem tmod_eq_fmod_iff {a b : Int} (hb : b ≠ 0) : a.tmod b = a.fmod b ↔ Clean a b := by
  rw [← tdiv_eq_fdiv_iff hb]
  have htrunc := Int.mul_tdiv_add_tmod a b
  have hfloor := Int.mul_fdiv_add_fmod a b
  constructor
  · intro h
    exact Int.eq_of_mul_eq_mul_left hb (by omega)
  · intro h
    rw [h] at htrunc
    omega

/-- An operator that gives something gives the same under its common symbol, unless it is a division that is not clean. -/
theorem machine_eq_iff {op : Op} {symbol : String} {a b : Int} (hsymbol : Symbols.common.binary op.binOp = some symbol)
    (h : (op.apply a b).isSome) : machine symbol a b = op.apply a b ↔ (op.isDivision = true → Clean a b) := by
  cases op with
  | add | sub | mul =>
    cases hsymbol
    simp [machine, Op.apply, Op.isDivision]
  | floorDiv | mod =>
    cases hsymbol
    have hb : b ≠ 0 := by
      rintro rfl
      simp [Op.apply] at h
    simp [machine, Op.apply, Op.isDivision, hb, tdiv_eq_fdiv_iff hb, tmod_eq_fmod_iff hb]

inductive Expr where
  | named (name : String)
  | binary (op : Op) (l r : Expr)
  deriving DecidableEq

namespace Expr

variable {v : String → Int} {e l r : Expr}

/-- The value of an expression in a program. -/
def value (v : String → Int) : Expr → Option Int
  | .named x => some (v x)
  | .binary op l r => do op.apply (← l.value v) (← r.value v)

/-- The value of an expression whose operators are exchanged for their common symbols. -/
def exchanged (v : String → Int) : Expr → Option Int
  | .named x => some (v x)
  | .binary op l r => do machine (← Symbols.common.binary op.binOp) (← l.exchanged v) (← r.exchanged v)

def parts : Expr → List Expr
  | .named x => [.named x]
  | .binary op l r => .binary op l r :: (l.parts ++ r.parts)

def names : Expr → List String
  | .named x => [x]
  | .binary _ l r => l.names ++ r.names

def AllClean (v : String → Int) : Expr → Prop
  | .named _ => True
  | .binary op l r => l.AllClean v ∧ r.AllClean v ∧
      (op.isDivision = true → ∀ a ∈ l.value v, ∀ b ∈ r.value v, Clean a b)

theorem mem_parts (e : Expr) : e ∈ e.parts := by cases e <;> exact List.mem_cons_self

theorem value_binary {op : Op} (h : ((binary op l r).value v).isSome) :
    ∃ a b, l.value v = some a ∧ r.value v = some b ∧ (op.apply a b).isSome ∧
      (binary op l r).value v = op.apply a b := by
  cases hl : l.value v with
  | none => simp [value, hl] at h
  | some a =>
    cases hr : r.value v with
    | none => simp [value, hl, hr] at h
    | some b => exact ⟨a, b, rfl, rfl, by simpa [value, hl, hr] using h, by simp [value, hl, hr]⟩

/-- If nothing is divided by zero, then the exchanged expression has the value of the program, in every part, exactly if
every division is clean. -/
theorem exchanged_eq_iff (h : (e.value v).isSome) : (∀ u ∈ e.parts, u.exchanged v = u.value v) ↔ e.AllClean v := by
  induction e with
  | named x => simp [parts, exchanged, value, AllClean]
  | binary op l r ihl ihr =>
    obtain ⟨a, b, hl, hr, happly, hvalue⟩ := value_binary h
    obtain ⟨symbol, hsymbol⟩ : ∃ symbol, Symbols.common.binary op.binOp = some symbol := by
      cases op <;> exact ⟨_, rfl⟩
    have hparts : (∀ u ∈ (binary op l r).parts, u.exchanged v = u.value v) ↔
        (binary op l r).exchanged v = (binary op l r).value v ∧
          (∀ u ∈ l.parts, u.exchanged v = u.value v) ∧ ∀ u ∈ r.parts, u.exchanged v = u.value v := by
      simp [parts, or_imp, forall_and]
    have ihl := ihl (by simp [hl])
    have ihr := ihr (by simp [hr])
    rw [hparts, ihl, ihr, AllClean, and_comm, and_assoc]
    -- The operands keep their values on either side, so only the operator at the root is left.
    refine and_congr_right fun hlclean => and_congr_right fun hrclean => ?_
    have hlkept := ihl.2 hlclean l l.mem_parts
    have hrkept := ihr.2 hrclean r r.mem_parts
    rw [hvalue]
    simpa [exchanged, hsymbol, hlkept, hrkept, hl, hr] using machine_eq_iff hsymbol happly

end Expr

/-! ### What is emitted -/

def Op.operator : Op → Operator
  | .add => .add | .sub => .sub | .mul => .mul | .floorDiv => .div | .mod => .rem

theorem Op.symbol_operator (op : Op) : Symbols.common.binary op.binOp = some op.operator.symbol := by
  cases op <;> rfl

def Expr.formula : Expr → Formula
  | .named x => .word (Cpp.spelled x)
  | .binary op l r => .binary op.operator l.formula r.formula

/-- The expression that a node of a program is, if it is less than `k` levels deep. -/
def exprOf : Nat → Node → Option Expr
  | 0, _ => none
  | k + 1, n =>
    match n.shape with
    | .name id _ => if Cpp.isIdentifier id then some (.named id) else none
    | .binOp l op r => do return .binary (← Op.ofBinOp op) (← exprOf k l) (← exprOf k r)
    | _ => none

/-- The value of a formula of C++ whose words are numbers. -/
def valueOf (w : String → Int) : Formula → Option Int
  | .word x => some (w x)
  | .binary o l r => do machine o.symbol (← valueOf w l) (← valueOf w r)
  | .unary _ _ => none

theorem formulaOf_of_exprOf {k : Nat} {n : Node} {e : Expr} (h : exprOf k n = some e) :
    Cpp.formulaOf k n = some e.formula := by
  induction k generalizing n e with
  | zero => cases h
  | succ k ih =>
    unfold exprOf at h
    split at h
    case h_1 id u hn =>
      split at h <;> cases h
      simp [Cpp.formulaOf, *, Expr.formula]
    case h_2 l o r hn =>
      simp only [Option.bind_eq_bind, Option.bind_eq_some_iff] at h
      obtain ⟨op, hop, f, hf, g, hg, ⟨⟩⟩ := h
      have ho : Cpp.operatorOf o = some op.operator := by cases o <;> cases hop <;> rfl
      simp [Cpp.formulaOf, hn, ho, ih hf, ih hg, Expr.formula]
    case h_3 => cases h

/-- Operands that are no words get brackets, so the formula is read as it stands. -/
theorem derives_formula (e : Expr) : Formula.Derives e.formula.binds e.formula.tokens e.formula := by
  induction e with
  | named x => exact .word _ _
  | binary op l r ihl ihr =>
    have hfits (f : Formula) : Formula.brackets op.operator f = true ∨ op.operator.level + 1 ≤ f.binds := by
      have harithmetic : (op.operator.isLogic || op.operator.isComparison) = false := by cases op <;> rfl
      have hlevel : op.operator.level < 11 := op.operator.level_lt
      cases f with
      | word w => exact .inr hlevel
      | unary | binary => simp [Formula.brackets, harithmetic, Formula.isWord]
    refine .binary op.operator le_rfl (ihl.enclosed l.formula.binds_pos ?_) (ihr.enclosed r.formula.binds_pos (hfits _))
    exact (hfits _).imp_right Nat.le_of_succ_le

theorem valueOf_formula {v w : String → Int} {e : Expr} (h : ∀ x ∈ e.names, w (Cpp.spelled x) = v x) :
    valueOf w e.formula = e.exchanged v := by
  induction e with
  | named x => simp [Expr.formula, valueOf, Expr.exchanged, h x (by simp [Expr.names])]
  | binary op l r ihl ihr =>
    simp only [Expr.names, List.mem_append, or_imp, forall_and] at h
    simp [Expr.formula, valueOf, Expr.exchanged, ihl h.1, ihr h.2, op.symbol_operator]

/-- Every expression of whole numbers, at any depth that programs may have, is emitted in C++ as a text with one reading.
Whatever the values of its variables are, as long as nothing is divided by zero: the reading has the value of the
expression with its operators exchanged by the common symbols, and this is the value in the program, for the expression
and all its parts, if and only if every division goes without remainder or is one of numbers of the same sign. -/
theorem emitted_value_kept_iff (k : Nat) (n : Node) (e : Expr) (p : Page) (he : exprOf k n = some e)
    (hheld : Holds k p.session n) (hk : k ≤ nestingLimit) :
    ∃ text f, Cpp.emit n p = .ok (some text) p ∧ (∀ g, Formula.Reads text g ↔ g = f) ∧
      ∀ v w : String → Int, (∀ x ∈ e.names, w (Cpp.spelled x) = v x) → (e.value v).isSome →
        valueOf w f = e.exchanged v ∧ ((∀ u ∈ e.parts, u.exchanged v = u.value v) ↔ e.AllClean v) := by
  have hf : Cpp.formulaOf k n = some e.formula := formulaOf_of_exprOf he
  have hsays : Cpp.Says Cpp.emit p n e.formula.text := says_formula hheld hf hk
  have hreads : Formula.Reads e.formula.text e.formula :=
    ⟨_, Formula.tokensOf_text (proper_formulaOf hf), (derives_formula e).mono e.formula.binds_pos⟩
  refine ⟨_, e.formula, hsays, fun g => ⟨fun hg => hg.unique hreads, fun hg => hg ▸ hreads⟩, fun v w hw hvalue => ?_⟩
  exact ⟨valueOf_formula hw, Expr.exchanged_eq_iff hvalue⟩

def mixed : Node :=
  let a := variable_ 1 "a"
  let b := variable_ 2 "b"
  let quotient := Cpp.node 4 (.binOp (variable_ 5 "a") .floorDiv (variable_ 6 "b"))
  Cpp.node 9 (.binOp (Cpp.node 3 (.binOp a .mult b)) .sub (Cpp.node 8 (.binOp quotient .mod (variable_ 7 "c"))))

/-- Of minus seven, minus two and four it is eleven in either language. -/
theorem mixed_kept :
    ∃ p : Page, Holds 5 p.session mixed ∧ ∃ e, exprOf 5 mixed = some e ∧
      let v := fun x => if x = "a" then -7 else if x = "b" then -2 else 4
      e.value v = some 11 ∧ ∃ text f, Cpp.emit mixed p = .ok (some text) p ∧ Formula.Reads text f ∧
        valueOf v f = some 11 := by
  have hlimit : 5 ≤ nestingLimit := le_nestingLimit (by decide)
  obtain ⟨nodes, -, hheld, -⟩ := recordAll_ok (k := 5) (n := mixed) (by decide) (by decide) hlimit {}
  obtain ⟨e, he⟩ : ∃ e, exprOf 5 mixed = some e := ⟨_, rfl⟩
  refine ⟨{ session := { nodes } }, hheld, e, he, ?_⟩
  obtain ⟨text, f, hemit, hread, hvalue⟩ := emitted_value_kept_iff 5 mixed e { session := { nodes } } he hheld hlimit
  intro v
  cases he
  obtain ⟨hf, hclean⟩ := hvalue v v (by decide) (by decide)
  refine ⟨by decide, text, f, hemit, (hread f).2 rfl, ?_⟩
  have hkept := hclean.2 (by simp [Expr.AllClean, Op.isDivision, Clean, Expr.value, Op.apply, v])
  rw [hf, hkept _ (Expr.mem_parts _)]
  decide

/-- Minus seven divided by two is minus four, and minus three in the text that is emitted. The remainders differ too. -/
theorem quotient_not_kept :
    let quotient := Expr.binary .floorDiv (.named "a") (.named "b")
    let remainder := Expr.binary .mod (.named "a") (.named "b")
    let v := fun x => if x = "a" then -7 else 2
    (match Cpp.emit (Cpp.node 3 (.binOp (variable_ 1 "a") .floorDiv (variable_ 2 "b"))) {} with
        | .ok text _ => text
        | .error _ _ => none) = some "a / b" ∧
      quotient.value v = some (-4) ∧ quotient.exchanged v = some (-3) ∧
      remainder.value v = some 1 ∧ remainder.exchanged v = some (-1) := by
  decide +kernel

end Polyglot.WholeNumber
