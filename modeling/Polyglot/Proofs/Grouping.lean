import Polyglot.Proofs.Terms

/-!
# Brackets that are not written

A formula is written with brackets around what a sign or an operator of arithmetic takes, words apart, and with none
around what is compared or joined to a condition. It is read as it was meant if and only if each operand without
brackets binds tighter than its operator.
-/
namespace Polyglot.Formula

open List Script Term

/-! ### Runs of one operator -/

/-- Joins two formulas by an operator. A run of the operator is associated to the left. -/
def join (o : Operator) (a : Formula) : Formula → Formula
  | .binary p b c => if p = o then .binary o (join o a b) c else .binary o a (.binary p b c)
  | f => .binary o a f

/-- A formula with the runs of operators that join conditions associated to the left. -/
def flatten : Formula → Formula
  | .word w => .word w
  | .unary s f => .unary s f.flatten
  | .binary o l r => if o.isLogic then join o l.flatten r.flatten else .binary o l.flatten r.flatten

theorem flatten_logic {o : Operator} (ho : o.isLogic = true) (l r : Formula) :
    (binary o l r).flatten = join o l.flatten r.flatten := by
  rw [flatten, if_pos ho]

variable {o : Operator} {a b c f g : Formula} {x : Bool}

theorem join_run (o : Operator) (a b c : Formula) : join o a (.binary o b c) = .binary o (join o a b) c := by
  rw [join, if_pos rfl]

theorem join_other (hf : ∀ b c, f ≠ .binary o b c) (a : Formula) : join o a f = .binary o a f := by
  cases f with
  | word w | unary s f => rfl
  | binary p b c => rw [join, if_neg fun h => hf b c (by rw [h])]

theorem join_root (o : Operator) (a f : Formula) : ∃ b c, join o a f = .binary o b c := by
  by_cases h : ∃ b c, f = .binary o b c
  · obtain ⟨b, c, rfl⟩ := h
    exact ⟨_, _, join_run o a b c⟩
  · exact ⟨_, _, join_other (fun b c hf => h ⟨b, c, hf⟩) a⟩

/-! ### How formulas are written -/

def isWord : Formula → Bool
  | .word _ => true
  | _ => false

def isNumber : Formula → Bool
  | .word w => w.toList.head?.any Char.isDigit
  | _ => false

/-- Whether what a sign takes is put in brackets. -/
def signBrackets (s : Sign) (f : Formula) : Bool := !(s == .minus && f.isNumber)

/-- Whether an operand is put in brackets. -/
def brackets (o : Operator) (f : Formula) : Bool := !(o.isLogic || o.isComparison || f.isWord)

def enclosed (b : Bool) (ts : List Token) : List Token := if b then .opening :: (ts ++ [.closing]) else ts

def tokens : Formula → List Token
  | .word w => [.word w]
  | .unary s f => signToken s :: enclosed (signBrackets s f) f.tokens
  | .binary o l r => enclosed (brackets o l) l.tokens ++ .op o :: enclosed (brackets o r) r.tokens

/-- How tightly a formula without brackets binds. -/
def binds : Formula → Nat
  | .binary o _ _ => o.level
  | _ => 11

/-- Whether each operand without brackets binds tighter than its operator; conditions need only bind as tight as the
operator that joins them, and so does what stands on the left. -/
def grouped : Formula → Bool
  | .word _ => true
  | .unary _ f => f.grouped
  | .binary o l r =>
    l.grouped && r.grouped && (brackets o l || o.level ≤ l.binds) &&
      (brackets o r || (if o.isLogic then o.level ≤ r.binds else o.level < r.binds))

variable {k : Nat} {ts : List Token}

theorem Derives.enclosed {j : Nat} (h : Derives j ts f) (hj : 1 ≤ j) (hk : x = true ∨ k ≤ j) :
    Derives k (enclosed x ts) f := by
  cases x with
  | true => exact .group k (h.mono hj)
  | false => exact h.mono (hk.resolve_left Bool.false_ne_true)

theorem binds_pos (f : Formula) : 1 ≤ f.binds := by
  cases f with
  | binary o l r => exact o.level_pos
  | word | unary => exact Nat.le_add_left 1 10

/-! ### Formulas as terms -/

/-- How formulas are written and read. -/
def script : Script where
  punctuation
  levels := Operator.all.map fun o => (o.symbol, o.level)
  tight := ["||", "&&"]
  signs := ["!", "-"]

def plain : Formula → Term
  | .word w => .word w
  | .unary s f => .sign s.symbol f.plain
  | .binary o l r => .op o.symbol l.plain r.plain

def group (x : Bool) (t : Term) : Term := if x then .group t else t

def term : Formula → Term
  | .word w => .word w
  | .unary s f => .sign s.symbol (group (signBrackets s f) f.term)
  | .binary o l r => .op o.symbol (group (brackets o l) l.term) (group (brackets o r) r.term)

def spelling : Token → String
  | .word w => w
  | .op o => o.symbol
  | .not => "!"
  | .opening => "("
  | .closing => ")"

variable {s : Sign} {l r t : Term}

theorem find_symbol (o : Operator) : Operator.all.find? (·.symbol == o.symbol) = some o := by cases o <;> decide

theorem level_symbol (o : Operator) : script.level o.symbol = o.level := by cases o <;> decide

theorem good_binary : script.good (.op o.symbol l r) = true ↔
    script.good l = true ∧ script.good r = true ∧ o.level ≤ script.bound l ∧ o.level < script.bound r := by
  have hclosing : o.symbol ≠ ")" := by cases o <;> decide
  have hlevel : o.level ≠ 0 := Nat.ne_of_gt o.level_pos
  have hrightward : o.level ≠ script.rightward := hlevel
  simp only [good_op, level_symbol, grip, reach, if_neg hrightward, Nat.succ_le_iff, hclosing, hlevel, ne_eq,
    not_false_eq_true, true_and]

theorem sign_symbol (s : Sign) : (script.signs.contains s.symbol && !Polyglot.isWord s.symbol && s.symbol != "(") = true := by
  cases s <;> decide

theorem good_unary : script.good (.sign s.symbol t) = true ↔ script.good t = true ∧ 11 ≤ script.bound t := by
  rw [good, sign_symbol, Bool.true_and, Bool.and_eq_true, decide_eq_true_eq]
  rfl

theorem plain_injective (h : f.plain = g.plain) : f = g := by
  induction f generalizing g with
  | word w => cases g <;> simp_all [plain]
  | unary s f ih =>
    cases g with
    | unary s' g =>
      obtain ⟨hs, hg⟩ := sign.inj h
      rw [ih hg]
      cases s <;> cases s' <;> first | rfl | exact absurd hs (by decide)
    | word | binary => cases h
  | binary o l r ihl ihr =>
    cases g with
    | binary p a b =>
      obtain ⟨ho, hl, hr⟩ := op.inj h
      have hop : some o = some p := by rw [← find_symbol o, ho, find_symbol p]
      rw [ihl hl, ihr hr, Option.some.inj hop]
    | word | unary => cases h

/-- What the grammar derives is a term that binds tightly enough. -/
theorem Derives.exists_term (h : Derives k ts f) (hwords : ∀ w, .word w ∈ ts → Polyglot.isWord w = true) :
    ∃ t, script.good t = true ∧ min k 11 ≤ script.bound t ∧ t.tokens = ts.map spelling ∧ t.strip = f.plain := by
  induction h with
  | word k w => exact ⟨.word w, hwords w (by simp), (Nat.min_le_right k 11).trans (Nat.le_succ 11), rfl, rfl⟩
  | group k h ih =>
    obtain ⟨t, ht, -, htokens, hstrip⟩ := ih fun w hw => hwords w (by simp [hw])
    exact ⟨.group t, ht, (Nat.min_le_right k 11).trans (Nat.le_succ 11), by simp [Term.tokens, htokens, spelling], hstrip⟩
  | unary s hk h ih =>
    obtain ⟨t, ht, hbound, htokens, hstrip⟩ := ih fun w hw => hwords w (mem_cons_of_mem _ hw)
    refine ⟨.sign s.symbol t, good_unary.2 ⟨ht, hbound⟩, Nat.min_le_right _ 11, ?_, by rw [strip, hstrip, plain]⟩
    cases s <;> simp [Term.tokens, htokens, signToken, spelling, Sign.symbol, Operator.symbol]
  | @binary k ls rs l r o hk hl hr ihl ihr =>
    obtain ⟨a, ha, hbounda, htokensa, hstripa⟩ := ihl fun w hw => hwords w (by simp [hw])
    obtain ⟨b, hb, hboundb, htokensb, hstripb⟩ := ihr fun w hw => hwords w (by simp [hw])
    have hlevel := o.level_lt
    refine ⟨.op o.symbol a b, good_binary.2 ⟨ha, hb, by omega, by omega⟩, ?_, ?_, by rw [strip, hstripa, hstripb, plain]⟩
    · rw [bound, level_symbol]
      omega
    · simp [Term.tokens, htokensa, htokensb, spelling]

theorem Derives.unique (hf : Derives 1 ts f) (hg : Derives 1 ts g)
    (hwords : ∀ w, .word w ∈ ts → Polyglot.isWord w = true) : f = g := by
  obtain ⟨t, ht, -, htokens, hstrip⟩ := hf.exists_term hwords
  obtain ⟨u, hu, -, hutokens, hustrip⟩ := hg.exists_term hwords
  exact plain_injective (by rw [← hstrip, ← hustrip, strip_eq_of_tokens ht hu (htokens.trans hutokens.symm)])

/-! ### Formulas that are not read as they were meant -/

theorem strip_group (x : Bool) (t : Term) : (group x t).strip = t.strip := by cases x <;> rfl

theorem strip_term (f : Formula) : f.term.strip = f.plain := by
  induction f with
  | word => rfl
  | unary s f ih => rw [term, strip, strip_group, ih, plain]
  | binary o l r ihl ihr => rw [term, strip, strip_group, strip_group, ihl, ihr, plain]

theorem tokens_group (h : t.tokens = ts.map spelling) : (group x t).tokens = (enclosed x ts).map spelling := by
  cases x with
  | true => simp [group, enclosed, Term.tokens, h, spelling]
  | false => exact h

theorem tokens_term (f : Formula) : f.term.tokens = f.tokens.map spelling := by
  induction f with
  | word => rfl
  | unary s f ih =>
    rw [term, Term.tokens, tokens_group ih, tokens, map_cons]
    cases s <;> rfl
  | binary o l r ihl ihr => simp [term, Term.tokens, tokens_group ihl, tokens_group ihr, tokens, spelling]

theorem mem_enclosed {w : String} : .word w ∈ enclosed x ts ↔ .word w ∈ ts := by
  cases x <;> simp [enclosed]

def Worded (f : Formula) : Prop := ∀ w, .word w ∈ f.tokens → Polyglot.isWord w = true

theorem worded_unary : (unary s f).Worded ↔ f.Worded := by
  cases s <;> simp [Worded, tokens, signToken, mem_enclosed]

theorem worded_binary {l r : Formula} : (binary o l r).Worded ↔ l.Worded ∧ r.Worded := by
  simp [Worded, tokens, mem_enclosed, or_imp, forall_and]

theorem good_group (x : Bool) (t : Term) : script.good (group x t) = script.good t := by cases x <;> rfl

theorem isGroup_group (x : Bool) (f : Formula) : (group x f.term).isGroup = x := by
  cases x with
  | true => rfl
  | false => cases f <;> rfl

theorem isOp_operand (s : Sign) (f : Formula) : (group (signBrackets s f) f.term).isOp = false := by
  cases f with
  | word | unary => cases signBrackets s _ <;> rfl
  | binary => simp [signBrackets, isNumber, group, isOp]

theorem lawful_term (h : f.Worded) : script.lawful f.term = true := by
  have hgroup (x : Bool) (t : Term) : script.lawful (group x t) = script.lawful t := by cases x <;> rfl
  induction f with
  | word w => exact h w (mem_singleton_self _)
  | unary s f ih =>
    rw [term, lawful, sign_symbol, hgroup, ih (worded_unary.1 h), isOp_operand]
    rfl
  | binary o l r ihl ihr =>
    obtain ⟨hl, hr⟩ := worded_binary.1 h
    have hop : (o.symbol != ")" && script.level o.symbol != 0) = true := by cases o <;> decide
    rw [term, lawful, hgroup, hgroup, ihl hl, ihr hr, Bool.and_assoc, hop]
    rfl

/-- Conditions that are joined get no brackets. -/
theorem bare_term (f : Formula) : script.bare 2 f.term = true := by
  have hgroup (x : Bool) (t : Term) : script.bare 2 (group x t) = script.bare 2 t := by cases x <;> rfl
  induction f with
  | word => rfl
  | unary s f ih => rwa [term, bare, hgroup]
  | binary o l r ihl ihr =>
    refine bare_op.2 ⟨(hgroup _ _).trans ihl, (hgroup _ _).trans ihr, fun hlevel => ?_⟩
    have ho : o.isLogic = true := by
      rw [level_symbol] at hlevel
      cases o <;> first | rfl | exact absurd hlevel (by decide)
    simp [isGroup_group, brackets, ho]

/-- In what is read, runs of operators that join conditions are associated to the left. -/
theorem flatten_of_good (ht : script.good t = true) (hbare : script.bare 2 t = true) (h : t.strip = g.plain) :
    g.flatten = g := by
  induction t generalizing g with
  | word => cases g <;> first | rfl | cases h
  | sign s t ih =>
    cases g with
    | unary s' g =>
      obtain ⟨rfl, hg⟩ := sign.inj h
      rw [flatten, ih (good_unary.1 ht).1 hbare hg]
    | word | binary => cases h
  | group t ih => exact ih ht hbare h
  | op o l r ihl ihr =>
    cases g with
    | word | unary => cases h
    | binary p a b =>
      obtain ⟨rfl, hl, hr⟩ := op.inj h
      obtain ⟨hgoodl, hgoodr, -, hlt⟩ := good_binary.1 ht
      obtain ⟨hbarel, hbarer, hno⟩ := bare_op.1 hbare
      rw [flatten, ihl hgoodl hbarel hl, ihr hgoodr hbarer hr]
      split
      · refine join_other (fun c d hb => ?_) a
        have hlevel : script.level p.symbol ≤ 2 := by cases p <;> first | decide | contradiction
        have hgroup := (hno hlevel).2
        -- a run on the right would stand without brackets
        subst hb
        cases r with
        | op q x y =>
          obtain ⟨rfl, -, -⟩ := op.inj hr
          rw [bound, level_symbol] at hlt
          exact absurd hlt (Nat.lt_irrefl _)
        | group => cases hgroup
        | word | sign => cases hr
      · rfl

theorem flatten_root (o : Operator) (l r : Formula) : ∃ b c, (binary o l r).flatten = .binary o b c := by
  by_cases ho : o.isLogic = true
  · rw [flatten, if_pos ho]
    exact join_root o _ _
  · exact ⟨_, _, by rw [flatten, if_neg ho]⟩

/-- What decides on brackets is not touched by the association of runs. -/
theorem kind_flatten (f : Formula) :
    f.flatten.isWord = f.isWord ∧ f.flatten.isNumber = f.isNumber ∧ f.flatten.binds = f.binds := by
  cases f with
  | word | unary => exact ⟨rfl, rfl, rfl⟩
  | binary o l r =>
    obtain ⟨b, c, h⟩ := flatten_root o l r
    rw [h]
    exact ⟨rfl, rfl, rfl⟩

theorem brackets_logic (ho : o.isLogic = true) (f : Formula) : brackets o f = false := by
  rw [brackets, ho]
  rfl

theorem tokens_join (ho : o.isLogic = true) (a f : Formula) : (join o a f).tokens = a.tokens ++ .op o :: f.tokens := by
  have hbinary (a f : Formula) : (binary o a f).tokens = a.tokens ++ .op o :: f.tokens := by
    rw [tokens, brackets_logic ho, brackets_logic ho]
    rfl
  induction f with
  | word | unary => exact hbinary a _
  | binary p b c ihb ihc =>
    by_cases hp : p = o
    · rw [hp, join_run, hbinary, hbinary, ihb, append_assoc, cons_append]
    · rw [join_other fun b' c' h => hp (binary.inj h).1, hbinary]

theorem brackets_flatten (o : Operator) (f : Formula) : brackets o f.flatten = brackets o f := by
  rw [brackets, (kind_flatten f).1, brackets]

theorem tokens_flatten (f : Formula) : f.flatten.tokens = f.tokens := by
  induction f with
  | word => rfl
  | unary s f ih => rw [flatten, tokens, tokens, ih, signBrackets, (kind_flatten f).2.1, signBrackets]
  | binary o l r ihl ihr =>
    by_cases ho : o.isLogic = true
    · rw [flatten_logic ho, tokens_join ho, ihl, ihr, tokens, brackets_logic ho, brackets_logic ho]
      rfl
    · rw [flatten, if_neg ho, tokens, tokens, brackets_flatten, brackets_flatten, ihl, ihr]

theorem good_term_binary {l r : Formula} : script.good (binary o l r).term = true ↔
    (script.good l.term = true ∧ script.good r.term = true) ∧ (brackets o l = true ∨ o.level ≤ l.binds) ∧
      (brackets o r = true ∨ o.level < r.binds) := by
  have hbound {x : Bool} {f : Formula} {k : Nat} (hk : k ≤ 11) :
      k ≤ script.bound (group x f.term) ↔ x = true ∨ k ≤ f.binds := by
    cases x with
    | true => exact iff_of_true (hk.trans (Nat.le_succ 11)) (.inl rfl)
    | false =>
      rw [or_iff_right Bool.false_ne_true]
      cases f with
      | word => exact iff_of_true (hk.trans (Nat.le_succ 11)) hk
      | unary => exact Iff.rfl
      | binary o l r => rw [group, if_neg Bool.false_ne_true, term, bound, level_symbol, binds]
  rw [term, good_binary, good_group, good_group, hbound o.level_lt.le, ← Nat.succ_le_iff, hbound o.level_lt, and_assoc]
  rfl

theorem good_join (ho : o.isLogic = true) (a f : Formula) : script.good (join o a f).term = true ↔
    (script.good a.term = true ∧ script.good f.term = true) ∧ o.level ≤ a.binds ∧ o.level ≤ f.binds := by
  have hbinary (a f : Formula) : script.good (binary o a f).term = true ↔
      (script.good a.term = true ∧ script.good f.term = true) ∧ o.level ≤ a.binds ∧ o.level < f.binds := by
    simp [good_term_binary, brackets_logic ho]
  induction f with
  | word | unary => exact (hbinary a _).trans (by simp [binds, o.level_lt, o.level_lt.le])
  | binary p b c ihb ihc =>
    by_cases hp : p = o
    · have hbinds : (join o a b).binds = o.level := by
        obtain ⟨x, y, hroot⟩ := join_root o a b
        rw [hroot, binds]
      rw [hp, join_run, hbinary, hbinary, hbinds, show (binary o b c).binds = o.level from rfl]
      grind
    · have hlevel : p.level ≠ o.level := fun h => hp (Operator.eq_of_level_eq ho h)
      rw [join_other fun b' c' h => hp (binary.inj h).1, hbinary, binds, lt_iff_le_and_ne, and_iff_left hlevel.symm]

theorem good_flatten_iff (h : f.Worded) : script.good f.flatten.term = true ↔ f.grouped = true := by
  induction f with
  | word w => exact iff_of_true (h w (mem_singleton_self _)) rfl
  | unary s f ih =>
    have hbound : 11 ≤ script.bound (group (signBrackets s f.flatten) f.flatten.term) :=
      le_bound_of_not_isOp (S := script) (isOp_operand s f.flatten)
    rw [flatten, term, good_unary, and_iff_left hbound, good_group, ih (worded_unary.1 h), grouped]
  | binary o l r ihl ihr =>
    obtain ⟨hl, hr⟩ := worded_binary.1 h
    simp only [grouped, Bool.and_eq_true, Bool.or_eq_true, and_assoc]
    by_cases ho : o.isLogic = true
    · rw [flatten_logic ho, good_join ho, ihl hl, ihr hr, (kind_flatten l).2.2, (kind_flatten r).2.2]
      simp [brackets_logic ho, ho, and_assoc]
    · rw [flatten, if_neg ho, good_term_binary, ihl hl, ihr hr, brackets_flatten, brackets_flatten, (kind_flatten l).2.2,
        (kind_flatten r).2.2]
      simp [ho, and_assoc]

/-- The grammar derives a formula whose operands bind tightly enough. -/
theorem derives_of_good (h : script.good f.term = true) : Derives f.binds f.tokens f := by
  induction f with
  | word w => exact .word _ w
  | unary s f ih =>
    have hoperand : signBrackets s f = true ∨ 11 ≤ f.binds := by
      cases f with
      | word | unary => exact .inr le_rfl
      | binary => exact .inl (by simp [signBrackets, isNumber])
    have hgood : script.good f.term = true := (good_group _ _).symm.trans (good_unary.1 h).1
    exact .unary s le_rfl ((ih hgood).enclosed f.binds_pos hoperand)
  | binary o l r ihl ihr =>
    obtain ⟨⟨hl, hr⟩, hfitl, hfitr⟩ := good_term_binary.1 h
    exact .binary o le_rfl ((ihl hl).enclosed l.binds_pos hfitl) ((ihr hr).enclosed r.binds_pos hfitr)

/-- What is written for a formula is read as it was meant if and only if its operands bind tight enough. -/
theorem derives_tokens_iff (hwords : f.Worded) : (∃ g, Derives 1 f.tokens g ∧ g.flatten = f.flatten) ↔ f.grouped = true := by
  have hwords' : f.flatten.Worded := by rwa [Worded, tokens_flatten]
  rw [← good_flatten_iff hwords]
  constructor
  · rintro ⟨g, hg, hflat⟩
    obtain ⟨t, ht, -, htokens, hstrip⟩ := hg.exists_term hwords
    obtain ⟨u, hu⟩ := exists_regrouped (lawful_term hwords')
    have htokens' : u.tokens = t.tokens := by rw [hu.tokens, tokens_term, tokens_flatten, htokens]
    have hread : u.strip = g.plain := (strip_eq_of_tokens hu.good ht htokens').trans hstrip
    have hg : g = f.flatten := (flatten_of_good hu.good (hu.bare 2 (bare_term _)) hread).symm.trans hflat
    have hsame : u = f.flatten.term := hu.eq_of_strip (by rw [hread, hg, strip_term])
    exact hsame ▸ hu.good
  · intro h
    have hderives := (derives_of_good h).mono f.flatten.binds_pos
    exact ⟨f.flatten, tokens_flatten f ▸ hderives, flatten_of_good h (bare_term _) (strip_term _)⟩

end Polyglot.Formula
