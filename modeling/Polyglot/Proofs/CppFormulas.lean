import Polyglot.Proofs.FormulaText
import Polyglot.Proofs.Held
import Polyglot.Target.Cpp

/-!
# Expressions of C++

An expression over names, whole numbers, signs, operators, comparisons and conditions stands for a formula, and the
text that is emitted for it is the text of this formula.
-/
namespace Polyglot.Cpp

open Session Emit Effect Dialect List Option Formula

attribute [local simp] Shape.children

variable {o : Operator} {f : Formula} {t id u : String} {n : Node} {k : Nat} {ts : List String} {vs : List Node}
  {op : CmpOp}

/-! ### The formula of an expression -/

def isIdentifier (id : String) : Bool :=
  !id.toList.isEmpty && id.toList.all isWordChar && !id.toList.head?.any Char.isDigit

def spelled (id : String) : String :=
  if id = "None" then "nullptr"
  else if keywords.contains id then id ++ "_"
  else if id == "True" then "true" else if id == "False" then "false" else id

def signOf : UnaryOp → Option Sign
  | .not => some .not
  | .minus => some .minus
  | .invert | .plus => none

def operatorOf : BinOp → Option Operator
  | .add => some .add | .sub => some .sub | .mult => some .mul | .div | .floorDiv => some .div | .mod => some .rem
  | .lShift => some .shl | .rShift => some .shr | .bitOr => some .bitOr | .bitXor => some .bitXor
  | .bitAnd => some .bitAnd | .pow | .matMult => none

def comparisonOf : CmpOp → Option Operator
  | .eq | .same => some .eq | .notEq | .notSame => some .ne | .lt => some .lt | .ltE => some .le | .gt => some .gt
  | .gtE => some .ge | .isIn | .notIn => none

def logicOf : BoolOp → Operator
  | .and => .and
  | .or => .or

/-- The formula for which an expression stands that is less than `k` levels deep. -/
def formulaOf : Nat → Node → Option Formula
  | 0, _ => none
  | k + 1, n =>
    match n.shape with
    | .name id _ => if isIdentifier id then some (.word (spelled id)) else none
    | .constant (.int i) _ => if 0 ≤ i then some (.word (toString i)) else none
    | .unaryOp op e => do return .unary (← signOf op) (← formulaOf k e)
    | .binOp l op r => do return .binary (← operatorOf op) (← formulaOf k l) (← formulaOf k r)
    | .compare l [op] [r] => do return .binary (← comparisonOf op) (← formulaOf k l) (← formulaOf k r)
    | .boolOp op (v :: w :: vs) => do
      let f ← formulaOf k v
      return (← (w :: vs).mapM (formulaOf k)).foldl (.binary (logicOf op)) f
    | _ => none

inductive Stands (k : Nat) (n : Node) : Formula → Prop
  | name {id : String} {u : Usage} (hn : n.shape = .name id u) (hid : isIdentifier id = true) : Stands k n (.word (spelled id))
  | number {i : Nat} {m : Bool} (hn : n.shape = .constant (.int i) m) : Stands k n (.word (toString i))
  | unary {op : UnaryOp} {s : Sign} {e : Node} {f : Formula} (hn : n.shape = .unaryOp op e) (hop : signOf op = some s)
      (he : formulaOf k e = some f) : Stands k n (.unary s f)
  | arithmetic {op : BinOp} {o : Operator} {l r : Node} {f g : Formula} (hn : n.shape = .binOp l op r)
      (hop : operatorOf op = some o) (hl : formulaOf k l = some f) (hr : formulaOf k r = some g) : Stands k n (.binary o f g)
  | comparison {op : CmpOp} {o : Operator} {l r : Node} {f g : Formula} (hn : n.shape = .compare l [op] [r])
      (hop : comparisonOf op = some o) (hl : formulaOf k l = some f) (hr : formulaOf k r = some g) :
      Stands k n (.binary o f g)
  | logic {op : BoolOp} {v : Node} {vs : List Node} {f g : Formula} {fs : List Formula} (hn : n.shape = .boolOp op (v :: vs))
      (hv : formulaOf k v = some f) (hvs : List.Forall₂ (fun v g => formulaOf k v = some g) vs (g :: fs)) :
      Stands k n ((g :: fs).foldl (.binary (logicOf op)) f)

theorem stands_of_formulaOf (h : formulaOf (k + 1) n = some f) : Stands k n f := by
  unfold formulaOf at h
  split at h <;> try simp only [bind_eq_bind, bind_eq_some_iff] at h
  case h_1 id u hn =>
    split at h <;> cases h
    exact .name hn ‹_›
  case h_2 i m hn =>
    split at h <;> cases h
    obtain ⟨i, rfl⟩ := Int.eq_ofNat_of_zero_le ‹_›
    exact .number hn
  case h_3 op e hn =>
    obtain ⟨s, hs, f, hf, ⟨⟩⟩ := h
    exact .unary hn hs hf
  case h_4 l op r hn =>
    obtain ⟨o, ho, f, hf, g, hg, ⟨⟩⟩ := h
    exact .arithmetic hn ho hf hg
  case h_5 l op r hn =>
    obtain ⟨o, ho, f, hf, g, hg, ⟨⟩⟩ := h
    exact .comparison hn ho hf hg
  case h_6 op v w vs hn =>
    obtain ⟨f, hf, fs, hfs, ⟨⟩⟩ := h
    have hvs := forall₂_of_mapM_some hfs
    cases hvs with
    | cons hw hvs => exact .logic hn hf (.cons hw hvs)
  case h_7 => cases h

/-! ### Words -/

theorem operand_of_cons {w : String} {c : Char} {cs : List Char} (hw : w.toList = c :: cs)
    (hall : (c :: cs).all isWordChar = true) (hoperator : w ∉ operatorWords) :
    isOperand w = true ∧ (word w).isNumber = c.isDigit := by
  constructor
  · simp [isOperand, hw, hoperator, hall]
  · simp [Formula.isNumber, hw]

/-- A name is written as a word that is read as an operand, and not as a number. -/
theorem spelled_operand (h : isIdentifier id = true) :
    isOperand (spelled id) = true ∧ (word (spelled id)).isNumber = false := by
  simp only [isIdentifier, Bool.and_eq_true, Bool.not_eq_true', isEmpty_eq_false_iff] at h
  obtain ⟨⟨hne, hall⟩, hdigit⟩ := h
  obtain ⟨c, cs, hid⟩ := exists_cons_of_ne_nil hne
  rw [hid] at hall
  have hdigit : c.isDigit = false := by simpa [hid] using hdigit
  unfold spelled
  split_ifs with hnone hkeyword htrue hfalse
  · decide
  · have hoperator : ∀ w ∈ keywords, w ++ "_" ∉ operatorWords := by decide
    have hlist : (id ++ "_").toList = c :: (cs ++ ['_']) := by
      rw [String.toList_append, hid]
      rfl
    rw [← hdigit]
    refine operand_of_cons hlist ?_ (hoperator id (contains_iff_mem.1 hkeyword))
    rw [← cons_append, all_append, hall]
    rfl
  · decide
  · decide
  · have hoperator : ∀ w ∈ operatorWords, w ∈ keywords := by decide
    rw [← hdigit]
    exact operand_of_cons hid hall fun hmem => hkeyword (contains_iff_mem.2 (hoperator id hmem))

theorem number_operand (i : Nat) :
    isOperand (toString i) = true ∧ (word (toString i)).isNumber = true := by
  obtain ⟨hne, hdigits⟩ := digits_number i
  obtain ⟨c, cs, hcs⟩ := exists_cons_of_ne_nil hne
  rw [hcs] at hdigits
  have hc := hdigits c mem_cons_self
  nth_rewrite 2 [← hc]
  refine operand_of_cons hcs (all_eq_true.2 fun d hd => ?_) fun hmem => ?_
  · simp [isWordChar, Char.isAlphanum, hdigits d hd]
  · have hletters : (operatorWords.all fun w => w.toList.head?.all (!·.isDigit)) = true := by decide
    have hletter := all_eq_true.1 hletters _ hmem
    simp only [hcs] at hletter
    simp [hc] at hletter

/-! ### What is emitted -/

theorem foldl_root (o : Operator) (f g : Formula) (fs : List Formula) :
    ∃ l r, (g :: fs).foldl (.binary o) f = Formula.binary o l r := by
  induction fs generalizing f g with
  | nil => exact ⟨f, g, rfl⟩
  | cons h fs ih => exact ih (.binary o f g) h

theorem foldl_proper {fs : List Formula} (hf : f.proper = true) (hfs : ∀ g ∈ fs, g.proper = true) :
    (fs.foldl (.binary o) f).proper = true := by
  induction fs generalizing f with
  | nil => exact hf
  | cons g fs ih =>
    have hfg : (Formula.binary o f g).proper = true := by rw [Formula.proper, hf, hfs g mem_cons_self]; rfl
    exact ih hfg fun g' hg' => hfs g' (mem_cons_of_mem g hg')

theorem foldl_text (ho : o.isLogic = true) (f : Formula) (fs : List Formula) :
    (fs.foldl (.binary o) f).text = o.symbol.intercalate (f.text :: fs.map Formula.text) := by
  induction fs generalizing f with
  | nil => exact String.intercalate_singleton.symm
  | cons g fs ih =>
    have htext : (Formula.binary o f g).text = f.text ++ o.symbol ++ g.text := by
      simp [Formula.text, Formula.brackets, Formula.inBrackets, Formula.spaced, ho]
    rw [foldl_cons, ih, htext, String.intercalate_cons_append, map_cons, String.intercalate_cons_cons]

/-- An expression and its formula agree in what the rules for brackets go by. -/
structure Agree (n : Node) (f : Formula) : Prop where
  isWord : (n.isName || n.isConstant) = f.isWord
  isNumber : (n.isCall || isNumber n) = f.isNumber
  not_list : ∀ es u, n.shape ≠ .list es u

theorem agree_of_formulaOf (h : formulaOf k n = some f) : Agree n f := by
  obtain ⟨_, _, _, shape⟩ := n
  cases k with
  | zero => cases h
  | succ k =>
    cases stands_of_formulaOf h with
    | name hn hid =>
      obtain rfl : shape = _ := hn
      exact ⟨rfl, (spelled_operand hid).2.symm, by simp⟩
    | number hn =>
      obtain rfl : shape = _ := hn
      exact ⟨rfl, (number_operand _).2.symm, by simp⟩
    | unary hn | arithmetic hn | comparison hn =>
      obtain rfl : shape = _ := hn
      exact ⟨rfl, rfl, by simp⟩
    | @logic op v vs f g fs hn hv hvs =>
      obtain rfl : shape = _ := hn
      obtain ⟨l, r, hroot⟩ := foldl_root (logicOf op) f g fs
      rw [hroot]
      exact ⟨rfl, rfl, by simp⟩

theorem proper_formulaOf (h : formulaOf k n = some f) : f.proper = true := by
  induction k generalizing n f with
  | zero => cases h
  | succ k ih =>
    cases stands_of_formulaOf h with
    | name hn hid => exact (spelled_operand hid).1
    | number hn => exact (number_operand _).1
    | unary hn hop he =>
      rw [Formula.proper]
      exact ih he
    | arithmetic hn hop hl hr | comparison hn hop hl hr => rw [Formula.proper, ih hl, ih hr]; rfl
    | logic hn hv hvs => exact foldl_proper (ih hv) (forall_right hvs fun _ _ hg => ih hg)

/-! ### How expressions are emitted -/

/-- A node is emitted as a text, and nothing else comes of it. -/
def Says (visit : Visit) (p : Page) (n : Node) (t : String) : Prop := visit n p = .ok (some t) p

def level (self : Visit) : Visit := fun n => do
  let n ← current n
  guarded n (step self n)

variable {p : Page} {n : Node} {self : Visit} {k : Nat}

theorem says_level (hkey : p.session.keyAt n.id = some n.key) (hn : n.shape.opening? = none) (hstep : Says (step self) p n t) :
    Says (level self) p n t := by
  obtain ⟨c, hc, hck⟩ := current_of_keyAt hkey
  obtain rfl := Node.eq_of_key hck hn
  have hcurrent : (liftM (current c) : Emit Node) p = .ok c p := lift_analysis_ok hc
  exact (bind_ok hcurrent).trans (catch_ok hstep)

theorem say_ok (h : Says self p n t) : (dialect self).say n p = .ok t p := (bind_ok h).trans rfl

theorem says_name {u : Usage} (hn : n.shape = .name id u) : Says (step self) p n (spelled id) := by
  have hstep : step self n = pure (some (spelled id)) := by
    by_cases hnone : id = "None"
    · subst hnone
      simp only [step, hn]
      rfl
    · have hplain : (if keywords.contains id then some (id ++ "_") else plainName id) = some (spelled id) := by
        rw [spelled, if_neg hnone, plainName]
        split <;> rfl
      rw [← hplain]
      simp only [step, hn]
  rw [Says, hstep]
  rfl

theorem says_number {i : Nat} {m : Bool} (hn : n.shape = .constant (.int i) m) : Says (step self) p n (toString i) := by
  unfold Says step
  simp only [hn, Dialect.step]
  rfl

theorem says_unary {op : UnaryOp} {s : Sign} {e : Node} (hn : n.shape = .unaryOp op e) (hop : signOf op = some s)
    (he : Says self p e t) :
    Says (step self) p n (s.symbol ++ Formula.inBrackets (!(s == .minus && (e.isCall || isNumber e))) t) := by
  have hsay := say_ok he
  cases op with
  | invert | plus => cases hop
  | not =>
    cases hop
    unfold Says step
    simp only [hn, Dialect.step]
    exact (bind_ok hsay).trans (by simp [Formula.inBrackets, Sign.symbol, String.append_assoc]; rfl)
  | minus =>
    cases hop
    unfold Says step
    simp only [hn, Dialect.step]
    refine (bind_ok hsay).trans ?_
    by_cases hx : (e.isCall || isNumber e) = true <;> simp [hx, Formula.inBrackets, Sign.symbol] <;> rfl

theorem says_comparison {l r : Node} (hn : n.shape = .compare l [op] [r]) (hop : comparisonOf op = some o)
    (hl : Says self p l t) (hr : Says self p r u) : Says (step self) p n (t ++ " " ++ o.symbol ++ " " ++ u) := by
  have hsymbol : (dialect self).comparisonSymbol op = o.symbol := by cases op <;> cases hop <;> rfl
  have hstep : step self n = (dialect self).comparison n l [op] [r] := by simp only [step, hn, Dialect.step]
  have hrule : (dialect self).comparison n l [op] [r] = (do
      let t ← (dialect self).say l
      return some (t ++ " " ++ (dialect self).comparisonSymbol op ++ " " ++ (← (dialect self).say r))) := by
    cases op with
    | isIn => cases hop
    | _ => rfl
  rw [Says, hstep, hrule, bind_ok (say_ok hl), bind_ok (say_ok hr), hsymbol]
  rfl

theorem operand_ok (h : Says self p n t) : operand self n p = .ok (Formula.inBrackets (!(n.isName || n.isConstant)) t) p := by
  refine (bind_ok h).trans ?_
  by_cases hx : (n.isName || n.isConstant) = true
  · rw [hx]
    rfl
  · rw [Bool.not_eq_true] at hx
    rw [hx]
    rfl

theorem says_arithmetic {op : BinOp} {l r : Node} (hn : n.shape = .binOp l op r) (hop : operatorOf op = some o)
    (hlist : ∀ es us, l.shape ≠ .list es us) (hl : Says self p l t) (hr : Says self p r u) :
    Says (step self) p n (Formula.inBrackets (!(l.isName || l.isConstant)) t ++ " " ++ o.symbol ++ " " ++
      Formula.inBrackets (!(r.isName || r.isConstant)) u) := by
  have hsymbol : Symbols.common.binary op = some o.symbol := by cases op <;> cases hop <;> rfl
  have hstep : step self n = binary self l op r := by simp only [step, hn]
  have hplain : binary self l op r = binary.plain self l op r := by
    unfold binary
    split
    · exact absurd ‹_› (hlist _ _)
    · cases hop
    · rfl
  rw [Says, hstep, hplain, binary.plain, bind_ok (operand_ok hl), bind_ok (operand_ok hr), hsymbol]
  rfl

theorem mapM_said (h : List.Forall₂ (Says self p) vs ts) : vs.mapM self p = .ok (ts.map some) p := by
  induction h with
  | nil => rfl
  | cons hv _ ih =>
    exact mapM_cons_eq_ok.2 ⟨p, hv, ih⟩

theorem says_logic {op : BoolOp} (hn : n.shape = .boolOp op vs) (hvs : List.Forall₂ (Says self p) vs ts) :
    Says (step self) p n ((logicOf op).symbol.intercalate ts) := by
  have hstep : step self n = (do return some (← (dialect self).joined (logicOf op).symbol vs)) := by
    simp only [step, hn, Dialect.step]
    cases op <;> rfl
  have hjoined : (dialect self).joined (logicOf op).symbol vs p = .ok ((logicOf op).symbol.intercalate ts) p :=
    (bind_ok (mapM_said hvs)).trans (join_some _ ts)
  rw [Says, hstep, bind_ok hjoined]
  rfl

theorem text_of_arithmetic {op : BinOp} (hop : operatorOf op = some o) (f g : Formula) :
    (Formula.binary o f g).text =
      Formula.inBrackets (!f.isWord) f.text ++ " " ++ o.symbol ++ " " ++ Formula.inBrackets (!g.isWord) g.text := by
  have ho : o.isLogic = false ∧ o.isComparison = false := by cases op <;> cases hop <;> decide
  simp [Formula.text, Formula.brackets, Formula.spaced, ho, String.append_assoc]

theorem text_of_comparison (hop : comparisonOf op = some o) (f g : Formula) :
    (Formula.binary o f g).text = f.text ++ " " ++ o.symbol ++ " " ++ g.text := by
  have ho : o.isLogic = false ∧ o.isComparison = true := by cases op <;> cases hop <;> decide
  simp [Formula.text, Formula.brackets, Formula.inBrackets, Formula.spaced, ho, String.append_assoc]

/-- An expression that stands for a formula is emitted as the text of the formula. -/
theorem says_formula {stop : Visit} {j : Nat} (hheld : Holds k p.session n) (hf : formulaOf k n = some f) (hj : k ≤ j) :
    Says (tie level stop j) p n f.text := by
  induction k generalizing j n f with
  | zero => cases hf
  | succ k ih =>
    obtain ⟨j, rfl⟩ := exists_succ_of_lt hj
    obtain ⟨hkey, hchildren⟩ := hheld
    have hpart {c : Node} {g : Formula} (hc : c ∈ n.shape.children) (hg : formulaOf k c = some g) :
        Says (tie level stop j) p c g.text := ih (hchildren c hc) hg (by omega)
    have hstands := stands_of_formulaOf hf
    have hopening : n.shape.opening? = none := by
      cases hstands with
      | name hn | number hn | unary hn | arithmetic hn | comparison hn | logic hn => rw [hn]; rfl
    refine says_level hkey hopening ?_
    cases hstands with
    | name hn hid => exact says_name hn
    | number hn => exact says_number hn
    | unary hn hop he =>
      have hsays := says_unary hn hop (hpart (by simp [hn]) he)
      rwa [(agree_of_formulaOf he).isNumber] at hsays
    | arithmetic hn hop hl hr =>
      have hsays := says_arithmetic hn hop (agree_of_formulaOf hl).not_list (hpart (by simp [hn]) hl)
        (hpart (by simp [hn]) hr)
      rwa [(agree_of_formulaOf hl).isWord, (agree_of_formulaOf hr).isWord, ← text_of_arithmetic hop] at hsays
    | comparison hn hop hl hr =>
      have hsays := says_comparison hn hop (hpart (by simp [hn]) hl) (hpart (by simp [hn]) hr)
      rwa [← text_of_comparison hop] at hsays
    | @logic op v vs f g fs hn hv hvs =>
      have hlogic : (logicOf op).isLogic = true := by cases op <;> rfl
      have htexts : List.Forall₂ (Says (tie level stop j) p) vs ((g :: fs).map Formula.text) := by
        rw [forall₂_map_right_iff]
        exact forall₂_of_mem hvs fun c g hc hg => hpart (by simp [hn, hc]) hg
      have hsays := says_logic hn (.cons (hpart (by simp [hn]) hv) htexts)
      rwa [← foldl_text hlogic] at hsays

/-- Every expression that stands for a formula, at any depth that programs may have, is emitted as a text that has at most
one reading. It reads as it was meant, but for redundant brackets and the association of conditions that are joined by
one operator, if and only if each operand that gets no brackets binds tight enough. -/
theorem emit_reads_back_iff (k : Nat) (n : Node) (f : Formula) (p : Page) (hf : formulaOf k n = some f)
    (hheld : Holds k p.session n) (hk : k ≤ nestingLimit) :
    ∃ text, emit n p = .ok (some text) p ∧ (∀ g h, Formula.Reads text g → Formula.Reads text h → g = h) ∧
      ((∃ g, Formula.Reads text g ∧ g.flatten = f.flatten) ↔ f.grouped = true) := by
  have hsays : Says emit p n f.text := says_formula hheld hf hk
  exact ⟨f.text, hsays, fun g h hg hh => hg.unique hh, reads_text_iff (proper_formulaOf hf)⟩

def node (id : NodeId) (shape : Shape Node) : Node := ⟨id, some 1, none, shape⟩

def variable_ (id : NodeId) (name : String) : Node := node id (.name name .load)

/-- The condition `not (a and (b and -1 < c * (d - 2)))`. -/
def condition : Node :=
  let minus := node 4 (.unaryOp .minus (node 3 (.constant (.int 1) false)))
  let difference := node 8 (.binOp (variable_ 6 "d") .sub (node 7 (.constant (.int 2) false)))
  let product := node 9 (.binOp (variable_ 5 "c") .mult difference)
  let less := node 10 (.compare minus [.lt] [product])
  node 13 (.unaryOp .not (node 12 (.boolOp .and [variable_ 1 "a", node 11 (.boolOp .and [variable_ 2 "b", less])])))

/-- It is read as it was meant. -/
theorem emit_condition_reads_back :
    ∃ p : Page, Holds 7 p.session condition ∧ ∃ f text, formulaOf 7 condition = some f ∧
      emit condition p = .ok (some text) p ∧ ∃ g, Formula.Reads text g ∧ g.flatten = f.flatten := by
  have hlimit : 7 ≤ nestingLimit := le_nestingLimit (by decide)
  obtain ⟨nodes, -, hheld, -⟩ := recordAll_ok (k := 7) (n := condition) (by decide) (by decide) hlimit {}
  obtain ⟨f, hf⟩ : ∃ f, formulaOf 7 condition = some f := ⟨_, rfl⟩
  obtain ⟨text, htext, -, hreads⟩ := emit_reads_back_iff 7 condition f { session := { nodes } } hf hheld hlimit
  refine ⟨_, hheld, f, text, hf, htext, hreads.2 ?_⟩
  cases hf
  decide

/-- The condition `(a or b) and c`. -/
def misgrouped : Node :=
  node 5 (.boolOp .and [node 4 (.boolOp .or [variable_ 1 "a", variable_ 2 "b"]), variable_ 3 "c"])

/-- It is emitted without brackets, and is read as `a or (b and c)`. -/
theorem emit_misgrouped :
    (match emit misgrouped {} with | .ok text _ => text | .error _ _ => none) = some "a||b&&c" ∧
      Formula.Reads "a||b&&c" (.binary .or (.word "a") (.binary .and (.word "b") (.word "c"))) ∧
      ¬ ∃ g, Formula.Reads "a||b&&c" g ∧
        g.flatten = (Formula.binary .and (.binary .or (.word "a") (.word "b")) (.word "c")).flatten := by
  have hread : Formula.Reads "a||b&&c" (.binary .or (.word "a") (.binary .and (.word "b") (.word "c"))) :=
    ⟨[.word "a", .op .or, .word "b", .op .and, .word "c"], by decide,
      .binary .or le_rfl (.word _ _) (.binary .and le_rfl (.word _ _) (.word _ _))⟩
  refine ⟨by decide +kernel, hread, ?_⟩
  rintro ⟨g, hg, hflat⟩
  obtain rfl := hg.unique hread
  revert hflat
  decide

end Polyglot.Cpp
