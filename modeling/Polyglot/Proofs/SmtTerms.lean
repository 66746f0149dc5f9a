import Polyglot.Proofs.SExpr
import Polyglot.Proofs.TypeReading

/-!
# Terms of SMT

An expression over names, whole numbers, operators, comparisons and conditions stands for a term: an operator in front
of its operands. The text that is emitted for it is read as this term, but for operands that are cast because the other
operand has a wider type.
-/
namespace Polyglot.Smt

open Session Emit Effect Dialect List

attribute [local simp] Node.children Shape.children

variable {t : TypeTerm} {s : Session} {P : Option String → Prop} {id w : String} {symbol : Option String}
  {ts : List String} {es xs : List SExpr}

/-! ### The term of an expression -/

def isToken (w : String) : Bool := !w.toList.isEmpty && w.toList.all SExpr.isWordChar

def spelled (id : String) : String := Text.replaceAll id "_" "-"

def form (symbol : Option String) (es : List SExpr) : SExpr := .list (.atom (shown symbol) :: es)

/-- The term for which an expression stands that is less than `k` levels deep. -/
def termOf : Nat → Node → Option SExpr
  | 0, _ => none
  | k + 1, n =>
    match n.shape with
    | .name id _ => if isToken id then some (.atom (spelled id)) else none
    | .constant (.int i) _ => if 0 ≤ i then some (.atom (toString i)) else none
    | .unaryOp op e => do return form (symbols.unary op) [← termOf k e]
    | .binOp l op r => if op = .pow then none else do return form (symbols.binary op) [← termOf k l, ← termOf k r]
    | .compare l [op] [r] => if op = .isIn then none else do return form (symbols.comparison op) [← termOf k l, ← termOf k r]
    | .boolOp op vs => do return form (symbols.logic op) (← vs.mapM (termOf k))
    | _ => none

/-! ### Words -/

theorem isToken_iff : isToken w = true ↔ w.toList ≠ [] ∧ ∀ c ∈ w.toList, SExpr.isWordChar c = true := by
  simp [isToken]

theorem spells_token (h : isToken w = true) : SExpr.Spells w [.atom w] := by
  refine .word (fun hw => (isToken_iff.1 h).1 ?_) (isToken_iff.1 h).2
  rw [hw]
  rfl

theorem spelled_eq (h : '_' ∉ id.toList) : spelled id = id := Text.replaceAll_of_not_mem (by decide) h

theorem spelled_toList (x : String) : (spelled x).toList = x.toList.map fun c => if c = '_' then '-' else c := by
  rw [spelled, Text.replaceAll_char (c := '_') rfl, map_eq_flatMap]
  congr 1
  funext c
  split <;> rfl

theorem isToken_spelled (h : isToken id = true) : isToken (spelled id) = true := by
  rw [isToken_iff] at h ⊢
  rw [spelled_toList]
  refine ⟨by simpa using h.1, forall_mem_map.2 fun c hc => ?_⟩
  split
  · rfl
  · exact h.2 c hc

theorem spells_number (i : Nat) : SExpr.Spells (toString i) [.atom (toString i)] := by
  refine spells_token (isToken_iff.2 ⟨(digits_number i).1, fun d hd => ?_⟩)
  have hdigit := (digits_number i).2 d hd
  rw [SExpr.isWordChar, Bool.not_eq_true', Bool.eq_false_iff]
  intro hother
  simp only [SExpr.isSpace, Bool.or_eq_true, beq_iff_eq] at hother
  rcases hother with ((((rfl | rfl) | rfl) | rfl) | rfl) | rfl <;> cases hdigit

/-! ### Casts -/

/-- The words by which an operand is cast. -/
def castWords : List String := ranks.map fun r => "to_" ++ Text.lower r.1

def dropCast : List SExpr → SExpr
  | [.atom w, e] => if castWords.contains w then e else .list [.atom w, e]
  | es => .list es

mutual
def uncast : SExpr → SExpr
  | .atom w => .atom w
  | .list es => dropCast (uncastAll es)

def uncastAll : List SExpr → List SExpr
  | [] => []
  | e :: es => uncast e :: uncastAll es
end

theorem uncastAll_eq_map (es : List SExpr) : uncastAll es = es.map uncast := by
  induction es with
  | nil => rfl
  | cons e es ih => rw [uncastAll, ih, map_cons]

/-- What an operator makes of its operands is no cast. -/
theorem uncast_form (hsymbol : shown symbol ∉ castWords) (es : List SExpr) :
    uncast (form symbol es) = form symbol (es.map uncast) := by
  rw [form, uncast, uncastAll, uncast, uncastAll_eq_map]
  unfold dropCast
  split
  · rename_i h
    obtain ⟨⟨⟩, hes⟩ := List.cons.inj h
    rw [if_neg (by simpa using hsymbol), form, hes]
  · rfl

theorem uncast_cast (hw : w ∈ castWords) (e : SExpr) : uncast (.list [.atom w, e]) = uncast e := by
  rw [uncast, uncastAll, uncastAll, uncastAll, uncast, dropCast, if_pos (by simpa using hw)]

/-- A type that is wider than another one has a name, and with it a cast. -/
theorem spells_cast {text : String} {e : SExpr} (ht : native.rankOf t.text? ≠ 0) (htext : SExpr.Spells text [e]) :
    ∃ w ∈ castWords, SExpr.Spells (cast text t) [.list [.atom w, e]] := by
  obtain ⟨s, r, rfl, hr, -⟩ := NativeTypes.exists_rank ht
  have hw : "to_" ++ Text.lower s ∈ castWords := by
    exact mem_map.2 ⟨(s, r), hr, rfl⟩
  refine ⟨_, hw, ?_⟩
  have hform := SExpr.Spells.form (spells_token (all_eq_true.1 (by decide : castWords.all isToken = true) _ hw)) (.cons htext .nil)
  exact hform

/-! ### Types of operands -/

theorem looks_applied {γ : Type} {π : Facts → γ} (value index : TypeTerm) : Looks π (applied value index) := by
  refine of_ite ?_ (.pure _)
  cases index with
  | text => exact .pure _
  | many ts =>
    refine (Looks.mapM (fun t => ?_) ts).bind fun _ => .pure _
    cases t with
    | text => exact .pure _
    | _ => exact .throw
  | _ => exact .throw

theorem style_overlooking : style.Overlooking where
  nameType _ _ _ := .pure _
  combine := looks_applied
  container := TypeStyle.looks_commonContainer looks_applied
  functionType := rfl

/-- The type of a node can be named, and has a rank. -/
def Ranked (s : Session) (n : Node) (r : Nat) : Prop :=
  ∃ t s', style.ofHint n s = .ok t s' ∧ (∀ ts, t ≠ .many ts) ∧ native.rankOf t.text? = r

/-- The operands of an operation, of which the types are compared. -/
def sides (n : Node) : List Node :=
  match n.shape with
  | .binOp l _ r => [l, r]
  | _ => []

/-- The operands of all operations of an expression that is less than `k` levels deep. -/
def operands : Nat → Node → List Node
  | 0, _ => []
  | k + 1, n => sides n ++ (n.children.map (operands k)).flatten

/-! ### What is emitted -/

/-- A text that is read as a term but for casts, and as the term itself if nothing is to be cast. -/
def Written (plain : Prop) (e : SExpr) (t : String) : Prop :=
  ∃ e', SExpr.Spells t [e'] ∧ uncast e' = e ∧ (plain → e' = e)

def isSymbol (symbol : Option String) : Bool := isToken (shown symbol) && !castWords.contains (shown symbol)

namespace Written

variable {plain : Prop} {e : SExpr} {text : String}

theorem mono {plain' : Prop} (h : Written plain e text) (hplain : plain' → plain) : Written plain' e text := by
  obtain ⟨e', hspells, huncast, he⟩ := h
  exact ⟨e', hspells, huncast, fun hp => he (hplain hp)⟩

theorem atom (hw : SExpr.Spells w [.atom w]) : Written plain (.atom w) w :=
  ⟨.atom w, hw, by rw [uncast], fun _ => rfl⟩

theorem cast (h : Written plain e text) (ht : native.rankOf t.text? ≠ 0) (hplain : ¬ plain) :
    Written plain e (Smt.cast text t) := by
  obtain ⟨e', hspells, rfl, -⟩ := h
  obtain ⟨w, hw, hcast⟩ := spells_cast ht hspells
  exact ⟨_, hcast, uncast_cast hw e', fun hp => absurd hp hplain⟩

theorem all (h : List.Forall₂ (fun t e => Written plain e t) ts es) :
    ∃ es', List.Forall₂ (fun t e => SExpr.Spells t [e]) ts es' ∧ es'.map uncast = es ∧ (plain → es' = es) := by
  induction h with
  | nil => exact ⟨[], .nil, rfl, fun _ => rfl⟩
  | cons he _ ih =>
    obtain ⟨e', hspells, rfl, he⟩ := he
    obtain ⟨es', hes', rfl, hplain⟩ := ih
    refine ⟨e' :: es', .cons hspells hes', rfl, fun hp => ?_⟩
    rw [← he hp, ← hplain hp]

theorem form (hsymbol : isSymbol symbol = true) (h : List.Forall₂ (fun t e => Written plain e t) ts es) :
    Written plain (form symbol es) ("(" ++ shown symbol ++ " " ++ " ".intercalate ts ++ ")") := by
  obtain ⟨es', hspells, rfl, hplain⟩ := all h
  simp only [isSymbol, Bool.and_eq_true, Bool.not_eq_true', contains_eq_mem, decide_eq_false_iff_not] at hsymbol
  refine ⟨Smt.form symbol es', .form (spells_token hsymbol.1) hspells, uncast_form hsymbol.2 es', fun hp => ?_⟩
  rw [← hplain hp]

end Written

def level (self : Visit) : Visit := fun n => do
  let n ← current n
  guarded n (step self n)

section

variable {p0 : Page} {n l r : Node} {self : Visit} {k i : Nat} {c d plain : Prop} {e x y : SExpr}

/-- A node is emitted as a text that is read as a term. -/
abbrev Emits (p0 : Page) (c plain : Prop) (e : SExpr) (x : Emit (Option String)) : Prop :=
  Conveys p0 c (fun r => ∃ t ∈ r, Written plain e t) x

theorem conveys_say (h : Emits p0 c plain e (self n)) : Conveys p0 c (Written plain e) ((dialect self).say n) := by
  refine h.last fun r hr => .pure ?_
  obtain ⟨t, rfl, ht⟩ := hr
  exact ht

theorem emits_name {u : Usage} (hn : n.shape = .name id u) (hid : isToken id = true) :
    Emits p0 True plain (.atom (spelled id)) (step self n) := by
  simp only [step, hn]
  exact .pure ⟨_, rfl, .atom (spells_token (isToken_spelled hid))⟩

theorem emits_number {m : Bool} (hn : n.shape = .constant (.int i) m) :
    Emits p0 True plain (.atom (toString i)) (step self n) := by
  simp only [step, hn, Dialect.step]
  exact .pure ⟨_, rfl, .atom (spells_number i)⟩

theorem emits_unary {op : UnaryOp} (hn : n.shape = .unaryOp op l) (hl : Emits p0 c plain x (self l)) :
    Emits p0 c plain (form (symbols.unary op) [x]) (step self n) := by
  simp only [step, hn]
  refine (conveys_say hl).last fun t ht => .pure ⟨_, rfl, ?_⟩
  have hsymbol : isSymbol (symbols.unary op) = true := by cases op <;> decide
  have hform := Written.form hsymbol (.cons ht .nil)
  rwa [String.intercalate_singleton] at hform

theorem emits_comparison {op : CmpOp} (hn : n.shape = .compare l [op] [r]) (hop : op ≠ .isIn)
    (hl : Emits p0 c plain x (self l)) (hr : Emits p0 d plain y (self r)) :
    Emits p0 (c ∧ d) plain (form (symbols.comparison op) [x, y]) (step self n) := by
  have hstep : step self n = (do
      let l ← (dialect self).say l
      return some ("(" ++ shown (symbols.comparison op) ++ " " ++ l ++ " " ++ (← (dialect self).say r) ++ ")")) := by
    simp only [step, hn]
    cases op with
    | isIn => exact absurd rfl hop
    | _ => rfl
  rw [hstep]
  refine (conveys_say hl).bind fun t ht => (conveys_say hr).last fun u hu => .pure ⟨_, rfl, ?_⟩
  have hsymbol : isSymbol (symbols.comparison op) = true := by cases op <;> decide
  have hform := Written.form hsymbol (.cons ht (.cons hu .nil))
  simpa only [String.intercalate_cons_cons, String.intercalate_singleton, String.append_assoc] using hform

theorem exists_texts {rs : List (Option String)} {R : SExpr → String → Prop}
    (h : List.Forall₂ (fun x r => ∃ t ∈ r, R x t) xs rs) :
    ∃ ts : List String, rs = ts.map some ∧ List.Forall₂ (fun t x => R x t) ts xs := by
  induction h with
  | nil => exact ⟨[], rfl, .nil⟩
  | cons hr _ ih =>
    obtain ⟨t, rfl, ht⟩ := hr
    obtain ⟨ts, rfl, hts⟩ := ih
    exact ⟨t :: ts, rfl, .cons ht hts⟩

theorem emits_logic {op : BoolOp} {vs : List Node} {c : Node → Prop} (hn : n.shape = .boolOp op vs)
    (hvs : List.Forall₂ (fun v x => Emits p0 (c v) plain x (self v)) vs xs) :
    Emits p0 (∀ v ∈ vs, c v) plain (form (symbols.logic op) xs) (step self n) := by
  simp only [step, hn]
  have hjoin (rs : List (Option String)) (hrs : List.Forall₂ (fun x r => ∃ t ∈ r, Written plain x t) xs rs) :
      Conveys p0 True (fun t => ∃ ts, t = " ".intercalate ts ∧ List.Forall₂ (fun t e => Written plain e t) ts xs)
        (join " " rs) := by
    obtain ⟨ts, rfl, hts⟩ := exists_texts hrs
    have hrun : join " " (ts.map some) = pure (" ".intercalate ts) := funext fun p => join_some " " ts
    rw [hrun]
    exact .pure ⟨ts, rfl, hts⟩
  refine ((Conveys.mapM hvs).last hjoin).last fun t ht => .pure ⟨_, rfl, ?_⟩
  obtain ⟨ts, rfl, hts⟩ := ht
  exact .form (by cases op <;> decide) hts

theorem Ranked.unique {a b : Nat} (ha : Ranked s n a) (hb : Ranked s n b) : a = b := by
  obtain ⟨t, s1, ht, -, rfl⟩ := ha
  obtain ⟨u, s2, hu, -, rfl⟩ := hb
  rw [ht] at hu
  cases hu
  rfl

/-- A type that was named has a rank unless it is several types side by side. -/
theorem conveys_rank (ht : ∃ s, style.ofHint n p0.session = .ok t s) :
    Conveys p0 (∃ a, Ranked p0.session n a) (fun a => a = native.rankOf t.text? ∧ Ranked p0.session n a)
      (liftM (native.termRank t) : Emit Nat) := by
  refine (Emit.conveys_rank ht).mono ⟨?_, ?_⟩ ?_
  · rintro ⟨t, s, ht, hmany⟩
    exact ⟨_, t, s, ht, hmany, rfl⟩
  · rintro ⟨_, t, s, ht, hmany, -⟩
    exact ⟨t, s, ht, hmany⟩
  · rintro a ⟨hmany, rfl⟩
    obtain ⟨s, ht⟩ := ht
    exact ⟨rfl, t, s, ht, hmany, rfl⟩

theorem emits_arithmetic {op : BinOp} (hn : n.shape = .binOp l op r) (hop : op ≠ .pow) (hl : Emits p0 c plain x (self l))
    (hr : Emits p0 d plain y (self r)) (hplain : plain → Ranked p0.session l 0 ∧ Ranked p0.session r 0) :
    Emits p0 (c ∧ d ∧ (∃ a, Ranked p0.session l a) ∧ ∃ a, Ranked p0.session r a) plain (form (symbols.binary op) [x, y])
      (step self n) := by
  have hstep : step self n = binary self l op r := by simp only [step, hn]
  rw [hstep]
  refine (conveys_say hl).bind fun t ht => (conveys_say hr).bind fun u hu => ?_
  rw [if_neg (by simpa using hop)]
  refine ((Conveys.looks (style_overlooking.ofHint l)).bind fun lt hlt =>
    (Conveys.looks (style_overlooking.ofHint r)).bind fun rt hrt =>
      (conveys_rank hlt).bind fun a ha => (conveys_rank hrt).last fun b hb => .pure ⟨_, rfl, ?text⟩).of_iff ?condition
  case text =>
    obtain ⟨rfl, ha⟩ := ha
    obtain ⟨rfl, hb⟩ := hb
    have hzero (hp : plain) : native.rankOf lt.text? = 0 ∧ native.rankOf rt.text? = 0 :=
      ⟨ha.unique (hplain hp).1, hb.unique (hplain hp).2⟩
    have hleft : Written plain x (if native.rankOf rt.text? > native.rankOf lt.text? then Smt.cast t rt else t) := by
      split
      · exact ht.cast (by omega) fun hp => by have := hzero hp; omega
      · exact ht
    have hright : Written plain y (if native.rankOf lt.text? > native.rankOf rt.text? then Smt.cast u lt else u) := by
      split
      · exact hu.cast (by omega) fun hp => by have := hzero hp; omega
      · exact hu
    have hsymbol : isSymbol (symbols.binary op) = true := by cases op <;> decide
    have hform := Written.form hsymbol (.cons hleft (.cons hright .nil))
    rw [show (dialect self).binarySymbol op = shown (symbols.binary op) from rfl]
    simpa only [String.intercalate_cons_cons, String.intercalate_singleton, String.append_assoc] using hform
  case condition =>
    constructor
    · rintro ⟨-, -, ha, hb⟩
      exact ⟨ha, hb⟩
    · rintro ⟨⟨a, t, s, hlt, ha⟩, b, u, s', hrt, hb⟩
      exact ⟨⟨t, s, hlt⟩, ⟨u, s', hrt⟩, ⟨a, t, s, hlt, ha⟩, ⟨b, u, s', hrt, hb⟩⟩

def Named (s : Session) (k : Nat) (n : Node) : Prop := ∀ b ∈ operands k n, ∃ a, Ranked s b a

def Unranked (s : Session) (k : Nat) (n : Node) : Prop := ∀ b ∈ operands k n, Ranked s b 0

theorem named_succ : Named s (k + 1) n ↔ (∀ b ∈ sides n, ∃ a, Ranked s b a) ∧ ∀ m ∈ n.children, Named s k m := by
  simp only [Named, operands, forall_mem_append, mem_flatten, mem_map]
  refine and_congr_right fun _ => ⟨fun h m hm b hb => h b ⟨_, ⟨m, hm, rfl⟩, hb⟩, ?_⟩
  rintro h b ⟨_, ⟨m, hm, rfl⟩, hb⟩
  exact h m hm b hb

theorem Unranked.part {m : Node} (h : Unranked s (k + 1) n) (hm : m ∈ n.children) : Unranked s k m :=
  fun b hb => h b (mem_append_right _ (mem_flatten.2 ⟨_, mem_map_of_mem hm, hb⟩))

theorem Unranked.sides {b : Node} (h : Unranked s (k + 1) n) (hb : b ∈ sides n) : Ranked s b 0 :=
  h b (mem_append_left _ hb)

/-- An expression that stands for a term is emitted if and only if the types of its operands can be named, and as a text
that is read as this term but for casts. -/
theorem emits_term {stop : Visit} {j : Nat} (hheld : Holds i p0.session n) (he : termOf k n = some e) (hi : k ≤ i)
    (hj : k ≤ j) : Emits p0 (Named p0.session k n) (Unranked p0.session k n) e (tie level stop j n) := by
  induction k generalizing i j n e with
  | zero => cases he
  | succ k ih =>
    obtain ⟨i, rfl⟩ := exists_succ_of_lt hi
    obtain ⟨j, rfl⟩ := exists_succ_of_lt hj
    obtain ⟨hkey, hchildren⟩ := hheld
    have hpart {m : Node} {x : SExpr} (hm : m ∈ n.children) (hx : termOf k m = some x) :
        Emits p0 (Named p0.session k m) (Unranked p0.session (k + 1) n) x (tie level stop j m) :=
      (ih (hchildren m hm) hx (by omega) (by omega)).mono Iff.rfl fun r ⟨t, hr, ht⟩ => ⟨t, hr, ht.mono fun h => h.part hm⟩
    have hlevel {c : Prop} (hn : n.shape.opening? = none) (hc : c ↔ Named p0.session (k + 1) n)
        (h : Emits p0 c (Unranked p0.session (k + 1) n) e (step (tie level stop j) n)) :
        Emits p0 (Named p0.session (k + 1) n) (Unranked p0.session (k + 1) n) e (tie level stop (j + 1) n) :=
      (conveys_level hkey hn h).of_iff hc
    have hnamed := named_succ (n := n) (k := k) (s := p0.session)
    unfold termOf at he
    split at he <;> try simp only [Option.bind_eq_bind, Option.bind_eq_some_iff, Option.ite_none_left_eq_some] at he
    case h_1 id u hn =>
      split at he <;> cases he
      exact hlevel (by rw [hn]; rfl) (by simp [hnamed, sides, hn]) (emits_name hn ‹_›)
    case h_2 i m hn =>
      split at he <;> cases he
      obtain ⟨i, rfl⟩ := Int.eq_ofNat_of_zero_le ‹_›
      exact hlevel (by rw [hn]; rfl) (by simp [hnamed, sides, hn]) (emits_number hn)
    case h_3 op l hn =>
      obtain ⟨x, hx, ⟨⟩⟩ := he
      exact hlevel (by rw [hn]; rfl) (by simp [hnamed, sides, hn]) (emits_unary hn (hpart (by simp [hn]) hx))
    case h_4 l op r hn =>
      obtain ⟨hop, x, hx, y, hy, ⟨⟩⟩ := he
      refine hlevel (by rw [hn]; rfl) ?_ (emits_arithmetic hn hop (hpart (by simp [hn]) hx) (hpart (by simp [hn]) hy)
        fun h => ⟨h.sides (by simp [sides, hn]), h.sides (by simp [sides, hn])⟩)
      simp [hnamed, sides, hn]
      tauto
    case h_5 l op r hn =>
      obtain ⟨hop, x, hx, y, hy, ⟨⟩⟩ := he
      refine hlevel (by rw [hn]; rfl) ?_ (emits_comparison hn hop (hpart (by simp [hn]) hx) (hpart (by simp [hn]) hy))
      simp [hnamed, sides, hn]
    case h_6 op vs hn =>
      obtain ⟨xs, hxs, ⟨⟩⟩ := he
      refine hlevel (by rw [hn]; rfl) ?_ (emits_logic hn (forall₂_of_mem (forall₂_of_mapM_some hxs) fun v x hv hx =>
        hpart (by simp [hn, hv]) hx))
      simp [hnamed, sides, hn]
    case h_7 => cases he

end

/-- Every expression that stands for a term, at any depth that programs may have, is emitted if and only if the types of the
operands of its operations can be named. Then the text is read as an s-expression, which is the term itself but for casts. -/
theorem emit_reads_back_but_casts (k : Nat) (n : Node) (e : SExpr) (p : Page) (he : termOf k n = some e)
    (hheld : Holds k p.session n) (hk : k ≤ nestingLimit) :
    ((∃ r p', emit n p = .ok r p') ↔ Named p.session k n) ∧
      ∀ r p', emit n p = .ok r p' → ∃ text e', r = some text ∧ SExpr.read text = some e' ∧ uncast e' = e := by
  have hemits : Emits p (Named p.session k n) (Unranked p.session k n) e (emit n) :=
    emits_term hheld he le_rfl hk
  obtain ⟨hreturns, hresult⟩ := hemits p ⟨.refl _, rfl⟩
  refine ⟨⟨?_, hreturns⟩, fun r p' hrun => ?_⟩
  · rintro ⟨r, p', hrun⟩
    exact (hresult r p' hrun).1
  · obtain ⟨-, -, text, hr, e', hspells, huncast, -⟩ := hresult r p' hrun
    exact ⟨text, e', hr, SExpr.read_of_spells hspells, huncast⟩

def variable_ (id : NodeId) (name : String) : Node := ⟨id, some 1, none, .name name .load⟩

def mixedCondition : Node :=
  let product : Node := ⟨4, some 1, none, .binOp (variable_ 2 "y") .mult ⟨3, some 1, none, .constant (.int 2) false⟩⟩
  let sum : Node := ⟨5, some 1, none, .binOp (variable_ 1 "x_1") .add product⟩
  let less : Node := ⟨7, some 1, none, .compare sum [.lt] [variable_ 6 "z"]⟩
  ⟨10, some 1, none, .unaryOp .not ⟨9, some 1, none, .boolOp .and [less, variable_ 8 "b"]⟩⟩

def mixedFacts : Session :=
  { next := 12
    maps := { types, containers, fallback := .text "var" }
    nodes := .ofList [(11, variable_ 11 "float")]
    facts := .ofList [(1, ({ hint := some (some 11) } : Facts))] }

def mixedPage : Page := { session := after (recordAll nestingLimit mixedCondition mixedFacts) }

/-- It is emitted, and is read as it was meant but for the product, which is cast. -/
theorem mixedCondition_reads_back :
    Holds 6 mixedPage.session mixedCondition ∧ ∃ e p' text e', termOf 6 mixedCondition = some e ∧
      emit mixedCondition mixedPage = .ok (some text) p' ∧ SExpr.read text = some e' ∧ uncast e' = e := by
  have hlimit : 6 ≤ nestingLimit := le_nestingLimit (by decide)
  obtain ⟨nodes, hrecord, hholds, -⟩ := recordAll_ok (n := mixedCondition) (k := 6) (by decide) (by decide) hlimit mixedFacts
  have hheld : Holds 6 mixedPage.session mixedCondition := by rwa [mixedPage, hrecord]
  refine ⟨hheld, ?_⟩
  obtain ⟨e, he⟩ : ∃ e, termOf 6 mixedCondition = some e := ⟨_, rfl⟩
  obtain ⟨r, hrun⟩ := ok_after_of_returned (x := emit mixedCondition) (s := mixedPage) (by decide +kernel)
  obtain ⟨text, e', rfl, hread, huncast⟩ :=
    (emit_reads_back_but_casts 6 mixedCondition e mixedPage he hheld hlimit).2 r _ hrun
  exact ⟨e, _, text, e', he, hrun, hread, huncast⟩

end Polyglot.Smt
