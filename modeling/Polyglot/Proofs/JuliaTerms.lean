import Polyglot.Proofs.Arithmetic

/-!
# Arithmetic of Julia

Operations inside others are marked, and of these sums, differences and quotients are put in brackets, but products and
powers are not. So the text that is emitted is read as it was meant if and only if no product stands behind `*`, `/` or
`^` and neither a product nor a power before `^`.
-/
namespace Polyglot.Julia

open Session Emit Effect Dialect List Lexemes Script

variable {p : Page} {n : Node} {k : Nat} {e t l r : Term} {o : String} {b : Bool}

def script : Script where
  punctuation := common.erase "/*" ++
    ["::", ":=", "===", "=>", "!==", "++", "--", "-->", "->", "**", "//=", "\\", "\\=", "<:", "<|", ">>>", ">>>=", ">:",
     "|>", "'", "#="]
  levels := [("+", 1), ("-", 1), ("*", 2), ("/", 2), ("^", 3)]
  rightward := 3
  tight := ["*", "^"]

def wording : Wording where
  name id := if keywords.contains id then id ++ "_" else shown (plainName id)
  operator _ op :=
    match op with
    | .add => some "+" | .sub => some "-" | .mult => some "*" | .div => some "/" | .pow => some "^"
    | _ => none

def nested (n : Node) : List Node :=
  match n.shape with
  | .binOp l _ r => [l, r].filter (·.shape matches .binOp ..)
  | _ => []

def Marked (s : Session) (n : Node) : Prop :=
  ∀ m : Node, m.Within n → ∀ c ∈ nested m, (s.known c.id).isNested = true

/-- A term with the brackets that it gets, inside another one or not. -/
def written (inside : Bool) : Term → Term
  | .op o l r =>
    let t := Term.op o (written true l) (written true r)
    if inside && !script.tight.contains o then .group t else t
  | t => t

def root : Term → Option String
  | .op o _ _ => some o
  | _ => none

/-- Whether no product stands behind `*`, `/` or `^` and neither a product nor a power before `^`. -/
def fits : Term → Bool
  | .op o l r =>
    fits l && fits r && !(["*", "/", "^"].contains o && root r == some "*") &&
      !(o == "^" && (root l == some "*" || root l == some "^"))
  | _ => true

/-! ### Reading -/

/-- Whether a term is made of words and the operators of arithmetic. -/
def plain : Term → Bool
  | .word w => isWord w
  | .op o l r => ["+", "-", "*", "/", "^"].contains o && plain l && plain r
  | _ => false

theorem plain_of_termOf (h : wording.termOf k n = some e) : plain e = true := by
  induction k generalizing n e with
  | zero => cases h
  | succ k ih =>
    cases Wording.stands_of_termOf h with
    | name hn hid =>
      simp only [plain, wording, plainName, shown]
      split_ifs
      · exact isWord_append hid (by decide)
      · decide
      · decide
      · exact hid
    | number hn => exact isWord_number _
    | sign hn hop => cases hop
    | @op op o _ _ _ _ hn hop hl hr =>
      have ho : ["+", "-", "*", "/", "^"].contains o = true := by cases op <;> cases hop <;> rfl
      rw [plain, ho, ih hl, ih hr]
      rfl

theorem operator_cases (h : plain (.op o l r) = true) :
    (o = "+" ∨ o = "-" ∨ o = "*" ∨ o = "/" ∨ o = "^") ∧ plain l = true ∧ plain r = true := by
  simpa [plain, and_assoc] using h

section

variable (h : plain e = true)
include h

theorem strip_written : (written b e).strip = e := by
  induction e generalizing b with
  | word => rfl
  | sign | group => cases h
  | op o l r ihl ihr =>
    simp only [plain, Bool.and_eq_true] at h
    unfold written
    split_ifs <;> simp only [Term.strip, ihl h.1.2, ihr h.2]

/-- What is written begins with a word or a bracket. -/
theorem head_written :
    ∃ c cs, (script.text (written b e)).toList = c :: cs ∧ (Formula.isWordChar c = true ∨ c = '(') := by
  induction e generalizing b with
  | word w =>
    obtain ⟨c, cs, hw, hc⟩ := exists_head h
    exact ⟨c, cs, hw, .inl hc⟩
  | sign | group => cases h
  | op o l r ihl ihr =>
    simp only [plain, Bool.and_eq_true] at h
    obtain ⟨c, cs, hl, hc⟩ := ihl (b := true) h.1.2
    unfold written
    split
    · exact ⟨'(', _, by simp [text]; rfl, .inr rfl⟩
    · exact ⟨c, _, by simp [text, hl]; rfl, hc⟩

theorem written_reads : script.clear (written b e) = true ∧ script.lawful (written b e) = true := by
  induction e generalizing b with
  | word w => exact ⟨h, h⟩
  | sign | group => cases h
  | op o l r ihl ihr =>
    obtain ⟨ho, hl, hr⟩ := operator_cases h
    obtain ⟨hlclear, hllawful⟩ := ihl (b := true) hl
    obtain ⟨hrclear, hrlawful⟩ := ihr (b := true) hr
    have hparts : script.parts o (script.text (written true r)) = true := by
      have hmark : script.isMark o = true := by obtain rfl | rfl | rfl | rfl | rfl := ho <;> decide
      exact parts_of_head (by decide) hmark (head_written hr)
    have hop : script.clear (.op o (written true l) (written true r)) = true ∧
        script.lawful (.op o (written true l) (written true r)) = true := by
      simp only [clear, lawful, hlclear, hrclear, hllawful, hrlawful, hparts]
      obtain rfl | rfl | rfl | rfl | rfl := ho <;> decide
    unfold written
    split <;> exact hop

theorem bound_written : script.bound (written true e) =
    if root e = some "*" then 2 else if root e = some "^" then 3 else 5 := by
  cases e with
  | word => rfl
  | sign | group => cases h
  | op o l r => obtain ⟨rfl | rfl | rfl | rfl | rfl, -⟩ := operator_cases h <;> rfl

theorem good_written : script.good (written b e) = fits e := by
  induction e generalizing b with
  | word w => exact h
  | sign | group => cases h
  | op o l r ihl ihr =>
    obtain ⟨ho, hl, hr⟩ := operator_cases h
    have hop : script.good (.op o (written true l) (written true r)) = fits (.op o l r) := by
      simp only [good, fits, ihl hl, ihr hr, bound_written hl, bound_written hr, Bool.and_assoc]
      congr 2
      obtain rfl | rfl | rfl | rfl | rfl := ho <;>
        simp [level, grip, reach, script, lookup_cons] <;> split_ifs <;> simp_all
    unfold written
    split <;> exact hop

end

/-! ### What is emitted -/

/-- What is written for an operand does not depend on its mark unless it is an operation. -/
theorem written_operand {c : Node} (hc : wording.termOf k c = some e)
    (hmark : (c.shape matches .binOp ..) = true → b = true) : written b e = written true e := by
  cases k with
  | zero => cases hc
  | succ k =>
    cases Wording.stands_of_termOf hc with
    | name | number => rfl
    | sign _ hop => cases hop
    | op hn => rw [hmark (by rw [hn])]

theorem conveys_written (hmarked : Marked p.session n) (hheld : Holds k p.session n) (he : wording.termOf k n = some e)
    (hk : k ≤ nestingLimit) :
    Conveys p True (· = some (script.text (written (p.session.known n.id).isNested e))) (emit n) := by
  refine Wording.conveys_emitter (c := fun _ => True)
    (P := fun m e r => r = some (script.text (written (p.session.known m.id).isNested e)))
    (fun self k m e hm hstands hparts => ?_) hheld he hk
  cases hstands with
  | @name id u hn hid =>
    simp only [step, hn]
    refine .pure ?_
    simp only [wording, plainName, shown, written, text]
    split_ifs <;> rfl
  | number hn =>
    simp only [step, Dialect.step, hn]
    exact .pure rfl
  | sign _ hop => cases hop
  | @op op o l r e f hn hop hl hr =>
    have hsay {c : Node} {e : Term} (hc : c ∈ [l, r]) (he : wording.termOf k c = some e) :
        Conveys p True (· = script.text (written true e)) ((dialect self).say c) := by
      have hchild : c ∈ m.children := by simpa [Node.children, Shape.children, hn] using hc
      refine (hparts c hchild e he).last fun t ht => .pure ?_
      have hmark (hop : (c.shape matches .binOp ..) = true) : (p.session.known c.id).isNested = true :=
        hmarked m hm c (by rw [nested, hn]; exact mem_filter.2 ⟨hc, hop⟩)
      rw [ht, ← written_operand he hmark]
      rfl
    simp only [step, hn]
    unfold binary
    split
    · exact absurd ‹_› (Wording.not_list hl _ _)
    rename_i op _ _ _ _
    refine (hsay (by simp) hl).last fun _ ha => (hsay (by simp) hr).last fun _ hb => ?_
    subst ha hb
    cases op with
    | mult | pow =>
      cases hop
      exact .pure (by simp [written, text, script])
    | add | sub | div =>
      cases hop
      refine (Conveys.factsOf m.id).last fun x hx => .pure ?_
      have hmark : x.isNested = (p.session.known m.id).isNested := (congrArg Facts.isNested hx :)
      rw [← hmark]
      cases x.isNested <;> simp [written, text, script, String.append_assoc] <;> rfl
    | _ => cases hop

/-- Every expression that stands for a term, at any depth that programs may have, is emitted as a text that can be read. If
operations inside others are marked, it is read as this term if and only if no product stands behind `*`, `/` or `^` and
neither a product nor a power before `^`. -/
theorem emit_reads_back_iff_fits (k : Nat) (n : Node) (e : Term) (p : Page) (he : wording.termOf k n = some e)
    (hheld : Holds k p.session n) (hmarked : Marked p.session n) (hk : k ≤ nestingLimit) :
    ∃ text p', emit n p = .ok (some text) p' ∧ (∃ u, script.read text = some u) ∧
      (script.read text = some e ↔ fits e = true) := by
  obtain ⟨hreturns, hresult⟩ := conveys_written hmarked hheld he hk p ⟨.refl _, rfl⟩
  obtain ⟨r, p', hrun⟩ := hreturns trivial
  obtain ⟨-, -, rfl⟩ := hresult r p' hrun
  have hplain := plain_of_termOf he
  obtain ⟨hclear, hlawful⟩ := written_reads (b := (p.session.known n.id).isNested) hplain
  obtain ⟨hread, hiff⟩ := Script.read_text_iff (by decide) hclear hlawful
  rw [strip_written hplain, good_written hplain] at hiff
  exact ⟨_, p', hrun, hread, hiff⟩

def node (id : NodeId) (shape : Shape Node) : Node := ⟨id, some 1, none, shape⟩

/-- The expression `a - (b - c) * 2 ** d`. -/
def difference : Node :=
  let factor := node 4 (.binOp (node 2 (.name "b" .load)) .sub (node 3 (.name "c" .load)))
  let power := node 7 (.binOp (node 5 (.constant (.int 2) false)) .pow (node 6 (.name "d" .load)))
  node 9 (.binOp (node 1 (.name "a" .load)) .sub (node 8 (.binOp factor .mult power)))

def differenceFacts : Std.TreeMap NodeId Facts := .ofList ([4, 7, 8].map (·, ({ isNested := true } : Facts)))

/-- It is read as it was meant. -/
theorem difference_read_back :
    ∃ p : Page, Holds 5 p.session difference ∧ Marked p.session difference ∧ ∃ text p', emit difference p = .ok (some text) p' ∧
      script.read text = some (.op "-" (.word "a")
        (.op "*" (.op "-" (.word "b") (.word "c")) (.op "^" (.word "2") (.word "d")))) := by
  have hlimit : 5 ≤ nestingLimit := le_nestingLimit (by decide)
  have hshallow : difference.Shallow 5 := by decide
  obtain ⟨nodes, -, hheld, -⟩ := recordAll_ok (n := difference) hshallow (by decide) hlimit { facts := differenceFacts }
  have hall : ∀ m ∈ difference.nodes 5, ∀ c ∈ nested m, (differenceFacts.getD c.id {}).isNested = true := by decide
  have hmarked : Marked { nodes, facts := differenceFacts } difference := fun m hm => hall m ((Node.mem_nodes hshallow).2 hm)
  obtain ⟨text, p', hrun, -, hread⟩ := emit_reads_back_iff_fits 5 difference _ { session := _ } rfl hheld hmarked hlimit
  exact ⟨_, hheld, hmarked, text, p', hrun, hread.2 (by decide)⟩

/-- The expression `a / (b * c)`. -/
def quotient : Node :=
  node 5 (.binOp (node 1 (.name "a" .load)) .div (node 4 (.binOp (node 2 (.name "b" .load)) .mult (node 3 (.name "c" .load)))))

/-- It is emitted without brackets, and is read as `(a / b) * c`. -/
theorem emit_quotient :
    wording.termOf 3 quotient = some (.op "/" (.word "a") (.op "*" (.word "b") (.word "c"))) ∧
      (match emit quotient { session := { facts := .ofList [(4, ({ isNested := true } : Facts))] } } with
        | .ok text _ => text
        | .error _ _ => none) = some "a / b*c" ∧
      script.read "a / b*c" = some (.op "*" (.op "/" (.word "a") (.word "b")) (.word "c")) := by
  decide +kernel

end Polyglot.Julia
