import Polyglot.Proofs.Effects
import Polyglot.Proofs.Lexing

/-!
# Expressions without calls

A call is read where an opening bracket follows an expression. So a text that has no such bracket is read as an expression
without calls. The reader puts brackets around the fields of a formatted text; they come first there, and nothing that
precedes them can be called.
-/
namespace Polyglot

inductive Node.CallFree : Node → Prop
  | mk {n : Node} (hcall : n.isCall = false) (hparts : ∀ c ∈ n.children, c.CallFree) : n.CallFree

namespace Grammar

open Effect List Node

attribute [local simp] Shape.children

variable {c : Token → Prop} {cs acc : List Char} {o w close text : String} {typed raw : Bool} {p item : Read Node}
  {t first : Token} {e n : Node} {shape : Shape Node} {usage : Usage}

/-- Among mild tokens, and not before the position `low`, a reader goes forward and gives results of some kind only. -/
def Gives {α : Type} (low : Nat) (P : α → Prop) (x : Read α) : Prop :=
  ∀ tokens k, Token.Mild tokens → low ≤ k → Ensures (fun s : State => s.tokens = tokens ∧ k ≤ s.pos) P x

variable {α β : Type} {low : Nat} {P : α → Prop} {Q : β → Prop} {x : Read α} {f : α → Read β}

namespace Gives

variable {step : α → Read (α × Bool)} {a : α} {y : Read α}

theorem of (h : ∀ s a s', Token.Mild s.tokens → low ≤ s.pos → x s = .ok a s' →
    s'.tokens = s.tokens ∧ s.pos ≤ s'.pos ∧ P a) : Gives low P x := by
  rintro tokens k ht hk s a s' ⟨rfl, hpos⟩ hx
  obtain ⟨htokens, hforward, ha⟩ := h s a s' ht (hk.trans hpos) hx
  exact ⟨⟨htokens, hpos.trans hforward⟩, ha⟩

theorem apply (h : Gives low P x) {s s' : State} (hs : Token.Mild s.tokens) (hlow : low ≤ s.pos) (hx : x s = .ok a s') :
    s'.tokens = s.tokens ∧ s.pos ≤ s'.pos ∧ P a :=
  and_assoc.1 (h s.tokens s.pos hs hlow s a s' ⟨rfl, le_rfl⟩ hx)

theorem bind (hx : Gives low P x) (hf : ∀ a, P a → Gives low Q (f a)) : Gives low Q (x >>= f) :=
  fun tokens k ht hk => (hx tokens k ht hk).bind fun a ha => hf a ha tokens k ht hk

theorem pure (ha : P a) : Gives low P (pure a : Read α) := fun _ _ _ _ => .pure ha

theorem throw {e : Fault} : Gives low P (throw e : Read α) := fun _ _ _ _ => .throw

theorem branch {c : Prop} [Decidable c] (hx : Gives low P x) (hy : Gives low P y) (hf : ∀ a, P a → Gives low Q (f a)) :
    Gives low Q (if c then x >>= f else y >>= f) :=
  of_ite (hx.bind hf) (hy.bind hf)

theorem test {x : Read Bool} {f g : Read β} (hx : Gives low (fun _ => True) x) (hf : Gives low Q f) (hg : Gives low Q g) :
    Gives low Q (x >>= fun b => if b then f else g) :=
  hx.bind fun _ _ => of_ite hf hg

theorem later (hx : Gives 0 P x) : Gives low P x := fun tokens k ht _ => hx tokens k ht (Nat.zero_le _)

theorem mapM {as : List α} (h : ∀ a ∈ as, Gives low Q (f a)) : Gives low (fun bs => ∀ b ∈ bs, Q b) (as.mapM f) :=
  fun tokens k ht hk => .mapM fun a ha => h a ha tokens k ht hk

theorem iterate (hstep : ∀ a, P a → Gives low (fun r => P r.1) (step a)) (n : Nat) (ha : P a) :
    Gives low P (iterate step n a) := by
  induction n generalizing a with
  | zero => exact pure ha
  | succ n ih =>
    refine (hstep a ha).bind fun (b, more) hb => ?_
    cases more with
    | true => exact ih hb
    | false => exact pure hb

theorem loop (hstep : ∀ a, P a → Gives low (fun r => P r.1) (step a)) (ha : P a) : Gives low P (loop step a) := by
  refine bind (P := fun _ => True) ?_ fun n _ => iterate hstep n ha
  refine .of fun s n s' _ _ h => ?_
  cases h
  exact ⟨rfl, le_rfl, trivial⟩

end Gives

/-- The token at hand has an opening bracket only if it is the first one. -/
theorem gives_peek : Gives low (fun t => '(' ∈ t.text.toList → low = 0 ∧ t.kind = .op) peek := by
  refine .of fun s t s' hs hlow h => ?_
  cases h
  refine ⟨rfl, le_rfl, fun hmem => ?_⟩
  obtain ⟨hpos, hkind⟩ := hs s.pos hmem
  exact ⟨Nat.le_zero.1 (hpos ▸ hlow), hkind⟩

theorem gives_peekAt {k : Nat} : Gives low (fun _ => True) (peekAt k) := by
  refine .of fun s t s' _ _ h => ?_
  cases h
  exact ⟨rfl, le_rfl, trivial⟩

theorem gives_skip : Gives low (fun _ => True) skip := by
  refine .of fun s t s' _ _ h => ?_
  cases h
  exact ⟨rfl, Nat.le_succ _, trivial⟩

theorem Gives.skip {f : Unit → Read β} (hf : Gives low Q (f ())) : Gives low Q (skip >>= f) := gives_skip.bind fun _ _ => hf

theorem Gives.peek {f : Token → Read β} (hf : ∀ t, Gives low Q (f t)) : Gives low Q (peek >>= f) :=
  gives_peek.bind fun t _ => hf t

theorem gives_refuse : Gives low P (refuse : Read α) := .peek fun _ => .throw

theorem gives_malformed : Gives low P (malformed : Read α) := .throw

theorem gives_malformed_bind : Gives low Q (malformed >>= f) := Gives.throw (P := fun _ => False) |>.bind nofun

section

variable (hcall : isCall ⟨0, none, none, shape⟩ = false) (hparts : ∀ c ∈ shape.children, c.CallFree)
include hcall hparts

theorem gives_make : Gives low Node.CallFree (make t shape) := by
  refine .of fun s n s' _ _ h => ?_
  cases h
  exact ⟨rfl, le_rfl, .mk hcall hparts⟩

theorem gives_makeUnplaced : Gives low Node.CallFree (makeUnplaced shape) := by
  refine .of fun s n s' _ _ h => ?_
  cases h
  exact ⟨rfl, le_rfl, .mk hcall hparts⟩

end

theorem gives_atOp : Gives low (fun _ => True) (atOp o) := .peek fun _ => .pure trivial

theorem gives_atWord : Gives low (fun _ => True) (atWord w) := .peek fun _ => .pure trivial

theorem gives_tryOp : Gives low (fun _ => True) (tryOp o) :=
  gives_atOp.test (.skip (.pure trivial)) (.pure trivial)

theorem gives_tryWord : Gives low (fun _ => True) (tryWord w) :=
  gives_atWord.test (.skip (.pure trivial)) (.pure trivial)

theorem gives_op : Gives low (fun _ => True) (op o) :=
  gives_tryOp.test (.pure trivial) gives_refuse

theorem gives_word : Gives low (fun _ => True) (word w) :=
  gives_tryWord.test (.pure trivial) gives_refuse

theorem Gives.op {f : Unit → Read β} (hf : Gives low Q (f ())) : Gives low Q (op o >>= f) := gives_op.bind fun _ _ => hf

theorem gives_ident : Gives low (fun _ => True) ident :=
  .peek fun _ => of_ite (.skip (.pure trivial)) gives_refuse

theorem Gives.unless {c : Prop} [Decidable c] {f : Unit → Read β} (hf : Gives low Q (f ())) :
    Gives low Q (if c then malformed >>= f else f ()) :=
  of_ite gives_malformed_bind hf

def State.current (s : State) : Token := s.tokens.getD s.pos ⟨.stop, "", 0, 0⟩

/-- A reader that gives results of some kind and, from some tokens on, does not stay where it is. -/
structure Strides {α : Type} (c : Token → Prop) (P : α → Prop) (x : Read α) : Prop where
  gives : Gives 0 P x
  advances : ∀ s a s', Token.Mild s.tokens → c s.current → x s = .ok a s' → s.pos < s'.pos

namespace Strides

variable {c : Token → Prop}

theorem bind (hx : Strides c P x) (hf : ∀ a, P a → Gives 0 Q (f a)) : Strides c Q (x >>= f) := by
  refine ⟨hx.gives.bind hf, fun s b u hs hc h => ?_⟩
  obtain ⟨a, t, hxs, hft⟩ := bind_eq_ok.1 h
  obtain ⟨htokens, -, ha⟩ := hx.gives.apply hs (Nat.zero_le _) hxs
  obtain ⟨-, hpos, -⟩ := (hf a ha).apply (htokens ▸ hs) (Nat.zero_le _) hft
  exact (hx.advances s a t hs hc hxs).trans_le hpos

theorem peek {f : Token → Read β} (hf : ∀ t, Strides (fun u => c u ∧ u = t) Q (f t)) : Strides c Q (peek >>= f) := by
  refine ⟨.peek fun t => (hf t).gives, fun s b u hs hc h => ?_⟩
  exact (hf s.current).advances s b u hs ⟨hc, rfl⟩ h

theorem weaken {c' : Token → Prop} (hx : Strides c P x) (h : ∀ t, c' t → c t) : Strides c' P x :=
  ⟨hx.gives, fun s a s' hs hc => hx.advances s a s' hs (h _ hc)⟩

theorem skip {f : Unit → Read β} (hf : Gives 0 Q (f ())) : Strides c Q (skip >>= f) := by
  refine bind (P := fun _ => True) ⟨gives_skip, fun s a s' _ _ h => ?_⟩ fun _ _ => hf
  cases h
  exact Nat.lt_succ_self _

theorem loop {step : α → Read (α × Bool)} {a : α} (hfirst : Strides c (fun r => P r.1) (step a))
    (hstep : ∀ a, P a → Gives 0 (fun r => P r.1) (step a)) (ha : P a) : Strides c P (loop step a) := by
  refine ⟨.loop hstep ha, fun s b u hs hc h => ?_⟩
  have hnext (r : α × Bool) (hr : P r.1) :
      Gives 0 P (if r.2 then iterate step (s.tokens.size - s.pos) r.1 else Pure.pure r.1) :=
    of_ite (.iterate hstep _ hr) (.pure hr)
  exact (hfirst.bind hnext).advances s b u hs hc h

theorem refuse : Strides c P (refuse : Read α) := ⟨gives_refuse, nofun⟩

end Strides

theorem tryOp_apply {s : State} :
    tryOp o s = if isOp o s.current then .ok true { s with pos := s.pos + 1 } else .ok false s := by
  change (if isOp o s.current then (skip >>= fun _ => pure true : Read Bool) else pure false) s = _
  split <;> rfl

theorem Strides.op {f : Unit → Read β} (hf : Gives 0 Q (f ())) : Strides c Q (op o >>= f) := by
  refine bind (P := fun _ => True) ⟨gives_op, fun s a s' hs _ h => ?_⟩ fun _ _ => hf
  obtain ⟨b, t, htry, h⟩ := bind_eq_ok.1 h
  rw [tryOp_apply] at htry
  split at htry
  · cases htry
    cases h
    exact Nat.lt_succ_self _
  · cases htry
    cases h

/-- Past the first token no bracket opens. -/
theorem gives_tryOp_bracket : Gives 1 (· = false) (tryOp "(") := by
  refine .of fun s b s' hs hlow h => ?_
  rw [tryOp_apply] at h
  split at h
  · rename_i hopen
    have htext : s.current.text = "(" := by simpa using (Bool.and_eq_true_iff.1 hopen).2
    have hpos := (hs s.pos (by rw [← State.current, htext]; decide)).1
    omega
  · cases h
    exact ⟨rfl, le_rfl, rfl⟩

abbrev GivesFree (p : Read Node) : Prop := Gives 0 Node.CallFree p

structure Rules.CallFree (r : Rules) : Prop where
  expression : GivesFree r.expression
  inversion : GivesFree r.inversion
  factor : GivesFree r.factor
  bitwiseOr : GivesFree r.bitwiseOr

abbrev AllFree (ns : List Node) : Prop := ∀ n ∈ ns, n.CallFree

theorem forall_mem_concat {as : List α} {a : α} (has : ∀ a ∈ as, P a) (ha : P a) : ∀ b ∈ as ++ [a], P b :=
  forall_mem_append.2 ⟨has, forall_mem_singleton.2 ha⟩

theorem gives_more {another : Read Bool} {first : List α} (hanother : Gives low (fun _ => True) another) (hx : Gives low P x)
    (hfirst : ∀ a ∈ first, P a) : Gives low (fun as => ∀ a ∈ as, P a) (more another x first) :=
  .loop (fun _ has => hanother.test (hx.bind fun _ ha => .pure (forall_mem_concat has ha)) (.pure has)) hfirst

theorem gives_itemsUntil {first : List α} (hx : Gives low P x) (hfirst : ∀ a ∈ first, P a) :
    Gives low (fun as => ∀ a ∈ as, P a) (itemsUntil close x first) := by
  refine .loop (fun acc hacc => gives_tryOp.test (.pure hacc) ?_) hfirst
  refine .bind (P := fun as => ∀ a ∈ as, P a) (hx.bind fun a ha => .pure (forall_mem_concat hacc ha)) fun acc hacc => ?_
  exact gives_tryOp.test (.pure hacc) (.op (.pure hacc))

abbrev FreeIn (o : Option Node) : Prop := ∀ n, o = some n → n.CallFree

theorem freeIn_some (hn : n.CallFree) : FreeIn (some n) := by
  rintro _ ⟨⟩
  exact hn

theorem gives_some (hp : Gives low Node.CallFree p) : Gives low FreeIn (some <$> p) := by
  refine .of fun s o s' hs hlow h => ?_
  exact (hp.bind fun e he => .pure (freeIn_some he)).apply hs hlow h

theorem gives_orMissing {c : Prop} [Decidable c] {f : Option Node → Read β} (hp : Gives low Node.CallFree p)
    (hf : ∀ o, FreeIn o → Gives low Q (f o)) :
    Gives low Q (if c then pure none >>= f else p >>= fun e => pure (some e) >>= f) :=
  of_ite (hf none nofun) (hp.bind fun _ he => hf _ (freeIn_some he))

section Expressions

variable {r : Rules} (hr : r.CallFree)

include hr

theorem gives_binaryLevel (k : Nat) : GivesFree (binaryLevel r k) := by
  induction k with
  | zero => exact hr.factor
  | succ k ih =>
    refine .peek fun start => ih.bind fun first hfirst => .loop (fun left hleft => ?_) hfirst
    refine .peek fun t => ?_
    split
    · refine .skip (ih.bind fun right hright => ?_)
      exact (gives_make rfl (by simp [hleft, hright])).bind fun _ h => .pure h
    · exact .pure hleft

omit hr in
theorem gives_cmpOp? : Gives 0 (fun _ => True) cmpOp? := by
  refine .peek fun t => of_ite ?_ (of_ite ?_ (of_ite ?_ ?_))
  · exact of_ite (.skip (.pure trivial)) (.pure trivial)
  · exact .skip (.pure trivial)
  · exact .skip (gives_tryWord.test (.pure trivial) (.pure trivial))
  · refine gives_peekAt.bind fun _ _ => of_ite ?_ (.pure trivial)
    exact .skip (.skip (.pure trivial))

theorem gives_comparison : GivesFree (comparison r) := by
  refine .peek fun start => hr.bitwiseOr.bind fun left hleft => ?_
  refine (Gives.loop (P := fun acc => AllFree acc.2) (fun acc hacc => ?_) (by simp [AllFree])).bind fun found hfound => ?_
  · refine gives_cmpOp?.bind fun o _ => ?_
    cases o with
    | some o => exact hr.bitwiseOr.bind fun right hright => .pure (forall_mem_concat hacc hright)
    | none => exact .pure hacc
  · obtain ⟨ops, rights⟩ := found
    dsimp only
    split
    · exact .pure hleft
    · exact gives_make rfl (by simpa [hleft] using hfound)

theorem gives_inversion : GivesFree (inversion r) := by
  refine .peek fun start => gives_tryWord.test ?_ (gives_comparison hr)
  exact hr.inversion.bind fun e he => gives_make rfl (by simpa using he)

omit hr in
theorem gives_boolChain {o : BoolOp} (hp : GivesFree p) : GivesFree (chain (tryWord w) (.boolOp o) p) := by
  refine .peek fun start => hp.bind fun first hfirst => ?_
  refine (gives_more gives_tryWord hp (forall_mem_nil _)).bind fun rest hrest => of_ite (.pure hfirst) ?_
  exact gives_make rfl (by simpa [hfirst] using hrest)

theorem gives_disjunction : GivesFree (disjunction r) :=
  gives_boolChain (gives_boolChain (gives_inversion hr))

theorem gives_parameter : GivesFree (parameter r typed) := by
  refine gives_ident.bind fun t _ => .branch gives_tryOp (.pure trivial) fun annotated _ => ?_
  refine .branch (P := FreeIn) (gives_some hr.expression) (.pure nofun) fun hint hhint => ?_
  exact gives_make rfl (by simpa using hhint)

theorem gives_starParameter : GivesFree (starParameter r typed) := by
  refine gives_ident.bind fun t _ => of_ite (gives_tryOp.test ?_ ?_) ?_
  · refine .peek fun start => gives_tryOp.test ?_ ?_
    · refine hr.bitwiseOr.bind fun inner hinner => ?_
      refine (gives_make rfl (by simpa using hinner)).bind fun e he => ?_
      exact gives_make rfl (by simpa using he)
    · exact hr.expression.bind fun e he => gives_make rfl (by simpa using he)
  · exact gives_make rfl (by simp)
  · exact gives_make rfl (by simp)

structure Partial.Free (p : Partial) : Prop where
  posOnly : AllFree p.posOnly
  args : AllFree p.args
  defaults : AllFree p.defaults
  vararg : FreeIn p.vararg
  kwOnly : AllFree p.kwOnly
  kwDefaults : ∀ d ∈ p.kwDefaults, FreeIn d
  kwarg : FreeIn p.kwarg

theorem gives_nextParameter {p : Partial} (hp : p.Free) : Gives 0 Partial.Free (parameters.one r typed p) := by
  unfold parameters.one
  refine .unless ?_
  refine gives_tryOp.test ?_ (gives_tryOp.test ?_ (gives_tryOp.test ?_ ?_))
  · refine .unless (.pure ?_)
    exact { hp with posOnly := hp.args, args := forall_mem_nil _ }
  · exact (gives_parameter hr).bind fun a ha => .pure { hp with kwarg := freeIn_some ha }
  · refine .unless (gives_atOp.test (.pure { hp with }) ?_)
    exact (gives_starParameter hr).bind fun a ha => .pure { hp with vararg := freeIn_some ha }
  refine (gives_parameter hr).bind fun a ha => gives_tryOp.bind fun _ _ => ?_
  extract_lets next
  have hnext (default : Option Node) (hdefault : FreeIn default) : Gives 0 Partial.Free (next default) := by
    refine of_ite (.pure { hp with kwOnly := forall_mem_concat hp.kwOnly ha, kwDefaults := ?_ }) ?_
    · simpa [or_imp, forall_and] using ⟨hp.kwDefaults, hdefault⟩
    · split
      · exact .pure { hp with args := forall_mem_concat hp.args ha, defaults := forall_mem_concat hp.defaults (hdefault _ rfl) }
      · exact of_ite (.pure { hp with args := forall_mem_concat hp.args ha }) gives_malformed
  refine of_ite ?_ (hnext none nofun)
  exact hr.expression.bind fun e he => hnext (some e) (freeIn_some he)

theorem gives_parameters : GivesFree (parameters r typed close) := by
  refine (Gives.loop (P := Partial.Free) (fun p hp => ?_) ?_).bind fun p hp => .unless ?_
  · refine gives_atOp.test (.pure hp) ((gives_nextParameter hr hp).bind fun p hp => ?_)
    refine gives_tryOp.test (.pure hp) (gives_atOp.test (.pure hp) gives_refuse)
  · constructor <;> simp [AllFree, FreeIn]
  · refine gives_makeUnplaced rfl fun c hc => ?_
    simp only [Shape.children, mem_append, Option.mem_toList, mem_filterMap] at hc
    obtain ((((((hc | hc) | hc) | hc) | ⟨d, hd, hc⟩) | hc) | hc) := hc
    · exact hp.posOnly c hc
    · exact hp.args c hc
    · exact hp.vararg c hc
    · exact hp.kwOnly c hc
    · exact hp.kwDefaults d hd c hc
    · exact hp.kwarg c hc
    · exact hp.defaults c hc

theorem gives_lambda : GivesFree (lambda r) := by
  refine .peek fun start => gives_word.bind fun _ _ => (gives_parameters hr).bind fun args hargs => ?_
  refine .op (hr.expression.bind fun body hbody => ?_)
  exact gives_make rfl (by simp [hargs, hbody])

theorem gives_expression : GivesFree (expression r) := by
  refine gives_atWord.test (gives_lambda hr) ?_
  refine .peek fun start => (gives_disjunction hr).bind fun body hbody => ?_
  refine gives_tryWord.test ?_ (.pure hbody)
  refine (gives_disjunction hr).bind fun test htest => gives_word.bind fun _ _ => ?_
  exact hr.expression.bind fun orelse horelse => gives_make rfl (by simp [htest, hbody, horelse])

theorem gives_namedExpression : GivesFree (namedExpression r) := by
  refine .peek fun t => gives_peekAt.bind fun _ _ => of_ite ?_ ?_
  · refine .skip (.skip ?_)
    refine (gives_make rfl (by simp)).bind fun name hname => hr.expression.bind fun e he => ?_
    exact gives_make rfl (by simp [hname, he])
  · exact (gives_expression hr).bind fun e he => gives_atOp.bind fun _ _ => .unless (.pure he)

theorem gives_starred (hp : GivesFree p) : GivesFree (do
    let start ← peek
    if ← tryOp "*" then make start (.starred (← r.bitwiseOr) .load) else p) :=
  .peek fun _ => gives_tryOp.test (hr.bitwiseOr.bind fun _ he => gives_make rfl (by simpa using he)) hp

theorem gives_starNamed : GivesFree (starNamed r) := gives_starred hr (gives_namedExpression hr)

omit hr in
theorem gives_tupleOf (hitem : GivesFree item) : GivesFree (tupleOf item) := by
  refine .peek fun start => hitem.bind fun first hfirst => ?_
  refine (Gives.loop (P := fun acc => AllFree acc.1) (fun (acc, seen) hacc => ?_) ?_).bind fun (items, commas) hitems => ?_
  · simpa [AllFree] using hfirst
  · exact of_ite (gives_make rfl hitems) (.pure hfirst)
  · refine gives_tryOp.test (.peek fun _ => of_ite ?_ (.pure hacc)) (.pure hacc)
    exact hitem.bind fun e he => .pure (forall_mem_concat hacc he)

theorem gives_starExpressions : GivesFree (starExpressions r) := gives_tupleOf (gives_starred hr (gives_expression hr))

theorem gives_yieldExpr : GivesFree (yieldExpr r) := by
  refine .peek fun start => gives_word.bind fun _ _ => gives_tryWord.test ?_ ?_
  · exact hr.expression.bind fun e he => gives_make rfl (by simpa using he)
  · refine .peek fun _ => of_ite ?_ (gives_make rfl (by simp))
    exact (gives_starExpressions hr).bind fun e he => gives_make rfl (by simpa using he)

omit hr in
theorem gives_asTarget (k : Nat) (he : e.CallFree) : GivesFree (asTarget usage k e) := by
  induction k generalizing e with
  | zero => exact gives_malformed
  | succ k ih =>
    obtain ⟨-, hparts⟩ := he
    unfold asTarget
    split
    case h_1 => exact .pure (.mk rfl (forall_mem_nil _))
    case h_2 v _ u h | h_3 v _ u h =>
      exact .pure (.mk rfl fun c hc => hparts c (by simpa [children, withShape, h] using hc))
    case h_4 v u h =>
      refine of_ite gives_malformed ((ih (hparts v (by simp [children, h]))).bind fun e he => ?_)
      exact .pure (.mk rfl (by simpa [children, withShape] using he))
    case h_5 es u h | h_6 es u h =>
      refine (Gives.mapM fun e he => ih (hparts e (by simpa [children, h] using he))).bind fun es hes => ?_
      exact .pure (.mk rfl (by simpa [children, withShape] using hes))
    case h_7 => exact gives_malformed

omit hr in
theorem gives_target (he : e.CallFree) : GivesFree (target usage e) := by
  refine .of fun s n s' hs hlow h => ?_
  exact (gives_asTarget _ he).apply hs hlow h

theorem gives_loopTargets : GivesFree (loopTargets r) :=
  (gives_tupleOf (gives_starred hr hr.bitwiseOr)).bind fun _ he => gives_target he

theorem gives_comprehensionClause {isAsync : Bool} : GivesFree (comprehensionClause r isAsync) := by
  refine (gives_loopTargets hr).bind fun t ht => gives_word.bind fun _ _ => (gives_disjunction hr).bind fun iter hiter => ?_
  refine (gives_more gives_tryWord (gives_disjunction hr) (forall_mem_nil _)).bind fun ifs hifs => ?_
  exact gives_makeUnplaced rfl (by simpa [ht, hiter] using hifs)

omit hr in
theorem gives_atClause : Gives 0 (fun _ => True) atClause := by
  refine gives_atWord.test (.pure trivial) ?_
  exact gives_atWord.bind fun _ _ => gives_peekAt.bind fun _ _ => .pure trivial

theorem gives_clauses : Gives 0 AllFree (clauses r) := by
  refine gives_more gives_atClause ?_ (forall_mem_nil _)
  exact gives_tryWord.bind fun isAsync _ => gives_word.bind fun _ _ => gives_comprehensionClause hr

theorem gives_display {start : Token} {comprehension several : List Node → Shape Node} {alone : Read Node} (he : e.CallFree)
    (hcomprehension : ∀ gens, isCall ⟨0, none, none, comprehension gens⟩ = false ∧ (comprehension gens).children = e :: gens)
    (hseveral : ∀ es, isCall ⟨0, none, none, several es⟩ = false ∧ (several es).children = es) (halone : GivesFree alone) :
    GivesFree (display r start close e comprehension several alone) := by
  refine gives_atClause.test ?_ (gives_tryOp.test ?_ (.op halone))
  · refine .unless ((gives_clauses hr).bind fun gens hgens => .op (gives_make (hcomprehension gens).1 ?_))
    exact (hcomprehension gens).2 ▸ forall_mem_cons.2 ⟨he, hgens⟩
  · refine (gives_itemsUntil (gives_starNamed hr) (forall_mem_singleton.2 he)).bind fun es hes => ?_
    exact gives_make (hseveral es).1 ((hseveral es).2.symm ▸ hes)

theorem strides_parenthesised : Strides c Node.CallFree (parenthesised r) := by
  refine .peek fun start => .op (gives_tryOp.test (gives_make rfl (forall_mem_nil _)) ?_)
  refine gives_atWord.test ?_ ((gives_starNamed hr).bind fun e he => ?_)
  · exact (gives_yieldExpr hr).bind fun e he => .op (.pure he)
  exact gives_display hr he (fun _ => ⟨rfl, rfl⟩) (fun _ => ⟨rfl, rfl⟩) (.unless (.pure he))

theorem strides_bracketed : Strides c Node.CallFree (bracketed r) := by
  refine .peek fun start => .op (gives_tryOp.test (gives_make rfl (forall_mem_nil _)) ?_)
  refine (gives_starNamed hr).bind fun e he => ?_
  exact gives_display hr he (fun _ => ⟨rfl, rfl⟩) (fun _ => ⟨rfl, rfl⟩) (gives_make rfl (by simpa using he))

abbrev EntryFree (e : Option Node × Node) : Prop := FreeIn e.1 ∧ e.2.CallFree

theorem gives_dictEntry : Gives 0 EntryFree (dictEntry r) := by
  refine gives_tryOp.test (hr.bitwiseOr.bind fun e he => .pure ⟨nofun, he⟩) ?_
  exact hr.expression.bind fun k hk => .op (hr.expression.bind fun v hv => .pure ⟨freeIn_some hk, hv⟩)

omit hr in
theorem gives_dict {es : List (Option Node × Node)} (hes : ∀ e ∈ es, EntryFree e) :
    GivesFree (make t (.dict (es.map (·.1)) (es.map (·.2)))) := by
  refine gives_make rfl fun c hc => ?_
  simp only [Shape.children, mem_append, mem_filterMap, mem_map] at hc
  obtain ⟨k, ⟨e, he, rfl⟩, hc⟩ | ⟨e, he, rfl⟩ := hc
  · exact (hes e he).1 c hc
  · exact (hes e he).2

theorem strides_braced : Strides c Node.CallFree (braced r) := by
  refine .peek fun start => .op (gives_tryOp.test (gives_make rfl (forall_mem_nil _)) ?_)
  refine gives_atOp.test ?_ ((gives_starNamed hr).bind fun e he => ?_)
  · exact (gives_itemsUntil (gives_dictEntry hr) (forall_mem_nil _)).bind fun es hes => gives_dict hes
  refine gives_tryOp.test (hr.expression.bind fun v hv => gives_atClause.test ?_ ?_) ?_
  · refine (gives_clauses hr).bind fun gens hgens => .op ?_
    exact gives_make rfl (by simpa [he, hv] using hgens)
  · have hentry : ∀ e' ∈ [(some e, v)], EntryFree e' := by simp [EntryFree, FreeIn, he, hv]
    refine gives_tryOp.test ?_ ?_
    · exact (gives_itemsUntil (gives_dictEntry hr) hentry).bind fun es hes => gives_dict hes
    · exact .op (gives_dict hentry)
  exact gives_display hr he (fun _ => ⟨rfl, rfl⟩) (fun _ => ⟨rfl, rfl⟩) (gives_make rfl (by simpa using he))

theorem gives_slice : GivesFree (slice r) := by
  refine .peek fun start => gives_atOp.test (gives_starNamed hr) ?_
  have hstops : Gives 0 (fun _ => True) (do return (← atOp ":") || (← atOp ",") || (← atOp "]")) :=
    gives_atOp.bind fun _ _ => gives_atOp.bind fun _ _ => gives_atOp.bind fun _ _ => .pure trivial
  refine gives_atOp.bind fun _ _ => gives_orMissing (gives_namedExpression hr) fun lower hlower => ?_
  refine gives_tryOp.test ?_ ?_
  · refine hstops.bind fun _ _ => gives_orMissing hr.expression fun upper hupper => ?_
    have hmake (step : Option Node) (hstep : FreeIn step) : GivesFree (make start (.slice lower upper step)) := by
      refine gives_make rfl fun c hc => ?_
      simp only [Shape.children, mem_append, Option.mem_toList] at hc
      obtain ((hc | hc) | hc) := hc
      · exact hlower c hc
      · exact hupper c hc
      · exact hstep c hc
    exact gives_tryOp.test (hstops.bind fun _ _ => gives_orMissing hr.expression hmake) (hmake none nofun)
  · split
    · exact .pure (hlower _ rfl)
    · exact gives_refuse

theorem gives_slices : GivesFree (slices r) := by
  refine .peek fun start => (gives_slice hr).bind fun first hfirst => gives_tryOp.test ?_ ?_
  · refine (Gives.loop (P := AllFree) (fun acc hacc => ?_) (by simpa [AllFree] using hfirst)).bind fun es hes => gives_make rfl hes
    refine gives_atOp.test (.pure hacc) ((gives_slice hr).bind fun e he => gives_tryOp.bind fun _ _ => ?_)
    exact .pure (forall_mem_concat hacc he)
  · exact of_ite (gives_make rfl (by simpa using hfirst)) (.pure hfirst)

/-! ### Formatted texts -/

omit hr in
theorem append_of_expressionEnd {n : Nat} {opened e rest : List Char} (h : expressionEnd n cs opened acc = some (e, rest)) :
    e ++ rest = acc.reverse ++ cs := by
  fun_induction expressionEnd n cs opened acc with
  | case1 | case2 | case4 | case7 | case9 => cases h
  | case3 n c r opened acc _ ih =>
    obtain ⟨⟨body, rest'⟩, hbody, h⟩ := Option.bind_eq_some_iff.1 h
    dsimp only at h
    split at h
    · cases h
    · rw [ih body rest' h, ← Token.append_of_stringFrom hbody]
      simp
  | case8 | case14 => simp_all
  | case15 n c r opened acc _ _ _ _ _ hends _ _ _ _ ih =>
    rw [if_neg hends] at h
    simpa using ih h
  | case5 _ _ _ _ _ _ _ _ ih | case6 _ _ _ _ _ _ _ _ _ _ _ ih | case10 _ _ _ _ _ _ _ _ _ ih | case11 _ _ _ _ _ _ _ _ _ ih
  | case12 _ _ _ _ _ _ _ _ _ ih | case13 _ _ _ _ _ _ _ _ _ ih | case16 _ _ _ _ _ _ _ _ _ _ ih => simpa using ih h

omit hr in
theorem gives_textOf : Gives low (fun _ => True) (textOf raw cs) := by
  refine of_ite (.pure trivial) ?_
  split
  · exact .pure trivial
  · exact gives_malformed

theorem gives_embedded {line col : Nat} (hcs : '(' ∉ cs) : Gives low Node.CallFree (embedded r cs line col) := by
  refine .of fun s n s' _ _ h => ?_
  obtain ⟨_, _, ⟨⟩, h⟩ := bind_eq_ok.1 h
  cases hscan : Token.scanAt line col ('(' :: cs ++ [')']) with
  | error f =>
    rw [hscan] at h
    cases h
  | ok tokens =>
    rw [hscan] at h
    obtain ⟨_, t, ⟨⟩, h⟩ := bind_eq_ok.1 h
    obtain ⟨e, t, he, h⟩ := bind_eq_ok.1 h
    have hmild : Token.Mild tokens := Token.mild_of_scanAt_bracketed hcs hscan
    obtain ⟨-, -, hfree⟩ := (gives_starExpressions hr).apply (s := { s with tokens, pos := 0 }) hmild (Nat.zero_le _) he
    obtain ⟨_, _, ⟨⟩, h⟩ := bind_eq_ok.1 h
    split at h
    · cases h
    · cases h
      exact ⟨rfl, le_rfl, hfree⟩

def PiecesFree (ps : List Piece) : Prop := ∀ n, .field n ∈ ps → n.CallFree

omit hr in
theorem gives_charsNode : Gives low AllFree (charsNode t cs) := by
  refine of_ite (.pure (forall_mem_nil _)) ?_
  exact (gives_make rfl (forall_mem_nil _)).bind fun n hn => .pure (forall_mem_singleton.2 hn)

omit hr in
theorem gives_joinPieces {last : Token} {ps : List Piece} (hps : PiecesFree ps) :
    Gives low AllFree (joinPieces first last ps acc) := by
  induction ps generalizing acc with
  | nil => exact gives_charsNode
  | cons p ps ih =>
    have hrest : PiecesFree ps := fun n hn => hps n (mem_cons_of_mem _ hn)
    cases p with
    | chars cs => exact ih hrest
    | field n =>
      refine gives_charsNode.bind fun before hbefore => (ih hrest).bind fun after hafter => .pure ?_
      exact forall_mem_append.2 ⟨hbefore, forall_mem_cons.2 ⟨hps n (mem_cons_self ..), hafter⟩⟩

abbrev Piecewise (r : List Piece × Nat × List Char) : Prop := PiecesFree r.1 ∧ '(' ∉ r.2.2

/-- A reader of pieces that finds no calls where there is no opening bracket. -/
def PieceReader.CallFree (again : PieceReader) : Prop :=
  ∀ depth off cs acc, '(' ∉ cs → Gives 0 Piecewise (again depth off cs acc)

theorem gives_pieceField {p : Place} {again : PieceReader} (hagain : again.CallFree) {depth off : Nat} (hcs : '(' ∉ cs) :
    Gives 0 Piecewise (pieceField r p again depth off cs acc) := by
  unfold pieceField
  refine .unless ?_
  cases hend : expressionEnd (cs.length + 1) cs [] [] with
  | none => exact gives_malformed
  | some found =>
    obtain ⟨expr, rest⟩ := found
    have hcut : expr ++ rest = cs := append_of_expressionEnd hend
    rw [← hcut, mem_append, not_or] at hcs
    refine .unless ?_
    refine (gives_embedded hr hcs.1).bind fun value hvalue => ?_
    extract_lets here
    split
    rename_i echoed off rest' hecho
    have hrest : '(' ∉ rest' := by
      split at hecho
      · cases hecho
        exact fun h => hcs.2 (mem_cons_of_mem _ (mem_of_mem_drop h))
      · cases hecho
        exact hcs.2
    extract_lets specify
    have hspecify (conversion : Option Char) (off : Nat) (rest : List Char) (hrest : '(' ∉ rest) :
        Gives 0 Piecewise (specify (conversion, off, rest)) := by
      dsimp -zeta only [specify]
      extract_lets close
      have hclose (spec : Option Node) (off : Nat) (rest : List Char) (hspec : FreeIn spec) (hrest : '(' ∉ rest) :
          Gives 0 Piecewise (close (spec, off, rest)) := by
        dsimp -zeta only [close]
        split
        · refine (gives_make rfl (by simpa [hvalue] using hspec)).bind fun node hnode => gives_textOf.bind fun before _ => ?_
          refine (hagain _ _ _ _ fun h => hrest (mem_cons_of_mem _ h)).bind fun (ps, off, left) hps => ?_
          exact .pure ⟨by simpa [PiecesFree, hnode] using hps.1, hps.2⟩
        · exact gives_malformed
      split
      · refine (hagain _ _ _ _ fun h => hrest (mem_cons_of_mem _ h)).bind fun (ps, off, left) hps => ?_
        refine (gives_joinPieces hps.1).bind fun values hvalues => .bind (gives_make rfl hvalues) fun spec hspec => ?_
        exact hclose (some spec) off left (freeIn_some hspec) hps.2
      · exact hclose none off rest nofun hrest
    split
    · rename_i c rest''
      refine of_ite (hspecify (some c) (off + 2) rest'' fun h => ?_) gives_malformed_bind
      exact hrest (mem_cons_of_mem _ (mem_cons_of_mem _ h))
    · exact hspecify none off rest' hrest

theorem gives_pieces {p : Place} (n : Nat) : PieceReader.CallFree (pieces r p n) := by
  induction n with
  | zero => exact fun _ _ _ _ _ => gives_malformed
  | succ n ih =>
    intro depth off cs acc hcs
    have hend : Gives 0 Piecewise (do return ([.chars (← textOf p.raw acc.reverse)], off, cs)) :=
      gives_textOf.bind fun _ _ => .pure ⟨by simp [PiecesFree], hcs⟩
    unfold pieces
    split
    · exact hend
    all_goals simp only [mem_cons, not_or] at hcs
    · exact of_ite (ih _ _ _ _ (by simpa using hcs.2)) (ih _ _ _ _ hcs.2.2)
    · exact of_ite (ih _ _ _ _ hcs.2.2) (gives_pieceField hr ih (by simpa using hcs.2))
    · exact gives_pieceField hr ih hcs.2
    · refine of_ite hend ?_
      split
      · exact ih _ _ _ _ fun h => hcs.2 (mem_cons_of_mem _ h)
      · exact gives_malformed
    · exact ih _ _ _ _ hcs.2

omit hr in
theorem mem_of_mem_content {c : Char} (h : c ∈ (splitString text).content) : c ∈ text.toList := by
  exact mem_of_mem_drop (mem_of_mem_drop (mem_of_mem_take h))

theorem gives_stringPieces (ht : '(' ∉ t.text.toList) : Gives 0 (fun r => PiecesFree r.1) (stringPieces r first t) := by
  refine of_ite ?_ (gives_textOf.bind fun _ _ => .pure (by simp [PiecesFree]))
  refine (gives_pieces hr _ _ _ _ _ fun h => ht (mem_of_mem_content h)).bind fun (ps, _, _) hps => .pure hps.1

omit hr in
theorem gives_bytesOf : Gives low (fun _ => True) (bytesOf raw cs) := by
  unfold bytesOf
  refine .unless (of_ite (.pure trivial) ?_)
  split
  · exact .pure trivial
  · exact gives_malformed_bind

theorem strides_strings : Strides (fun t => t.kind = .string) Node.CallFree (strings r) := by
  have hstep (acc : Array Token) (hacc : ∀ t ∈ acc, '(' ∉ t.text.toList) :
      Gives 0 (fun x => ∀ t ∈ x.1, '(' ∉ t.text.toList) (do
        let t ← peek
        if t.kind == .string then skip; return (acc.push t, true) else return (acc, false)) := by
    refine gives_peek.bind fun t ht => ?_
    split
    · rename_i hkind
      have htext : '(' ∉ t.text.toList := fun hmem => by simp [(ht hmem).2] at hkind
      exact .skip (.pure (by simpa [or_imp, forall_and] using ⟨hacc, htext⟩))
    · exact .pure hacc
  refine .peek fun first => (Strides.loop ⟨hstep _ (by simp), fun s a s' _ hc h => ?_⟩ hstep (by simp)).bind fun tokens htokens => ?_
  · obtain ⟨t, _, ⟨⟩, h⟩ := bind_eq_ok.1 h
    split at h
    · cases h
      exact Nat.lt_succ_self _
    · exact absurd (beq_iff_eq.2 hc.1) ‹_›
  refine of_ite (of_ite ?_ gives_malformed) ?_
  · refine (Gives.mapM (Q := fun _ => True) fun t _ => gives_bytesOf).bind fun _ _ => ?_
    exact gives_make rfl (forall_mem_nil _)
  · refine (Gives.mapM fun t ht => gives_stringPieces hr (htokens t (Array.mem_toList_iff.1 ht))).bind fun parts hparts => ?_
    extract_lets all
    have hall : PiecesFree all := fun n hn => by
      obtain ⟨part, hpart, hmem⟩ := mem_flatMap.1 hn
      exact hparts part hpart n hmem
    refine of_ite ?_ (gives_make rfl (forall_mem_nil _))
    exact (gives_joinPieces hall).bind fun values hvalues => gives_make rfl hvalues

/-! ### Atoms and what follows them -/

theorem strides_atom : Strides (fun _ => True) Node.CallFree (atom r) := by
  have hleaf {c : Token → Prop} {t : Token} {shape : Shape Node} (hcall : isCall ⟨0, none, none, shape⟩ = false)
      (hparts : shape.children = []) : Strides c Node.CallFree (skip >>= fun _ => make t shape) :=
    .skip (gives_make hcall (hparts ▸ forall_mem_nil _))
  refine .peek fun t => ?_
  split
  · exact of_ite (hleaf rfl rfl) (of_ite (hleaf rfl rfl) (of_ite (hleaf rfl rfl) (of_ite .refuse (hleaf rfl rfl))))
  · exact hleaf rfl rfl
  · rename_i hkind
    exact (strides_strings hr).weaken fun u hu => hu.2 ▸ hkind
  · split
    · exact strides_parenthesised hr
    · exact strides_bracketed hr
    · exact strides_braced hr
    · exact hleaf rfl rfl
    · exact .refuse
  · exact .refuse

theorem gives_primary : GivesFree (primary r) := by
  refine .peek fun start => ?_
  have hstep (e : Node) (he : e.CallFree) : Gives 1 (fun r => r.1.CallFree) (do
      let t ← peek
      if ← tryOp "." then
        let a ← ident
        return (← make start (.attribute e a.text .load), true)
      else if ← tryOp "(" then
        let args ← callArguments r t
        return (← make start (.call e args.1 args.2), true)
      else if ← tryOp "[" then
        let i ← slices r
        op "]"
        return (← make start (.subscript e i .load), true)
      else return (e, false)) := by
    refine .peek fun t => gives_tryOp.test ?_ (gives_tryOp_bracket.bind fun b hb => ?_)
    · exact gives_ident.bind fun a _ => (gives_make rfl (by simpa using he)).bind fun _ hn => .pure hn
    · subst hb
      refine gives_tryOp.test ?_ (.pure he)
      refine (gives_slices hr).later.bind fun i hi => .op ?_
      exact (gives_make rfl (by simp [he, hi])).bind fun _ hn => .pure hn
  refine .of fun s n u hs _ h => ?_
  obtain ⟨e, t, hatom, hloop⟩ := bind_eq_ok.1 h
  obtain ⟨htokens, hpos, he⟩ := (strides_atom hr).gives.apply hs (Nat.zero_le _) hatom
  have hpast : s.pos < t.pos := (strides_atom hr).advances s e t hs trivial hatom
  obtain ⟨hutokens, hupos, hn⟩ := (Gives.loop hstep he).apply (htokens ▸ hs) (Nat.one_le_of_lt hpast) hloop
  exact ⟨hutokens.trans htokens, hpos.trans hupos, hn⟩

theorem gives_power : GivesFree (power r) := by
  refine .peek fun start => gives_tryWord.bind fun _ _ => ?_
  extract_lets next
  have hnext (base : Node) (hbase : base.CallFree) : GivesFree (next base) := by
    refine gives_tryOp.test (hr.factor.bind fun e he => ?_) (.pure hbase)
    exact gives_make rfl (by simp [hbase, he])
  refine of_ite ?_ ((gives_primary hr).bind hnext)
  exact (gives_primary hr).bind fun e he => .bind (gives_make rfl (by simpa using he)) hnext

theorem gives_factor : GivesFree (factor r) := by
  have hsigned {t : Token} {o : UnaryOp} : GivesFree (r.factor >>= fun e => make t (.unaryOp o e)) :=
    hr.factor.bind fun e he => gives_make rfl (by simpa using he)
  refine .peek fun start => gives_tryOp.test hsigned ?_
  refine gives_tryOp.test hsigned (gives_tryOp.test hsigned (gives_power hr))

end Expressions

theorem callFree_upTo (n : Nat) : (Rules.upTo n).CallFree := by
  induction n with
  | zero => exact ⟨gives_malformed, gives_malformed, gives_malformed, gives_malformed⟩
  | succ n ih => exact ⟨gives_expression ih, gives_inversion ih, gives_factor ih, gives_binaryLevel ih 6⟩

/-- A text without opening brackets is read as an expression without calls. -/
theorem callFree_of_readExpression (htext : '(' ∉ text.toList) (h : readExpression text = .ok e) : e.CallFree := by
  unfold readExpression at h
  extract_lets cs whole at h
  have hcs : '(' ∉ (String.ofList cs).toList := by
    rw [String.toList_ofList]
    exact fun hmem => htext ((dropWhile_suffix _).mem hmem)
  cases hscan : Token.scan (String.ofList cs) with
  | error f =>
    rw [hscan] at h
    cases h
  | ok tokens =>
    rw [hscan] at h
    have hwhole : GivesFree whole :=
      (gives_starExpressions (callFree_upTo _)).bind fun e he => .peek fun _ => of_ite (.pure he) gives_refuse
    simp only [bind, Except.bind] at h
    cases hread : whole { tokens, pos := 0, next := 0 } with
    | ok _ _ =>
      rw [hread] at h
      cases h
      exact (hwhole.apply (Token.mild_of_scan hcs hscan) (Nat.zero_le _) hread).2.2
    | error _ _ =>
      rw [hread] at h
      cases h

end Grammar
end Polyglot
