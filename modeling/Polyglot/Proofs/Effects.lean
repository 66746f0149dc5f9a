import Mathlib.Data.List.Forall2
import Mathlib.Order.Nat
import Polyglot.Command.Conversion

/-!
# Steps of a computation that may fail

How a computation with a state and faults proceeds: a sequence succeeds exactly if its parts do, one after the
other; a list of steps that cannot fail cannot fail either; and work at a desk or on a page passes on the part that
it is about.
-/
namespace Polyglot.Effect

open List

variable {p : Page} {d : Desk} {γ : Type} {w : Workspace}

variable {ε σ α β : Type} {x : EStateM ε σ α} {f : α → EStateM ε σ β} {s t u : σ} {a : α} {b : β} {e : ε}

variable {h : ε → EStateM ε σ α} {as : List α} {bs : List β} {R : α → β → Prop} {g : α → γ} {k : β → γ}

def returned : EStateM.Result ε σ α → Bool
  | .ok _ _ => true
  | .error _ _ => false

def after : EStateM.Result ε σ α → σ
  | .ok _ s | .error _ s => s

theorem ok_after_of_returned (h : returned (x s) = true) : ∃ a, x s = .ok a (after (x s)) := by
  cases hx : x s with
  | ok a t => exact ⟨a, rfl⟩
  | error e t =>
    rw [hx] at h
    cases h

theorem bind_ok (h : x s = .ok a t) : (x >>= f) s = f a t := by
  change EStateM.bind x f s = f a t
  simp [EStateM.bind, h]

theorem bind_error (h : x s = .error e t) : (x >>= f) s = .error e t := by
  change EStateM.bind x f s = _
  simp [EStateM.bind, h]

theorem bind_eq_ok : (x >>= f) s = .ok b u ↔ ∃ a t, x s = .ok a t ∧ f a t = .ok b u := by
  change EStateM.bind x f s = _ ↔ _
  cases hx : x s <;> simp [EStateM.bind, hx]

theorem catch_ok (hx : x s = .ok a t) : (tryCatch x h) s = .ok a t := by
  change EStateM.tryCatch x h s = _
  simp [EStateM.tryCatch, hx]

theorem catch_error (hx : x s = .error e t) : (tryCatch x h) s = h e t := by
  change EStateM.tryCatch x h s = _
  simp only [EStateM.tryCatch, hx]
  rfl

theorem ok_of_catch (hh : ∀ e s a t, h e s ≠ .ok a t) (hx : (tryCatch x h) s = .ok a t) : x s = .ok a t := by
  cases hr : x s with
  | ok b u => exact (catch_ok hr).symm.trans hx
  | error e u => exact absurd ((catch_error hr).symm.trans hx) (hh e u a t)

theorem nestingLimit_eq : nestingLimit = 1000 := by
  unfold nestingLimit
  rfl

theorem exists_nestingLimit : ∃ k, nestingLimit = k + 1 := ⟨999, nestingLimit_eq⟩

theorem le_nestingLimit {k : Nat} (h : k ≤ 1000) : k ≤ nestingLimit := nestingLimit_eq ▸ h

theorem of_ite {P : α → Prop} {c : Prop} [Decidable c] {b : α} (ha : P a) (hb : P b) : P (if c then a else b) := by
  split
  · exact ha
  · exact hb

theorem of_tie {P : β → Prop} {step : (α → β) → α → β} {stop : α → β}
    (hstep : ∀ self, (∀ a, P (self a)) → ∀ a, P (step self a)) (hstop : ∀ a, P (stop a)) (k : Nat) (a : α) :
    P (tie step stop k a) := by
  induction k generalizing a with
  | zero => exact hstop a
  | succ k ih => exact hstep _ ih a

/-- From states of some kind on, a computation that returns ends in a state of that kind with a result of some kind. -/
def Ensures (I : σ → Prop) (P : α → Prop) (x : EStateM ε σ α) : Prop := ∀ s a t, I s → x s = .ok a t → I t ∧ P a

namespace Ensures

variable {I : σ → Prop} {P : α → Prop} {Q : β → Prop}

theorem bind (hx : Ensures I P x) (hf : ∀ a, P a → Ensures I Q (f a)) : Ensures I Q (x >>= f) := by
  intro s b u hs h
  obtain ⟨a, t, hxs, hft⟩ := bind_eq_ok.1 h
  obtain ⟨ht, ha⟩ := hx s a t hs hxs
  exact hf a ha t b u ht hft

theorem pure (ha : P a) : Ensures I P (Pure.pure a : EStateM ε σ α) := by
  intro s b u hs h
  cases h
  exact ⟨hs, ha⟩

theorem throw : Ensures I P (throw e : EStateM ε σ α) := nofun

theorem tryCatch (hx : Ensures I P x) (hh : ∀ e s a t, h e s ≠ .ok a t) : Ensures I P (tryCatch x h) :=
  fun s a t hs hxs => hx s a t hs (ok_of_catch hh hxs)

theorem mapM (h : ∀ a ∈ as, Ensures I Q (f a)) : Ensures I (fun bs => ∀ b ∈ bs, Q b) (as.mapM f) := by
  induction as with
  | nil => exact pure (forall_mem_nil _)
  | cons a as ih =>
    rw [mapM_cons]
    obtain ⟨ha, has⟩ := forall_mem_cons.1 h
    exact ha.bind fun b hb => (ih has).bind fun bs hbs => pure (forall_mem_cons.2 ⟨hb, hbs⟩)

theorem tie {A : γ → Prop} {step : (γ → EStateM ε σ α) → γ → EStateM ε σ α} {stop : γ → EStateM ε σ α}
    (hstep : ∀ self, (∀ c, A c → Ensures I P (self c)) → ∀ c, A c → Ensures I P (step self c))
    (hstop : ∀ c, A c → Ensures I P (stop c)) (k : Nat) {c : γ} (hc : A c) : Ensures I P (tie step stop k c) := by
  induction k generalizing c with
  | zero => exact hstop c hc
  | succ k ih => exact hstep _ (fun _ => ih) c hc

end Ensures

/-- A property that a computation has which only returns, and that goes on from step to step. -/
structure Sequential (P : {α : Type} → EStateM ε σ α → Prop) : Prop where
  pure : ∀ {α : Type} (a : α), P (Pure.pure a : EStateM ε σ α)
  bind : ∀ {α β : Type} {x : EStateM ε σ α} {f : α → EStateM ε σ β}, P x → (∀ a, P (f a)) → P (x >>= f)

namespace Sequential

variable {P : {α : Type} → EStateM ε σ α → Prop}

theorem forM (h : Sequential P) {f : α → EStateM ε σ Unit} (hf : ∀ a ∈ as, P (f a)) : P (as.forM f) := by
  induction as with
  | nil => exact h.pure ()
  | cons a as ih =>
    obtain ⟨ha, has⟩ := forall_mem_cons.1 hf
    exact h.bind ha fun _ => ih has

theorem forIn (h : Sequential P) {f : α → β → EStateM ε σ (ForInStep β)} (hf : ∀ a ∈ as, ∀ b, P (f a b)) :
    P (forIn as b f) := by
  induction as generalizing b with
  | nil => exact h.pure b
  | cons a as ih =>
    obtain ⟨ha, has⟩ := forall_mem_cons.1 hf
    rw [forIn_cons]
    refine h.bind (ha b) fun r => ?_
    cases r with
    | done b => exact h.pure b
    | yield b => exact ih has

theorem mapM (h : Sequential P) (hf : ∀ a ∈ as, P (f a)) : P (as.mapM f) := by
  induction as with
  | nil => exact h.pure []
  | cons a as ih =>
    obtain ⟨ha, has⟩ := forall_mem_cons.1 hf
    rw [mapM_cons]
    exact h.bind ha fun _ => h.bind (ih has) fun _ => h.pure _

end Sequential

theorem mapM_cons_eq_ok :
    (a :: as).mapM f s = .ok (b :: bs) u ↔ ∃ t, f a s = .ok b t ∧ as.mapM f t = .ok bs u := by
  rw [mapM_cons]
  constructor
  · intro h
    obtain ⟨b', t, hb, h⟩ := bind_eq_ok.1 h
    obtain ⟨bs', u', hbs, ⟨⟩⟩ := bind_eq_ok.1 h
    exact ⟨t, hb, hbs⟩
  · rintro ⟨t, hb, hbs⟩
    rw [bind_ok hb, bind_ok hbs]
    rfl

/-- A list of steps that always succeed succeeds, and what holds of each step holds of each result. -/
theorem mapM_forall₂ (h : ∀ a s, ∃ b t, f a s = .ok b t ∧ R a b) (as : List α) (s : σ) :
    ∃ bs t, as.mapM f s = .ok bs t ∧ List.Forall₂ R as bs := by
  induction as generalizing s with
  | nil => exact ⟨[], s, rfl, .nil⟩
  | cons a as ih =>
    obtain ⟨b, t, hb, hr⟩ := h a s
    obtain ⟨bs, u, hbs, hrs⟩ := ih t
    refine ⟨b :: bs, u, ?_, .cons hr hrs⟩
    rw [mapM_cons, bind_ok hb, bind_ok hbs]
    rfl

theorem forall₂_of_mapM (h : as.mapM f s = .ok bs t) :
    List.Forall₂ (fun a b => ∃ u v, f a u = .ok b v) as bs := by
  induction as generalizing bs s with
  | nil =>
    cases h
    exact .nil
  | cons a as ih =>
    rw [mapM_cons] at h
    obtain ⟨b, u, hb, h⟩ := bind_eq_ok.1 h
    obtain ⟨bs, v, hbs, ⟨⟩⟩ := bind_eq_ok.1 h
    exact .cons ⟨s, u, hb⟩ (ih hbs)

theorem forall₂_of_mem {S : α → β → Prop} (h : List.Forall₂ R as bs)
    (hS : ∀ a b, a ∈ as → R a b → S a b) : List.Forall₂ S as bs := by
  induction h with
  | nil => exact .nil
  | cons hab _ ih =>
    exact .cons (hS _ _ mem_cons_self hab) (ih fun a b ha => hS a b (mem_cons_of_mem _ ha))

theorem forall_right {P : β → Prop} (h : List.Forall₂ R as bs) (hR : ∀ a b, R a b → P b) : ∀ b ∈ bs, P b := by
  induction h with
  | nil => simp
  | cons hab _ ih => exact forall_mem_cons.2 ⟨hR _ _ hab, ih⟩

theorem map_of_forall₂ (h : List.Forall₂ R as bs) (hR : ∀ a b, R a b → k b = g a) : bs.map k = as.map g := by
  induction h with
  | nil => rfl
  | cons hab _ ih => rw [map_cons, map_cons, hR _ _ hab, ih]

/-- What each step keeps of its element, a list of steps keeps of the list. -/
theorem map_of_mapM (hstep : ∀ a b s t, f a s = .ok b t → k b = g a) (h : as.mapM f s = .ok bs t) : bs.map k = as.map g :=
  map_of_forall₂ (forall₂_of_mapM h) fun a b ⟨u, v, hab⟩ => hstep a b u v hab

theorem forall₂_of_mapM_some {f : α → Option β} (h : as.mapM f = some bs) : List.Forall₂ (fun a b => f a = some b) as bs := by
  induction as generalizing bs with
  | nil =>
    cases h
    exact .nil
  | cons a as ih =>
    rw [mapM_cons] at h
    obtain ⟨b, hb, h⟩ := Option.bind_eq_some_iff.1 h
    obtain ⟨bs, hbs, ⟨⟩⟩ := Option.bind_eq_some_iff.1 h
    exact .cons hb (ih hbs)

theorem exceptMapM_eq_ok {f : α → Except ε β} :
    as.mapM f = .ok bs ↔ List.Forall₂ (fun a b => f a = .ok b) as bs := by
  induction as generalizing bs with
  | nil => simp [pure, Except.pure, eq_comm]
  | cons a as ih =>
    rw [mapM_cons, forall₂_cons_left_iff]
    simp only [← ih]
    cases f a with
    | error e => simp [bind, Except.bind]
    | ok b => cases as.mapM f <;> simp [bind, Except.bind, pure, Except.pure, eq_comm]

/-! ### Work on a page and at a desk -/

attribute [local simp] liftM monadLift MonadLift.monadLift

section

variable {act : Analysis α} {s : Session} {f : Fault}

theorem lift_analysis_ok (h : act p.session = .ok a s) :
    (liftM act : Emit α) p = .ok a { p with session := s } := by simp [h]

theorem lift_analysis_error (h : act p.session = .error f s) :
    (liftM act : Emit α) p = .error f { p with session := s } := by simp [h]

theorem lift_analysis_eq_ok {p' : Page} :
    (liftM act : Emit α) p = .ok a p' ↔ ∃ s, act p.session = .ok a s ∧ p' = { p with session := s } := by
  cases h : act p.session <;> simp [h, eq_comm]

end

theorem digits_number (i : Nat) : (toString i).toList ≠ [] ∧ ∀ c ∈ (toString i).toList, c.isDigit = true := by
  rw [Nat.toString_eq_ofList_toDigits, String.toList_ofList]
  exact ⟨Nat.toDigits_ne_nil, fun _ => Nat.isDigit_of_mem_toDigits (by decide) (by decide)⟩

theorem join_some (sep : String) (ts : List String) : Emit.join sep (ts.map some) p = .ok (sep.intercalate ts) p := by
  refine (bind_ok ?_).trans rfl
  induction ts with
  | nil => rfl
  | cons t ts ih => exact mapM_cons_eq_ok.2 ⟨p, rfl, ih⟩

theorem lift_emit_ok {act : Emit α} (h : act d.page = .ok a p) : (liftM act : Work α) d = .ok a { d with page := p } := by simp [h]

theorem lift_emit_error {act : Emit α} {f : Fault} (h : act d.page = .error f p) :
    (liftM act : Work α) d = .error f { d with page := p } := by simp [h]

theorem lift_shell_ok {act : Shell α} (h : act d.room = .ok a w) : (liftM act : Work α) d = .ok a { d with room := w } := by simp [h]

theorem lift_shell_error {act : Shell α} {f : Fault} (h : act d.room = .error f w) :
    (liftM act : Work α) d = .error f { d with room := w } := by simp [h]

theorem lift_shell_eq_ok {act : Shell α} {d' : Desk} :
    (liftM act : Work α) d = .ok a d' ↔ ∃ w, act d.room = .ok a w ∧ d' = { d with room := w } := by
  cases h : act d.room <;> simp [h, eq_comm]

end Polyglot.Effect
