import Polyglot.Proofs.Deeds
import Polyglot.Proofs.Findings
import Polyglot.Proofs.Isolation

/-!
# Assignments to several targets

An assignment to several targets evaluates its value once. Where it is taken apart, into declarations or into lines, each
target has a value of its own.
-/
namespace Polyglot

open Session Effect List

/-- A computation that takes so many of the steps that are counted, if it succeeds. -/
def Effect.Counts {ε σ α : Type} (steps : σ → Nat) (k : Nat) (x : EStateM ε σ α) : Prop :=
  ∀ s a t, x s = .ok a t → steps t = steps s + k

theorem Effect.Counts.pure {ε σ α : Type} {steps : σ → Nat} (a : α) : Counts steps 0 (Pure.pure a : EStateM ε σ α) :=
  fun s b t h => by cases h; rfl

theorem Effect.Counts.bind {ε σ α β : Type} {steps : σ → Nat} {k m : Nat} {x : EStateM ε σ α} {f : α → EStateM ε σ β}
    (hx : Counts steps k x) (hf : ∀ a, Counts steps m (f a)) : Counts steps (k + m) (x >>= f) := by
  intro s b u h
  obtain ⟨a, t, ha, hb⟩ := bind_eq_ok.1 h
  rw [hf a t b u hb, hx s a t ha, Nat.add_assoc]

namespace Deed

variable {E S V : Type} {value : Deed E S V} {ds : List (Deed E S V)} {steps : S → Nat}

theorem counts_sets (hvalue : Counts steps 1 value.eval) (hds : ∀ d ∈ ds, ∀ v, Counts steps 0 (d.store v)) :
    Counts steps ds.length (sets (ds.map (·, value))) := by
  induction ds with
  | nil => exact .pure _
  | cons d ds ih =>
    obtain ⟨hd, hds⟩ := forall_mem_cons.1 hds
    have hrest := hvalue.bind fun v => (hd v).bind fun _ => ih hds
    rwa [Nat.zero_add, Nat.add_comm] at hrest

theorem counts_stores {v : V} (hds : ∀ d ∈ ds, ∀ v, Counts steps 0 (d.store v)) : Counts steps 0 (stores (ds.map (·, v))) := by
  induction ds with
  | nil => exact .pure _
  | cons d ds ih =>
    obtain ⟨hd, hds⟩ := forall_mem_cons.1 hds
    exact (hd v).bind fun _ => ih hds

end Deed

namespace Blocks

variable {s t : Session} {n ann value : Node} {targets ss out : List Node} {single : Bool} {self : Node → Analysis (List Node)}

theorem calm_isDeclared (target : Node) : Calm (isDeclared n ann target) := by
  have hfind (chain : List NodeId) (name : Option String) : Calm (Scope.findOutward chain name) :=
    .of_same fun _ _ _ h => (findOutward_eq_ok h).2.symm
  refine (calm_chainOf n).bind fun chain => (hfind chain _).bind fun d => ?_
  split
  · exact of_ite (.pure _) ((Inference.calm_typeOf _).bind fun _ => .pure _)
  · exact .pure _

/-- A statement assigns one target, with its type or without. -/
def Assigns (t : Session) (ann value c a : Node) : Prop :=
  t.Has a.id (.assign [c.id] value.id) ∨ t.Has a.id (.annAssign c.id ann.id (some value.id) true)

theorem declarations_added (hs : s.Keyed) (h : declarations n ann value single targets s = .ok (some ss) t) :
    Grows [] s t ∧ List.Forall₂ (Assigns t ann value) targets ss := by
  induction targets generalizing s ss with
  | nil =>
    cases h
    exact ⟨.refl _, .nil⟩
  | cons c cs ih =>
    obtain ⟨_, _, ⟨⟩, h⟩ := bind_eq_ok.1 h
    obtain ⟨declared, s1, hdeclared, h⟩ := bind_eq_ok.1 h
    have hgrows1 := (calm_isDeclared _ _ _ _ hdeclared hs).grows
    split at h
    · cases h
    obtain ⟨line, s2, hline, h⟩ := bind_eq_ok.1 h
    have hgrows2 := hgrows1.trans (calm_lineOf _ _ _ _ hline (hgrows1.keyed hs)).grows
    obtain ⟨a, s3, hfresh, h⟩ := bind_eq_ok.1 h
    obtain ⟨hgrows3, -, ha⟩ := adds_freshAt _ _ _ _ _ _ hfresh
    have hgrows3 := hgrows2.trans hgrows3
    obtain ⟨rest, s4, hrest, h⟩ := bind_eq_ok.1 h
    cases rest with
    | none => cases h
    | some rest =>
      cases h
      obtain ⟨hgrows4, hassigns⟩ := ih (hgrows3.keyed hs) hrest
      refine ⟨hgrows3.trans hgrows4, .cons ?_ hassigns⟩
      have hid := hs.now_id c
      split at ha
      · exact .inl (hid ▸ ha.kept hgrows4)
      · exact .inr (hid ▸ ha.kept hgrows4)

theorem run_assigns {E S V : Type} {M : Machine E S V} {D : NodeId → Deed E S V} {c a : Node} (hD : M.Models t D)
    (h : Assigns t ann value c a) : (D a.id).run = Deed.sets [(D c.id, D value.id)] := by
  rcases h with h | h
  · rw [hD _ _ h]
    exact M.run_assign _ _
  · rw [hD _ _ h]
    rfl

/-- An assignment is left as it is or becomes statements for its targets. -/
theorem declareTypes_added (hs : s.Keyed) (hn : n.shape = .assign targets value) (h : declareTypes self n s = .ok out t) :
    out = [n] ∨ ∃ b ann ss, out = [b] ∧ Grows [] s t ∧ List.Forall₂ (Assigns t ann value) targets ss ∧
      (ss = [b] ∨ ∃ test, t.Has b.id (.cond test (ss.map Node.id) []) ∧ t.Has test (.constant (.bool true) false)) := by
  rw [declareTypes, hn] at h
  obtain ⟨head, s1, hhead, h⟩ := bind_eq_ok.1 h
  have hgrows1 := (Along.optionMapM (fun c _ => calm_current c) _ _ _ hhead hs).grows
  cases head with
  | none => cases h
  | some target
  obtain ⟨hint, s2, hhint, h⟩ := bind_eq_ok.1 h
  have hgrows2 := hgrows1.trans (calm_hintOf _ _ _ _ hhint (hgrows1.keyed hs)).grows
  have hleft (h : (pure [n] : Analysis (List Node)) s2 = .ok out t) : out = [n] := by
    cases h
    rfl
  generalize target.isSubscript = subscript at h
  rcases subscript, hint with ⟨_ | _, _ | hint⟩
  · exact .inl (hleft h)
  rotate_left
  · exact .inl (hleft h)
  · exact .inl (hleft h)
  dsimp -zeta only at h
  extract_lets declare at h
  obtain ⟨ann, s3, hgrows3, h⟩ : ∃ ann s3, Grows [] s s3 ∧ declare ann s3 = .ok out t := by
    split at h
    · obtain ⟨ann, s3, hann, h⟩ := bind_eq_ok.1 h
      exact ⟨ann, s3, hgrows2.trans (calm_typeName _ _ _ _ hann (hgrows2.keyed hs)).grows, h⟩
    · exact ⟨_, s2, hgrows2, h⟩
  obtain ⟨ss, s4, hss, h⟩ := bind_eq_ok.1 h
  split at h
  · cases h
    exact .inl rfl
  · cases h
    obtain ⟨hgrows, hassigns⟩ := declarations_added (hgrows3.keyed hs) hss
    exact .inr ⟨_, ann, _, rfl, hgrows3.trans hgrows, hassigns, .inl rfl⟩
  · obtain ⟨b, s5, hblock, ⟨⟩⟩ := bind_eq_ok.1 h
    obtain ⟨hgrows4, hassigns⟩ := declarations_added (hgrows3.keyed hs) hss
    have hgrows4 := hgrows3.trans hgrows4
    obtain ⟨test, hgrows5, hb, htest⟩ := block_grows (hgrows4.keyed hs) hblock
    refine .inr ⟨b, ann, _, rfl, hgrows4.trans hgrows5, hassigns.imp fun c a h => ?_, .inr ⟨test, hb, htest⟩⟩
    exact h.imp (·.kept hgrows5) (·.kept hgrows5)

def twoTargets : Node :=
  ⟨5, some 1, some 0, .assign [⟨1, some 1, some 0, .name "a" .store⟩, ⟨2, some 1, some 4, .name "b" .store⟩]
    ⟨4, some 1, some 8, .call ⟨3, some 1, some 8, .name "f" .load⟩ [] []⟩⟩

def typed : Session :=
  let facts : List (NodeId × Facts) := [(1, { hint := some (some 6) }), (5, { scopes := some [7] })]
  { next := 8, facts := .ofList facts }

end Blocks
end Polyglot
