import Polyglot.Proofs.Noting

/-!
# The scopes that are open

While a pass goes through a tree, the scopes around the node at hand are open. All passes share one stack of them, also
from one program to the next. A pass that fails closes none: the scopes from the root of the tree down to the node at
which it failed stay open.
-/
namespace Polyglot

open Session Effect List

variable {step : (Node → Analysis Unit) → Node → Analysis Unit} {act : Analysis Unit} (id : NodeId)

namespace Scope

/-- An action that leaves the open scopes as they were if it returns, and at most adds to them if it fails. -/
def Balanced {α : Type} (act : Analysis α) : Prop :=
  ∀ s, match act s with
    | .ok _ s' => s'.openScopes = s.openScopes
    | .error _ s' => s.openScopes <+: s'.openScopes

namespace Balanced

variable {α β : Type} {x : Analysis α} {f : α → Analysis β} {as : List α}

theorem fail (c : Cause) : Balanced (Session.fail c : Analysis α) := fun _ => prefix_rfl

theorem bind (hx : Balanced x) (hf : ∀ a, Balanced (f a)) : Balanced (x >>= f) := by
  intro s
  have hs := hx s
  cases h : x s with
  | error e t =>
    rw [bind_error h]
    rwa [h] at hs
  | ok a t =>
    rw [h] at hs
    have ht := hf a t
    rw [bind_ok h]
    cases hb : f a t with
    | ok b u =>
      rw [hb] at ht
      exact ht.trans hs
    | error e u =>
      rw [hb] at ht
      rwa [hs] at ht

theorem declared : Declared Balanced where
  pure _ _ := rfl
  bind := bind
  read h s := by
    obtain ⟨a, ha⟩ := h s
    rw [ha]
  fail := fail
  note _ _ _ _ := rfl

end Balanced

variable {n : Node}

/-- What an action leaves of the open scopes, if it goes through a tree: all of them are as they were, or it failed and
left open those of the tree, the root first. -/
def Leaves (n : Node) (s : Session) : EStateM.Result Fault Session Unit → Prop
  | .ok _ s' => s'.openScopes = s.openScopes
  | .error _ s' => s.openScopes ++ (if n.opensScope then [n.id] else []) <+: s'.openScopes

theorem within_leaves (h : Balanced act) (n : Node) (s : Session) : Leaves n s (within n act s) := by
  unfold within
  by_cases hn : n.opensScope = true
  · rw [if_pos hn]
    have hact := h { s with openScopes := s.openScopes ++ [n.id] }
    change Leaves n s ((act >>= _) { s with openScopes := s.openScopes ++ [n.id] })
    cases hrun : act { s with openScopes := s.openScopes ++ [n.id] } with
    | ok u t =>
      rw [hrun] at hact
      rw [bind_ok hrun]
      change t.openScopes.dropLast = s.openScopes
      rw [hact, dropLast_concat]
    | error e t =>
      rw [hrun] at hact
      rw [bind_error hrun, Leaves, if_pos hn]
      exact hact
  · rw [if_neg hn]
    have hact := h s
    cases hrun : act s with
    | ok u t => rwa [hrun] at hact
    | error e t =>
      rw [hrun] at hact
      rwa [Leaves, if_neg hn, append_nil]

theorem Balanced.of_leaves (h : ∀ s, Leaves n s (act s)) : Balanced act := by
  intro s
  have hs := h s
  cases hrun : act s with
  | ok u t => rwa [hrun] at hs
  | error e t =>
    rw [hrun] at hs
    exact (prefix_append _ _).trans hs

/-- A pass whose step opens the scope of a node and does something balanced in it. -/
def Nests (step : (Node → Analysis Unit) → Node → Analysis Unit) : Prop :=
  ∀ self, (∀ c, Balanced (self c)) → ∀ n, ∃ act, Balanced act ∧ step self n = within n act

theorem Nests.balanced_tie (h : Nests step) (k : Nat) (n : Node) :
    Balanced (tie step (fun _ => Session.fail .tooDeep) k n) := by
  induction k generalizing n with
  | zero => exact .fail _
  | succ k ih =>
    obtain ⟨act, hact, hstep⟩ := h (tie step (fun _ => Session.fail .tooDeep) k) ih n
    refine .of_leaves (n := n) fun s => ?_
    rw [tie, hstep]
    exact within_leaves hact n s

theorem Nests.run_leaves (h : Nests step) (n : Node) (s : Session) : Leaves (s.nodes.getD n.id n) s (Pass.run step n s) := by
  obtain ⟨k, hk⟩ := exists_nestingLimit
  change Leaves _ s ((current n >>= tie step (fun _ => Session.fail .tooDeep) nestingLimit) s)
  obtain ⟨act, hact, hstep⟩ :=
    h (tie step (fun _ => Session.fail .tooDeep) k) (h.balanced_tie k) (s.nodes.getD n.id n)
  rw [bind_ok (show current n s = .ok (s.nodes.getD n.id n) s from rfl), hk, tie, hstep]
  exact within_leaves hact _ s

theorem nests_assignStep : Nests assignStep := by
  intro self hself n
  have h := Balanced.declared
  exact ⟨_, h.bind h.get fun _ => h.bind (fun _ => rfl) fun _ => h.each hself n.children, rfl⟩

theorem Leaves.restored_iff {s : Session} {r : EStateM.Result Fault Session Unit} (h : Leaves n s r)
    (hn : n.opensScope = true) : (after r).openScopes = s.openScopes ↔ returned r = true := by
  cases r with
  | ok u t => exact iff_of_true h rfl
  | error e t =>
    rw [Leaves, if_pos hn] at h
    refine iff_of_false (fun hsame => ?_) Bool.false_ne_true
    -- The stack that is left is longer by at least the scope of the root.
    have hlength := h.length_le
    rw [show t.openScopes = s.openScopes from hsame, length_append] at hlength
    exact absurd hlength (by simp)

/-- Whatever the tree, its session and the programs around it: a pass over scopes or variables that returns has restored
the open scopes, and one that fails has left those of the tree open. So for a tree whose root opens a scope, as that of
every program does, the stack is restored if and only if the pass returns. -/
theorem scopes_restored_iff_returned (others : List (String × Node)) (n : Node) (s : Session) :
    (Leaves (s.nodes.getD n.id n) s (assign n s) ∧ Leaves (s.nodes.getD n.id n) s (declare others n s)) ∧
      ((s.nodes.getD n.id n).opensScope = true →
        ((after (assign n s)).openScopes = s.openScopes ↔ returned (assign n s) = true) ∧
        ((after (declare others n s)).openScopes = s.openScopes ↔ returned (declare others n s) = true)) := by
  have hassign := nests_assignStep.run_leaves n s
  have hdeclare := Nests.run_leaves (fun _ hself n => Balanced.declared.declareStep others hself n) n s
  exact ⟨⟨hassign, hdeclare⟩, fun hn => ⟨hassign.restored_iff hn, hdeclare.restored_iff hn⟩⟩

/-- A program that takes a name from a program to which no scopes have been assigned yet, after the passes over both. -/
def importTooEarly : EStateM.Result Fault Session Unit :=
  (do
    let early ← readProgram "from z import q\n"
    let late ← readProgram "q = 1\n"
    assign early
    declare [("z", late)] early : Analysis Unit) {}

/-- Its variables cannot be declared, and its scope stays open for every program that follows. -/
theorem declare_leaves_scope_open :
    returned importTooEarly = false ∧ (after importTooEarly).openScopes ≠ ({} : Session).openScopes := by
  decide +kernel

end Scope
end Polyglot
