import Polyglot.Proofs.Frame
import Polyglot.Proofs.Outline

/-!
# Passes that take notes

All passes but the one over types leave the nodes as they are and note something about them. Each pass writes a few kinds
of facts only; what is said here of a pass is said for every view of the facts that does not show what the pass writes.
-/
namespace Polyglot

open Session Effect Scope

variable {self : Node → Analysis Unit}

namespace Session

variable {γ : Type} {π : Facts → γ} {s s' s'' : Session}

/-- A step that leaves the nodes as they are, and of what is known what a view shows. -/
structure Noted (π : Facts → γ) (s s' : Session) : Prop where
  nodes_eq : s'.nodes = s.nodes
  next_eq : s'.next = s.next
  openScopes_eq : s'.openScopes = s.openScopes
  view_eq : ∀ id, π (s'.known id) = π (s.known id)

namespace Noted

theorem refl (s : Session) : Noted π s s := ⟨rfl, rfl, rfl, fun _ => rfl⟩

variable (h : Noted π s s')
include h

theorem symm : Noted π s' s :=
  ⟨h.nodes_eq.symm, h.next_eq.symm, h.openScopes_eq.symm, fun id => (h.view_eq id).symm⟩

theorem trans (h' : Noted π s' s'') : Noted π s s'' :=
  ⟨h'.nodes_eq.trans h.nodes_eq, h'.next_eq.trans h.next_eq, h'.openScopes_eq.trans h.openScopes_eq,
    fun id => (h'.view_eq id).trans (h.view_eq id)⟩

theorem mono {δ : Type} {ρ : Facts → δ} (hρ : ∀ f f', π f = π f' → ρ f = ρ f') : Noted ρ s s' :=
  ⟨h.nodes_eq, h.next_eq, h.openScopes_eq, fun id => hρ _ _ (h.view_eq id)⟩

theorem now_eq (n : Node) : s'.now n = s.now n := by rw [now, now, h.nodes_eq]

theorem content_eq (id : NodeId) : s'.content id = s.content id := by rw [content, content, h.nodes_eq]

end Noted

instance : Std.Refl (Noted π) := ⟨.refl⟩

instance : IsTrans Session (Noted π) := ⟨fun _ _ _ => .trans⟩

/-- A computation that takes notes which a view does not show. -/
abbrev Notes {α : Type} (π : Facts → γ) (x : Analysis α) : Prop := Along (Noted π) x

variable {n : Node}

theorem notes_current (n : Node) : Notes π (current n) := .of_same fun _ _ _ h => by cases h; rfl

theorem noted_of_note {id : NodeId} {g : Facts → Facts} {s s' : Session} (h : π (g (s.known id)) = π (s.known id))
    (hrun : note id g s = .ok () s') : Noted π s s' := by
  rw [note_ok] at hrun
  cases hrun
  refine ⟨rfl, rfl, rfl, fun i => ?_⟩
  rw [known_note]
  split
  · rename_i hid
    rw [h, hid]
  · rfl

theorem notes_note {id : NodeId} {g : Facts → Facts} (h : ∀ f, π (g f) = π f) : Notes π (note id g) :=
  fun _ _ _ => noted_of_note (h _)

/-! ### Ways through a tree -/

theorem each_cons_eq_ok {c : Node} {cs : List Node} {s s' : Session} :
    Pass.each self (c :: cs) s = .ok () s' ↔ ∃ t, self (s.now c) s = .ok () t ∧ Pass.each self cs t = .ok () s' := by
  constructor
  · intro h
    obtain ⟨_, t, hself, hrest⟩ := bind_eq_ok.1 h
    exact ⟨t, hself, hrest⟩
  · rintro ⟨t, hself, hrest⟩
    exact (bind_ok hself).trans hrest

theorem notes_below (hself : ∀ c, Notes π (self c)) (n : Node) : Notes π (Pass.below self n) :=
  .forM fun c _ => (notes_current c).bind hself

theorem notes_run {step : (Node → Analysis Unit) → Node → Analysis Unit}
    (hstep : ∀ self, (∀ c, Notes π (self c)) → ∀ c, Notes π (step self c)) (n : Node) : Notes π (Pass.run step n) :=
  (notes_current n).bind fun c => of_tie hstep (fun _ => .throw) nestingLimit c

theorem notes_within {act : Analysis Unit} (h : Notes π act) (n : Node) : Notes π (within n act) := by
  unfold within
  split
  · intro s _ s' hrun
    obtain ⟨_, t, hopen, hrun⟩ := bind_eq_ok.1 hrun
    obtain ⟨_, t', hact, hclose⟩ := bind_eq_ok.1 hrun
    cases hopen
    cases hclose
    have hnoted := h _ _ t' hact
    refine ⟨hnoted.nodes_eq, hnoted.next_eq, ?_, hnoted.view_eq⟩
    change t'.openScopes.dropLast = s.openScopes
    rw [hnoted.openScopes_eq]
    exact List.dropLast_concat
  · exact h

/-! ### Scopes -/

/-- A property that computations have which only read, fail or note what is declared: variables, what they come from and
imports. It goes on from step to step. -/
structure Declared (P : {α : Type} → Analysis α → Prop) : Prop extends Sequential P where
  read : ∀ {α : Type} {x : Analysis α}, (∀ s, ∃ a, x s = .ok a s) → P x
  fail : ∀ {α : Type} (c : Cause), P (fail c : Analysis α)
  note : ∀ (id : NodeId) (g : Facts → Facts), (∀ f, ∃ vars bodyVars elseVars assignedFrom importedFrom,
    g f = { f with vars, bodyVars, elseVars, assignedFrom, importedFrom }) → P (note id g)

namespace Declared

variable {P : {α : Type} → Analysis α → Prop} (h : Declared P)
include h

theorem current (n : Node) : P (current n) := h.read fun _ => ⟨_, rfl⟩

theorem factsOf (id : NodeId) : P (factsOf id) := h.read fun _ => ⟨_, rfl⟩

theorem get : P (get : Analysis Session) := h.read fun s => ⟨s, rfl⟩

theorem each (hself : ∀ c, P (self c)) (cs : List Node) : P (Pass.each self cs) :=
  h.forM fun c _ => h.bind (h.current c) hself

theorem chainOf (n : Node) : P (chainOf n) := by
  refine h.bind (h.factsOf n.id) fun f => ?_
  split
  · exact h.pure _
  · exact h.fail _

theorem addVar (scope : NodeId) (var : Option NodeId) : P (addVar scope var) := by
  refine h.bind (h.factsOf scope) fun f => ?_
  split
  · exact h.fail _
  · exact h.note _ _ fun _ => ⟨_, _, _, _, _, rfl⟩

theorem openScope (up : Nat) : P (openScope up) := by
  refine h.bind h.get fun s => ?_
  split
  · exact h.pure _
  · exact h.fail _

theorem clearVars (n : Node) : P (clearVars n) := h.note _ _ fun _ => ⟨_, _, _, _, _, rfl⟩

theorem assigned (target source : Node) : P (assigned target source) :=
  h.note _ _ fun _ => ⟨_, _, _, _, _, rfl⟩

theorem declareTarget (n target : Node) : P (declareTarget n target) := by
  unfold Scope.declareTarget
  split
  · exact h.bind (h.assigned target n) fun _ => h.bind (h.openScope 0) fun scope => h.addVar scope _
  · exact h.pure ()

/-- What is declared at a node is declared inside of it. -/
theorem declareStep (others : List (String × Node)) (hself : ∀ c, P (self c)) (n : Node) :
    ∃ act, P act ∧ declareStep others self n = within n act := by
  refine ⟨_, ?_, rfl⟩
  have hbelow : P (Pass.below self n) := h.each hself n.children
  have hdefined (rest : Analysis Unit) (hrest : P rest) : P (do
      Scope.clearVars n
      Scope.addVar (← Scope.openScope 1) (some n.id)
      rest) :=
    h.bind (h.clearVars n) fun _ => h.bind (h.openScope 1) fun scope => h.bind (h.addVar scope _) fun _ => hrest
  have htarget (target : Node) : P (do
      Scope.declareTarget n (← Session.current target)
      Pass.below self n) := h.bind (h.current target) fun c => h.bind (h.declareTarget n c) fun _ => hbelow
  split
  · refine hdefined _ (h.bind (h.forIn fun a _ _ => ?_) fun _ => hbelow)
    exact h.bind (h.assigned a n) fun _ => h.bind (h.addVar _ _) fun _ => h.pure _
  · exact hdefined _ hbelow
  · exact h.forM fun a _ => h.note _ _ fun _ => ⟨_, _, _, _, _, rfl⟩
  · split
    · exact h.pure ()
    · refine h.bind (h.mapM fun a _ => ?_) fun found => h.bind (h.chainOf n) fun chain => ?_
      · exact h.bind (h.chainOf _) fun _ => h.read fun s => ⟨_, find_ok⟩
      split
      · exact h.fail _
      · rename_i scope _
        have hvars : P (found.forM fun d => Scope.addVar scope (d.map (·.id))) := h.forM fun d _ => h.addVar scope _
        refine h.bind (h.factsOf _) fun f => ?_
        split
        · exact h.bind (h.fail _) fun _ => hvars
        · exact hvars
  · refine h.bind (h.clearVars n) fun _ => h.bind (h.current _) fun c => h.bind (hself c) fun _ => ?_
    refine h.bind (h.each hself _) fun _ => h.bind (h.note _ _ fun _ => ⟨_, _, _, _, _, rfl⟩) fun _ => ?_
    exact h.bind (h.each hself _) fun _ => h.note _ _ fun _ => ⟨_, _, _, _, _, rfl⟩
  · refine h.bind (h.assigned _ n) fun _ => h.bind (h.current _) fun c => ?_
    exact h.bind (h.note _ _ fun _ => ⟨_, _, _, _, _, rfl⟩) fun _ => hbelow
  · exact h.bind (h.clearVars n) fun _ => hbelow
  · exact h.bind (h.clearVars n) fun _ => hbelow
  · exact h.bind (h.forM fun t _ => h.bind (h.current t) fun c => h.declareTarget n c) fun _ => hbelow
  · exact htarget _
  · exact htarget _
  · exact hbelow

end Declared

theorem notes_declare (hπ : ∀ (f : Facts) vars bodyVars elseVars assignedFrom importedFrom,
      π { f with vars, bodyVars, elseVars, assignedFrom, importedFrom } = π f) (others : List (String × Node)) (n : Node) :
    Notes π (declare others n) := by
  have hdeclared : Declared (Notes π) := by
    refine ⟨Along.sequential, fun hread => .of_same fun s a t h => ?_, fun _ => .throw, fun id g hg => notes_note fun f => ?_⟩
    · obtain ⟨b, hb⟩ := hread s
      cases hb.symm.trans h
      rfl
    · obtain ⟨_, _, _, _, _, hf⟩ := hg f
      rw [hf, hπ]
  refine notes_run (fun self hself n => ?_) n
  obtain ⟨act, hact, hstep⟩ := hdeclared.declareStep others hself n
  rw [hstep]
  exact notes_within hact n

theorem notes_assignStep (hπ : ∀ (f : Facts) scopes, π { f with scopes } = π f) (hself : ∀ c, Notes π (self c)) (n : Node) :
    Notes π (assignStep self n) := by
  refine notes_within ?_ n
  refine .bind (.of_same fun _ _ _ h => by cases h; rfl) fun s => ?_
  exact .bind (notes_note fun f => hπ f _) fun _ => notes_below hself n

theorem notes_assign (hπ : ∀ (f : Facts) scopes, π { f with scopes } = π f) (n : Node) : Notes π (assign n) :=
  notes_run (fun _ hself => notes_assignStep hπ hself) n

/-! ### Marks -/

theorem notes_visit {δ : Type} {self : δ × Node → Analysis Unit} (hself : ∀ p, Notes π (self p)) (x : δ) (c : Node) :
    Notes π (do self (x, ← current c)) :=
  (notes_current c).bind fun _ => hself _

theorem notes_targets (hπ : ∀ (f : Facts) isTarget, π { f with isTarget } = π f) (n : Node) : Notes π (Marks.targets n) := by
  refine (notes_current n).bind fun c => of_tie (fun self hself p => ?_) (fun _ => .throw) _ _
  have hvisit := notes_visit hself
  -- whether or not the node is marked, the way goes on below
  refine of_ite (.bind (notes_note fun f => hπ f _) fun _ => ?_) ?_
  all_goals
    split
    · exact .bind (.forM fun c _ => hvisit _ c) fun _ => hvisit _ _
    · exact (hvisit _ _).bind fun _ => (hvisit _ _).bind fun _ => .optionForM fun c _ => hvisit _ c
    · exact (hvisit _ _).bind fun _ => hvisit _ _
    · exact .forM fun c _ => hvisit _ c

theorem notes_levels (hπ : ∀ (f : Facts) level, π { f with level } = π f) (n : Node) : Notes π (Marks.levels n) := by
  refine (notes_current n).bind fun c => of_tie (fun self hself p => ?_) (fun _ => .throw) _ _
  obtain ⟨level, n⟩ := p
  have hbelow (level : Nat) : Notes π (n.children.forM fun c => do self (level, ← current c)) :=
    .forM fun c _ => notes_visit hself level c
  have hnote : Notes π (note n.id ({ · with level := some level })) := notes_note fun f => hπ f _
  unfold Marks.levelsStep
  dsimp only
  split
  case h_7 => exact hbelow _
  all_goals exact hnote.bind fun _ => hbelow _

theorem notes_hints (hπ : ∀ (f : Facts) inHint, π { f with inHint } = π f) (n : Node) : Notes π (Marks.hints n) := by
  refine (notes_current n).bind fun c => of_tie (fun self hself p => ?_) (fun _ => .throw) _ _
  obtain ⟨inside, n⟩ := p
  have hvisit := notes_visit hself
  have hbelow (inside : Bool) : Notes π (n.children.forM fun c => do self (inside, ← current c)) :=
    .forM fun c _ => hvisit inside c
  have hmark : Notes π (do
      if inside then note n.id ({ · with inHint := true })
      n.children.forM fun c => do self (inside, ← current c)) :=
    of_ite (.bind (notes_note fun f => hπ f _) fun _ => hbelow inside) (hbelow inside)
  unfold Marks.hintsStep
  dsimp only
  split
  case h_8 => exact hbelow inside
  · exact .optionForM fun c _ => hvisit true c
  · exact .bind (.optionForM fun c _ => hvisit true c) fun _ => hbelow _
  · exact (hvisit true _).bind fun _ => hbelow false
  all_goals exact hmark

theorem notes_imports (hπ : ∀ (f : Facts) imports importedFrom, π { f with imports, importedFrom } = π f) (n : Node) :
    Notes π (Marks.imports n) := by
  refine notes_run (fun self hself n => ?_) n
  unfold Marks.importsStep
  split
  · refine .forM fun a _ => .bind (notes_note fun f => hπ f _ _) fun _ => ?_
    refine .bind (.of_same fun _ _ _ h => (chainOf_eq_ok.1 h).2.symm) fun chain => ?_
    split
    · exact .throw
    · refine .bind (.of_same fun _ _ _ h => by cases h; rfl) fun f => ?_
      split
      · exact .pure _
      · exact notes_note fun f => hπ f _ _
  · exact .bind (notes_note fun f => hπ f _ _) fun _ => notes_below hself n
  · exact notes_below hself n

end Session
end Polyglot
