import Mathlib.Data.List.Nodup
import Polyglot.Proofs.LoopSearch

/-!
# What a pass leaves as it was

A pass over a part of a program changes contents and facts of the nodes in that part, and makes new nodes. `Moved` says
so of one session and the next: what is held outside of the part is held still.
-/
namespace Polyglot

open Effect Session

variable {n : Node} {id : NodeId}

namespace Session

def branchOf (s : Session) (id : NodeId) : Option NodeId := (s.facts.getD id {}).afterLoop

def scopesOf (s : Session) (id : NodeId) : Option (List NodeId) := (s.facts.getD id {}).scopes

/-- A step that changes nothing outside of some identities, and remembers branches for loops in `E` only. -/
structure Moved (I : List NodeId) (E : NodeId → Prop) (s s' : Session) : Prop where
  next_le : s.next ≤ s'.next
  keyAt_eq : ∀ id < s.next, id ∉ I → s'.keyAt id = s.keyAt id
  scopesOf_eq : ∀ id < s.next, s'.scopesOf id = s.scopesOf id
  branchOf_eq : ∀ id < s.next, id ∉ I → s'.branchOf id = s.branchOf id
  branchOf_eq' : ∀ id, ¬ E id → s'.branchOf id = s.branchOf id

namespace Moved

variable {I J : List NodeId} {E : NodeId → Prop} {s s' s'' : Session}

theorem refl (s : Session) : Moved I E s s :=
  ⟨le_rfl, fun _ _ _ => rfl, fun _ _ => rfl, fun _ _ _ => rfl, fun _ _ => rfl⟩

theorem of_quiet (h : Quiet s s') : Moved I E s s' :=
  ⟨Nat.le_of_eq h.next.symm, fun id _ _ => h.alike id, fun id _ => by rw [scopesOf, scopesOf, h.facts],
    fun id _ _ => by rw [branchOf, branchOf, h.facts], fun id _ => by rw [branchOf, branchOf, h.facts]⟩

theorem record (hn : n.id ∈ I) : Moved I E s { s with nodes := s.nodes.insert n.id n } := by
  refine ⟨le_rfl, fun id _ hid => ?_, fun _ _ => rfl, fun _ _ _ => rfl, fun _ _ => rfl⟩
  rw [keyAt_insert, if_neg]
  rintro rfl
  exact hid hn

variable (h : Moved I E s s')
include h

theorem mono (hI : I ⊆ J) : Moved J E s s' :=
  ⟨h.next_le, fun id hlt hid => h.keyAt_eq id hlt fun hmem => hid (hI hmem), h.scopesOf_eq,
    fun id hlt hid => h.branchOf_eq id hlt fun hmem => hid (hI hmem), h.branchOf_eq'⟩

theorem trans (h' : Moved I E s' s'') : Moved I E s s'' where
  next_le := h.next_le.trans h'.next_le
  keyAt_eq id hlt hid := (h'.keyAt_eq id (hlt.trans_le h.next_le) hid).trans (h.keyAt_eq id hlt hid)
  scopesOf_eq id hlt := (h'.scopesOf_eq id (hlt.trans_le h.next_le)).trans (h.scopesOf_eq id hlt)
  branchOf_eq id hlt hid := (h'.branchOf_eq id (hlt.trans_le h.next_le) hid).trans (h.branchOf_eq id hlt hid)
  branchOf_eq' id hE := (h'.branchOf_eq' id hE).trans (h.branchOf_eq' id hE)

theorem add {m : Nat} (hn : s.next ≤ n.id) (hm : s'.next ≤ m) :
    Moved I E s { s' with next := m, nodes := s'.nodes.insert n.id n } := by
  refine ⟨h.next_le.trans hm, fun id hlt hid => ?_, h.scopesOf_eq, h.branchOf_eq, h.branchOf_eq'⟩
  rw [← h.keyAt_eq id hlt hid]
  refine (keyAt_insert (s := s') id).trans (if_neg ?_)
  rintro rfl
  exact Nat.not_lt.2 hn hlt

/-- To note something of a node moves nothing, if its scopes are noted only when it is new, and its branch only when it
may have one. -/
theorem note {f : Facts} (hscopes : s.next ≤ id ∨ f.scopes = (s'.known id).scopes)
    (hbranch : E id ∧ id ∈ I ∨ f.afterLoop = (s'.known id).afterLoop) :
    Moved I E s { s' with facts := s'.facts.insert id f } := by
  have hknown (i : NodeId) : known { s' with facts := s'.facts.insert id f } i = if id = i then f else s'.known i :=
    known_note s' id i f
  have hbranchOf (i : NodeId) (hi : E i ∧ i ∈ I → False) :
      branchOf { s' with facts := s'.facts.insert id f } i = s'.branchOf i := by
    refine (congrArg Facts.afterLoop (hknown i)).trans ?_
    split
    · subst i
      exact hbranch.resolve_left hi
    · rfl
  refine ⟨h.next_le, h.keyAt_eq, fun i hlt => ?_,
    fun i hlt hi => (hbranchOf i fun h => hi h.2).trans (h.branchOf_eq i hlt hi),
    fun i hi => (hbranchOf i fun h => hi h.1).trans (h.branchOf_eq' i hi)⟩
  rw [← h.scopesOf_eq i hlt]
  refine (congrArg Facts.scopes (hknown i)).trans ?_
  split
  · subst i
    exact hscopes.resolve_left (Nat.not_le.2 hlt)
  · rfl

theorem scopes {chain : Option (List NodeId)} (hid : s.next ≤ id) :
    Moved I E s { s' with facts := s'.facts.insert id { s'.facts.getD id {} with scopes := chain } } :=
  h.note (.inl hid) (.inr rfl)

theorem branch {b : NodeId} (hE : E id) (hI : id ∈ I) :
    Moved I E s { s' with facts := s'.facts.insert id { s'.facts.getD id {} with afterLoop := some b } } :=
  h.note (.inr rfl) (.inl ⟨hE, hI⟩)

theorem holds {k : Nat} (hn : Holds k s n) (hlt : ∀ id ∈ n.ids k, id < s.next)
    (hI : ∀ id ∈ n.ids k, id ∉ I) : Holds k s' n :=
  hn.congr fun id hid => h.keyAt_eq id (hlt id hid) (hI id hid)

end Moved

/-- A tree is held that was made of nodes with some identities and of nodes that are new. -/
structure Kept (I : List NodeId) (k : Nat) (s s' : Session) (t : Node) : Prop where
  holds : Holds k s' t
  old_or_new : ∀ id ∈ t.ids k, id ∈ I ∨ s.next ≤ id ∧ id < s'.next

namespace Kept

variable {I J : List NodeId} {E : NodeId → Prop} {s s' s'' : Session} {t : Node} {k j : Nat}

theorem moved (h : Kept I k s s' t) (hmoved : Moved J E s' s'') (hlt : ∀ id ∈ I, id < s'.next)
    (hIJ : ∀ id ∈ I, id ∉ J) (hJ : ∀ id ∈ J, id < s.next) : Kept I k s s'' t := by
  refine ⟨hmoved.holds h.holds (fun id hid => ?_) (fun id hid hmem => ?_), fun id hid => ?_⟩
  · rcases h.old_or_new id hid with hold | hnew
    · exact hlt id hold
    · exact hnew.2
  · rcases h.old_or_new id hid with hold | hnew
    · exact hIJ id hold hmem
    · exact absurd (hJ id hmem) (Nat.not_lt.2 hnew.1)
  · exact (h.old_or_new id hid).imp_right fun hnew => ⟨hnew.1, hnew.2.trans_le hmoved.next_le⟩

theorem weaken (h : Kept I k s s' t) (hI : I ⊆ J) {s0 : Session} (hs : s0.next ≤ s.next) : Kept J k s0 s' t :=
  ⟨h.holds, fun id hid => (h.old_or_new id hid).imp (fun hmem => hI hmem) fun hnew => ⟨hs.trans hnew.1, hnew.2⟩⟩

theorem mono (h : Kept I k s s' t) (hk : k ≤ j) : Kept I j s s' t :=
  ⟨h.holds.mono hk, fun id hid => h.old_or_new id (by rwa [h.holds.ids_eq hk] at hid)⟩

theorem of_holds (h : Holds k s' t) (hk : k ≤ j) (hI : t.ids k ⊆ I) : Kept I j s s' t :=
  ⟨h.mono hk, fun id hid => .inl (hI (by rwa [h.ids_eq hk] at hid))⟩

theorem block {o : Opening} {body orelse : List Node} (ho : o.Admits orelse)
    (hkey : s'.keyAt n.id = some (n.withShape (o.shape body orelse)).key) (hid : n.id ∈ I ∨ s.next ≤ n.id ∧ n.id < s'.next)
    (hparts : ∀ c ∈ o.parts ++ body ++ orelse, Kept I k s s' c) : Kept I (k + 1) s s' (n.withShape (o.shape body orelse)) := by
  have hchildren : (n.withShape (o.shape body orelse)).children = o.parts ++ body ++ orelse :=
    Shape.children_of_opening? (Shape.opening?_shape ho)
  refine ⟨⟨hkey, fun c hc => (hparts c (hchildren ▸ hc)).holds⟩, fun id hmem => ?_⟩
  rcases List.mem_cons.1 hmem with rfl | hmem
  · exact hid
  · obtain ⟨c, hc, hmem⟩ := List.mem_flatMap.1 hmem
    exact (hparts c (hchildren ▸ hc)).old_or_new id hmem

end Kept
end Session

/-- The chain of scopes inside a node. Chains start with the innermost scope here. -/
def Node.inside (n : Node) (chain : List NodeId) : List NodeId := if n.opensScope then n.id :: chain else chain

theorem Node.mem_inside {chain : List NodeId} (h : id ∈ n.inside chain) : id ∈ chain ∨ id = n.id := by
  unfold inside at h
  split at h
  · exact (List.mem_cons.1 h).symm
  · exact .inl h

/-- The session knows the chains of all nodes of a tree. -/
def Session.Chained : Nat → Session → List NodeId → Node → Prop
  | 0, _, _, _ => False
  | k + 1, s, chain, n =>
    s.scopesOf n.id = some (n.inside chain).reverse ∧ ∀ c ∈ n.children, Chained k s (n.inside chain) c

theorem Session.Chained.congr {k : Nat} {s s' : Session} {chain : List NodeId} (h : Chained k s chain n)
    (hs : ∀ id ∈ n.ids k, s'.scopesOf id = s.scopesOf id) : Chained k s' chain n := by
  induction k generalizing n chain with
  | zero => exact h
  | succ k ih =>
    refine ⟨(hs _ List.mem_cons_self).trans h.1, fun c hc => ih (h.2 c hc) fun id hid => ?_⟩
    exact hs id (Node.ids_subset_of_mem hc hid)

/-- A tree that the pass has not reached yet. -/
structure Session.Ready (E : NodeId → Prop) (k : Nat) (s : Session) (chain : List NodeId) (n : Node) : Prop where
  holds : Holds k s n
  chained : Chained k s chain n
  nodup : (n.ids k).Nodup
  lt : ∀ id ∈ n.ids k, id < s.next
  branchOf_eq : ∀ id ∈ n.ids k, s.branchOf id = none
  parted_iff : ∀ m : Node, m.Within n → (E m.id ↔ m.parted = true)

namespace Session.Ready

variable {I : List NodeId} {E : NodeId → Prop} {s s' : Session} {n c : Node} {k : Nat} {chain : List NodeId}

theorem part (h : Ready E (k + 1) s chain n) (hc : c ∈ n.children) : Ready E k s (n.inside chain) c where
  holds := h.holds.2 c hc
  chained := h.chained.2 c hc
  nodup := (List.nodup_flatMap.1 (List.nodup_cons.1 h.nodup).2).1 c hc
  lt id hid := h.lt id (Node.ids_subset_of_mem hc hid)
  branchOf_eq id hid := h.branchOf_eq id (Node.ids_subset_of_mem hc hid)
  parted_iff m hm := h.parted_iff m (.part hc hm)

theorem moved (h : Ready E k s chain n) (hmoved : Moved I E s s') (hI : ∀ id ∈ n.ids k, id ∉ I) :
    Ready E k s' chain n where
  holds := hmoved.holds h.holds h.lt hI
  chained := h.chained.congr fun id hid => hmoved.scopesOf_eq id (h.lt id hid)
  nodup := h.nodup
  lt id hid := (h.lt id hid).trans_le hmoved.next_le
  branchOf_eq id hid := (hmoved.branchOf_eq id (h.lt id hid) (hI id hid)).trans (h.branchOf_eq id hid)
  parted_iff := h.parted_iff

end Session.Ready
end Polyglot
