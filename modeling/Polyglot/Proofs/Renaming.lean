import Polyglot.Proofs.Binding
import Polyglot.Proofs.ReturnTypes

/-!
# Renaming in a session

A session goes by identities, so a tree that it knows is renamed node by node. A pass that renames `old` to `new` from a
node on changes the contents of exactly the nodes below, and when the tree is brought up to date every name in it has been
changed.
-/
namespace Polyglot

open Session Effect List Option Node

variable {m : Node}

/-! ### One node -/

namespace Shape

variable {α β : Type} (ρ σ : String → String) (f : α → β) (shape : Shape α)

theorem map_relabel : (shape.relabel ρ).map f = (shape.map f).relabel ρ := by
  cases shape <;> rfl

theorem children_relabel : (shape.relabel ρ).children = shape.children := by
  cases shape <;> rfl

theorem relabel_relabel : (shape.relabel ρ).relabel σ = shape.relabel fun x => σ (ρ x) := by
  cases shape <;> rfl

theorem relabel_id : shape.relabel (fun x => x) = shape := by
  cases shape <;> rfl

end Shape

def Node.renamed (ρ : String → String) (n : Node) : Node := n.withShape (n.shape.relabel ρ)

namespace Node

variable (ρ σ : String → String) (n : Node) (k : Nat)

theorem renamed_id : n.renamed (fun x => x) = n := by
  rw [renamed, Shape.relabel_id, withShape_shape]

theorem renamed_renamed : (n.renamed ρ).renamed σ = n.renamed fun x => σ (ρ x) := by
  unfold renamed withShape
  rw [Shape.relabel_relabel]

theorem outline_renamed : (n.renamed ρ).outline = n.outline.renamed ρ := by
  unfold renamed outline withShape
  rw [Shape.map_relabel]

theorem id_relabel : (n.relabel ρ k).id = n.id := by
  cases k <;> rfl

theorem children_relabel : (n.relabel ρ (k + 1)).children = n.children.map (relabel ρ k) :=
  (Shape.children_relabel ρ _).trans (Shape.children_map _ _)

variable {ρ n} in
theorem shallow_relabel {k : Nat} (h : n.Shallow k) : (n.relabel ρ k).Shallow k := by
  induction k generalizing n with
  | zero => exact h
  | succ k ih =>
    intro c hc
    rw [children_relabel] at hc
    obtain ⟨d, hd, rfl⟩ := mem_map.1 hc
    exact ih (h d hd)

theorem outline_relabel : (n.relabel ρ (k + 1)).outline = n.outline.renamed ρ := by
  have hstub : (fun c => stub (relabel ρ k c)) = stub := funext fun c => by rw [stub, id_relabel, stub]
  rw [outline, relabel, withShape, withShape, Shape.map_relabel, Shape.map_map, hstub]
  rfl

variable {ρ n} in
theorem childIds_of_renamed (h : m.outline = n.outline.renamed ρ) : m.children.map (·.id) = n.children.map (·.id) := by
  rw [← childIds_outline, h, ← outline_renamed, childIds_outline]
  exact congrArg _ (Shape.children_relabel ρ n.shape)

theorem outline_withShape {shape : Shape Node} (hframe : shape.frame = m.shape.frame)
    (hids : shape.children.map (·.id) = m.children.map (·.id)) : (m.withShape shape).outline = m.outline := by
  have hshape : shape.map stub = m.shape.map stub := by
    refine Shape.ext_children ?_ ?_
    · rw [Shape.frame_map, Shape.frame_map, hframe]
    · rw [Shape.children_map, Shape.children_map]
      exact map_stub_eq.2 hids
  unfold outline withShape
  rw [hshape]

end Node

/-! ### The contents of a session -/

namespace Session

variable {s s' s'' : Session} {n t : Node} {k j : Nat} {ρ σ : String → String} {I J : List NodeId} {id : NodeId}

/-- What a session has for an identity, with the parts by their identities only. -/
def sketch (s : Session) (id : NodeId) : Option Node := s.nodes[id]?.map outline

theorem sketch_insert (nodes : Std.TreeMap NodeId Node) (m : Node) (id : NodeId) :
    sketch { s with nodes := nodes.insert m.id m } id =
      if m.id = id then some m.outline else sketch { s with nodes } id := by
  unfold sketch
  rw [getElem?_insert]
  split <;> rfl

/-- The step from one session to another by which the names of some nodes are changed. -/
structure Renamed (ρ : String → String) (I : List NodeId) (s s' : Session) : Prop where
  sketch_eq : ∀ id, s'.sketch id = if id ∈ I then (s.sketch id).map (renamed ρ) else s.sketch id
  rest : s' = { s with nodes := s'.nodes }

namespace Renamed

theorem refl (h : ∀ id ∈ I, (s.sketch id).map (renamed ρ) = s.sketch id) : Renamed ρ I s s := by
  refine ⟨fun id => ?_, rfl⟩
  split
  · exact (h id ‹_›).symm
  · rfl

variable (h : Renamed ρ I s s')
include h

theorem append (hρ : ∀ x, ρ (ρ x) = ρ x) (h' : Renamed ρ J s' s'') : Renamed ρ (I ++ J) s s'' := by
  refine ⟨fun id => ?_, h'.rest.trans (by rw [h.rest])⟩
  have htwice (o : Option Node) : (o.map (renamed ρ)).map (renamed ρ) = o.map (renamed ρ) := by
    cases o with
    | none => rfl
    | some m => simp [renamed_renamed, hρ]
  rw [h'.sketch_eq, h.sketch_eq]
  by_cases hI : id ∈ I
  · by_cases hJ : id ∈ J
    · simp [hI, hJ, htwice]
    · simp [hI, hJ]
  · by_cases hJ : id ∈ J <;> simp [hI, hJ]

theorem comp (h' : Renamed σ I s' s'') : Renamed (fun x => σ (ρ x)) I s s'' := by
  refine ⟨fun id => ?_, h'.rest.trans (by rw [h.rest])⟩
  rw [h'.sketch_eq, h.sketch_eq]
  by_cases hI : id ∈ I
  · rw [if_pos hI, if_pos hI, if_pos hI, Option.map_map]
    exact congrArg (Option.map · _) (funext fun m => renamed_renamed ρ σ m)
  · rw [if_neg hI, if_neg hI, if_neg hI]

theorem getElem? (hid : s.sketch id ≠ none) : ∃ m, s'.nodes[id]? = some m := by
  obtain ⟨n, hn⟩ := ne_none_iff_exists'.1 hid
  have hsketch : s'.sketch id ≠ none := by
    rw [h.sketch_eq, hn]
    split <;> simp
  obtain ⟨n', hn'⟩ := ne_none_iff_exists'.1 hsketch
  exact (map_eq_some_iff.1 hn').imp fun _ hm => hm.1

theorem insert (hm : s'.sketch m.id = some m.outline) :
    Renamed ρ I s { s' with nodes := s'.nodes.insert m.id m } := by
  refine ⟨fun id => ?_, by rw [h.rest]⟩
  rw [sketch_insert, ← h.sketch_eq]
  split
  · subst id
    exact hm.symm
  · rfl

end Renamed

/-- The session has a node for every node of a tree, with parts of the same identities. -/
def Drawn : Nat → Session → Node → Prop
  | 0, _, _ => False
  | k + 1, s, t =>
    (∃ m, s.sketch t.id = some m ∧ m.id = t.id ∧ m.children.map (·.id) = t.children.map (·.id)) ∧
      ∀ c ∈ t.children, Drawn k s c

theorem Holds.sketch (h : Holds k s t) (hm : n.Within t) : s.sketch n.id = some n.outline := by
  obtain ⟨c, hc, houtline⟩ := h.outline hm
  unfold Session.sketch
  rw [hc, map_some, houtline]

theorem Holds.drawn (h : Holds k s t) : Drawn k s t := by
  induction k generalizing t with
  | zero => exact h
  | succ k ih =>
    refine ⟨⟨t.outline, h.sketch .self, rfl, ?_⟩, fun c hc => ih (h.2 c hc)⟩
    exact childIds_outline t

theorem Drawn.renamed (h : Drawn k s t) (hs : Renamed ρ I s s') : Drawn k s' t := by
  induction k generalizing t with
  | zero => exact h
  | succ k ih =>
    obtain ⟨⟨m, hm, hid, hids⟩, hparts⟩ := h
    refine ⟨?_, fun c hc => ih (hparts c hc)⟩
    rw [hs.sketch_eq, hm]
    split
    · refine ⟨m.renamed ρ, rfl, hid, ?_⟩
      rw [children, renamed, withShape, Shape.children_relabel]
      exact hids
    · exact ⟨m, rfl, hid, hids⟩

theorem Drawn.content (h : Drawn k s t) :
    ∃ m, s.nodes[t.id]? = some m ∧ m.id = t.id ∧ m.children.map (·.id) = t.children.map (·.id) := by
  cases k with
  | zero => exact h.elim
  | succ k =>
    obtain ⟨⟨_, hsketch, hid, hids⟩, _⟩ := h
    obtain ⟨m, hm, rfl⟩ := map_eq_some_iff.1 hsketch
    exact ⟨m, hm, hid, (childIds_outline m).symm.trans hids⟩

end Session

/-! ### The pass that renames -/

namespace Names

variable {s s' : Session} {n m t : Node} {k j : Nat} {old new : String} {ρ : String → String}

def replacing (old new x : String) : String := if x = old then new else x

theorem replacing_replacing (x : String) : replacing old new (replacing old new x) = replacing old new x := by
  unfold replacing
  grind

theorem renamed_edit (hm : s.nodes[m.id]? = some m) (shape : Shape Node) (hshape : shape = m.shape.relabel ρ) :
    Renamed ρ [m.id] s { s with nodes := s.nodes.insert m.id (m.withShape shape) } := by
  refine ⟨fun id => ?_, rfl⟩
  refine (sketch_insert (s := s) s.nodes (m.withShape shape) id).trans ?_
  change (if m.id = id then _ else s.sketch id) = _
  by_cases hid : m.id = id
  · subst id
    rw [if_pos rfl, if_pos mem_cons_self, sketch, hm, hshape]
    exact congrArg some (outline_renamed ρ m)
  · rw [if_neg hid, if_neg (fun h => hid (mem_singleton.1 h).symm)]

theorem renamed_same (hm : s.nodes[m.id]? = some m) (hshape : m.shape.relabel ρ = m.shape) : Renamed ρ [m.id] s s := by
  refine .refl fun id hid => ?_
  obtain rfl := mem_singleton.1 hid
  have hrenamed : m.renamed ρ = m := by
    rw [renamed, hshape, withShape_shape]
  rw [sketch, hm, map_some, map_some, ← outline_renamed, hrenamed]

theorem renameStep_eq (old new : String) (self : Node → Analysis Unit) (hm : s.nodes[m.id]? = some m) :
    ∃ s', renameStep old new self m s = Pass.below self m s' ∧ Renamed (replacing old new) [m.id] s s' := by
  unfold renameStep
  cases hshape : m.shape with
  | name id u =>
    have hbelow (s' : Session) : Pass.below self m s' = .ok () s' := by
      rw [Pass.below, children, hshape]
      rfl
    by_cases hid : id = old
    · refine ⟨_, ?_, renamed_edit hm (.name new u) ?_⟩
      · rw [hbelow, hid]
        simp only [beq_self_eq_true, if_pos]
        rfl
      · rw [hshape, Shape.relabel, replacing, if_pos hid]
    · refine ⟨s, ?_, renamed_same hm ?_⟩
      · rw [hbelow]
        simp only [beq_eq_false_iff_ne.2 hid]
        rfl
      · rw [hshape, Shape.relabel, replacing, if_neg hid]
  | functionDef f =>
    by_cases hid : f.name = old
    · refine ⟨_, ?_, renamed_edit hm (.functionDef { f with name := new }) ?_⟩
      · simp only [hid, beq_self_eq_true, if_pos]
        rfl
      · rw [hshape, Shape.relabel, replacing, if_pos hid]
    · refine ⟨s, ?_, renamed_same hm ?_⟩
      · simp only [beq_eq_false_iff_ne.2 hid]
        rfl
      · rw [hshape, Shape.relabel, replacing, if_neg hid]
  | _ => exact ⟨s, rfl, renamed_same hm (by rw [hshape]; rfl)⟩

theorem below_ok {self : Node → Analysis Unit} (hρ : ∀ x, ρ (ρ x) = ρ x) {cs0 cs : List Node}
    (hids : cs0.map (·.id) = cs.map (·.id)) (hdrawn : ∀ c ∈ cs, Drawn k s c)
    (hself : ∀ c ∈ cs, ∀ (u : Session) (m : Node), Drawn k u c → u.nodes[c.id]? = some m → ∃ u', self m u = .ok () u' ∧ Renamed ρ (c.ids k) u u') :
    ∃ s', Pass.each self cs0 s = .ok () s' ∧ Renamed ρ (cs.flatMap (ids k)) s s' := by
  replace hids := forall₂_of_map_id hids
  induction hids generalizing s with
  | nil => exact ⟨s, rfl, .refl nofun⟩
  | @cons c0 c cs0 cs hid _ ih =>
    have hc := hdrawn c mem_cons_self
    obtain ⟨m, hm, -⟩ := hc.content
    obtain ⟨u, hrun, hu⟩ := hself c mem_cons_self s m hc hm
    obtain ⟨s', hrest, hs'⟩ := ih (fun d hd => (hdrawn d (mem_cons_of_mem _ hd)).renamed hu)
      fun d hd => hself d (mem_cons_of_mem _ hd)
    have hone : (do self (← current c0)) s = .ok () u := (bind_ok (current_of_getElem? (hid.symm ▸ hm))).trans hrun
    exact ⟨s', (bind_ok hone).trans hrest, hu.append hρ hs'⟩

theorem tie_rename (old new : String) {stop : Node → Analysis Unit} (hk : k ≤ j) (hdrawn : Drawn k s t) (hm : s.nodes[t.id]? = some m) :
    ∃ s', tie (renameStep old new) stop j m s = .ok () s' ∧ Renamed (replacing old new) (t.ids k) s s' := by
  induction k generalizing j s t m with
  | zero => exact hdrawn.elim
  | succ k ih =>
    obtain ⟨i, rfl⟩ := exists_succ_of_lt hk
    obtain ⟨m', hm', hid, hids⟩ := hdrawn.content
    obtain rfl : m' = m := some.inj (hm'.symm.trans hm)
    obtain ⟨u, hstep, hu⟩ := renameStep_eq old new (tie (renameStep old new) stop i) (hid.symm ▸ hm)
    obtain ⟨s', hbelow, hs'⟩ := below_ok replacing_replacing hids (fun c hc => (hdrawn.2 c hc).renamed hu)
      fun c _ u m hdrawn hm => ih (Nat.le_of_succ_le_succ hk) hdrawn hm
    rw [hid] at hu
    exact ⟨s', hstep.trans hbelow, hu.append replacing_replacing hs'⟩

/-- Renaming from a node on changes the names of the nodes below it, and of no others. -/
theorem rename_ok (old new : String) (hk : k ≤ nestingLimit) (hdrawn : Drawn k s t) (hid : n.id = t.id) :
    ∃ s', rename old new n s = .ok () s' ∧ Renamed (replacing old new) (t.ids k) s s' := by
  obtain ⟨m, hm, -⟩ := hdrawn.content
  obtain ⟨s', hrun, hs'⟩ := tie_rename old new hk hdrawn hm
  exact ⟨s', (bind_ok (current_of_getElem? (hid.symm ▸ hm))).trans hrun, hs'⟩

end Names

/-! ### Bringing a renamed tree up to date -/

namespace Session

variable {s s0 s' : Session} {n m t : Node} {k j : Nat} {ρ : String → String} {I : List NodeId}

theorem exists_of_within_relabel (hdepth : t.Shallow k) (hm : m.Within (t.relabel ρ k)) :
    ∃ c : Node, c.Within t ∧ c.id = m.id ∧ m.outline = c.outline.renamed ρ := by
  induction k generalizing t with
  | zero => exact hdepth.elim
  | succ k ih =>
    cases hm with
    | self => exact ⟨t, .self, rfl, outline_relabel ρ t k⟩
    | part hd hm =>
      rw [children_relabel] at hd
      obtain ⟨c, hc, rfl⟩ := mem_map.1 hd
      obtain ⟨d, hd, h⟩ := ih (hdepth c hc) hm
      exact ⟨d, .part hc hd, h⟩

/-- After all nodes of a tree have been renamed, to refresh the tree gives it with all its names changed. -/
theorem refreshFrom_ok (h : Holds k s0 t) (hs : Renamed ρ (t.ids k) s0 s) (hk : k ≤ j) (hid : n.id = t.id) :
    ∃ s', refreshFrom j n s = .ok (t.relabel ρ k) s' := by
  have hsketch {m : Node} (hm : m.Within (t.relabel ρ k)) : s.sketch m.id = some m.outline := by
    obtain ⟨c, hc, hid, houtline⟩ := exists_of_within_relabel h.shallow hm
    rw [← hid, hs.sketch_eq, if_pos (h.mem_ids hc), h.sketch hc, houtline, map_some]
  obtain ⟨s', hrun, -⟩ := refreshFrom_yields (P := fun s' => ∀ id, s'.sketch id = s.sketch id)
    (shallow_relabel h.shallow) hk (hid.trans (id_relabel ρ t k).symm)
    (fun s' hs' m hm => map_eq_some_iff.1 ((hs' m.id).trans (hsketch hm))) (fun s' m hm hs' id => by
      rw [sketch_insert]
      split
      · rw [← ‹m.id = id›, hsketch hm]
      · exact hs' id) s fun _ => rfl
  exact ⟨s', hrun⟩

end Session
end Polyglot
