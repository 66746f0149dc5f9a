import Polyglot.Proofs.Outline

/-!
# Going through the parts of a node

To go through a node is to go through the list of its parts from left to right: what is known about the run over the list
carries over. A shape is determined by its frame, which is the shape without its parts, and by the list of its parts.
-/
namespace Polyglot

open Session Effect List

namespace Effect

variable {ε σ α β : Type} (x : EStateM ε σ α) (s : σ)

theorem bind_apply (f : α → EStateM ε σ β) :
    (x >>= f) s = match x s with | .ok a t => f a t | .error e t => .error e t := rfl

theorem map_apply (f : α → β) : (f <$> x) s = match x s with | .ok a t => .ok (f a) t | .error e t => .error e t := rfl

end Effect

namespace Shape

variable {ε σ α β γ : Type} {shape : Shape α}

theorem map_map (g : β → γ) (f : α → β) (shape : Shape α) : (shape.map f).map g = shape.map fun a => g (f a) := by
  cases shape <;> simp [map, traverse, traverse.function, traverse.loop, traverse.trial, traverse.sparse, mapM_id,
    Function.comp_def]

/-! ### Frames -/

def frame (shape : Shape α) : Shape Unit := shape.map fun _ => ()

theorem frame_map (f : α → β) (shape : Shape α) : (shape.map f).frame = shape.frame := map_map _ f shape

def pop (_ : γ) : EStateM Unit (List α) α
  | [] => .error () []
  | a :: as => .ok a as

section Refill

variable (f : α → γ)

theorem pop_many (as rest : List α) : (as.map f).mapM pop (as ++ rest) = .ok as rest := by
  induction as with
  | nil => rfl
  | cons a as ih =>
    rw [map_cons, mapM_cons]
    exact (bind_ok rfl).trans ((bind_ok ih).trans rfl)

theorem pop_optional (o : Option α) (rest : List α) : (o.map f).mapM pop (o.toList ++ rest) = .ok o rest := by
  cases o <;> rfl

theorem pop_sparse (os : List (Option α)) (rest : List α) :
    traverse.sparse pop (os.map (Option.map f)) ((os.filterMap fun o => o) ++ rest) = .ok os rest := by
  unfold traverse.sparse
  induction os with
  | nil => rfl
  | cons o os ih =>
    rw [map_cons, mapM_cons]
    cases o <;> exact (bind_ok rfl).trans ((bind_ok ih).trans rfl)

/-- A shape comes back if its parts are put into its frame from left to right. -/
theorem refill (shape : Shape α) : (shape.map f).traverse pop (fun us => us.mapM pop) shape.children = .ok shape [] := by
  have hpure {δ : Type} {a : δ} {s : List α} : (pure a : EStateM Unit (List α) δ) s = .ok a s := rfl
  have hmany (as : List α) : (as.map f).mapM pop as = .ok as [] := by simpa using pop_many f as []
  have hoptional (o : Option α) : (o.map f).mapM pop o.toList = .ok o [] := by simpa using pop_optional f o []
  have hsparse (os : List (Option α)) :
      (traverse.sparse (fun a => (pure (f a) : Id γ)) os).run = os.map (Option.map f) := by
    simp [traverse.sparse, mapM_id]
  cases shape <;> simp [-List.mapM_map, map, traverse, traverse.function, traverse.loop, traverse.trial, mapM_id, children,
    bind_apply, map_apply, hpure, pop, pop_many, pop_optional, pop_sparse, hmany, hoptional, hsparse]

end Refill

theorem ext_children {a b : Shape α} (hframe : a.frame = b.frame) (hchildren : a.children = b.children) : a = b := by
  have ha := refill (fun _ => ()) a
  have hb := refill (fun _ => ()) b
  rw [show a.map (fun _ => ()) = b.map (fun _ => ()) from hframe, hchildren] at ha
  exact (EStateM.Result.ok.inj (ha.symm.trans hb)).1

/-! ### Runs over the parts -/

theorem toList_mapM (f : α → EStateM ε σ β) (o : Option α) : Option.toList <$> o.mapM f = o.toList.mapM f := by
  cases o <;> simp

theorem filterMap_mapM (f : α → EStateM ε σ β) (os : List (Option α)) :
    (fun bs => List.filterMap (fun b => b) bs) <$> traverse.sparse f os = (os.filterMap fun o => o).mapM f := by
  unfold traverse.sparse
  induction os with
  | nil => simp
  | cons o os ih => cases o <;> simp [← ih]

theorem map_children_traverse (f : α → EStateM ε σ β) (shape : Shape α) :
    children <$> shape.traverse f (fun as => as.mapM f) = shape.children.mapM f := by
  cases shape <;> simp [traverse, traverse.function, traverse.loop, traverse.trial, children, ← toList_mapM,
    ← filterMap_mapM]

/-- A run over the list of the parts is a run over the node, with the parts of the list in the same frame. -/
theorem traverse_of_mapM {f : α → EStateM ε σ β} {s t : σ} {bs : List β} (h : shape.children.mapM f s = .ok bs t) :
    ∃ shape', shape.traverse f (fun as => as.mapM f) s = .ok shape' t ∧ shape'.children = bs ∧
      shape'.frame = shape.frame := by
  have hone (a : α) : Ensures (fun _ => True) (fun _ => () = ()) (f a) := fun _ _ _ _ _ => ⟨trivial, rfl⟩
  rw [← map_children_traverse, map_eq_pure_bind] at h
  obtain ⟨shape', u, hrun, ⟨⟩⟩ := bind_eq_ok.1 h
  exact ⟨shape', hrun, rfl, (ensures_traverse hone (.mapM_map hone) shape s shape' t trivial hrun).2⟩

/-- Whatever returns a list of parts as going through them one by one does, will do for the lists of parts. -/
theorem traverse_many {f : α → EStateM ε σ β} {many : List α → EStateM ε σ (List β)}
    (hmany : ∀ as s bs t, as.mapM f s = .ok bs t → many as s = .ok bs t) {shape' : Shape β} {s t : σ}
    (h : shape.traverse f (fun as => as.mapM f) s = .ok shape' t) : shape.traverse f many s = .ok shape' t := by
  have hbind {δ δ' : Type} {x y : EStateM ε σ δ} {g g' : δ → EStateM ε σ δ'} (hx : ∀ s a t, x s = .ok a t → y s = .ok a t)
      (hg : ∀ a s b t, g a s = .ok b t → g' a s = .ok b t) :
      ∀ s b t, (x >>= g) s = .ok b t → (y >>= g') s = .ok b t := by
    intro s b t h
    obtain ⟨a, u, hxs, hgs⟩ := bind_eq_ok.1 h
    exact (bind_ok (hx s a u hxs)).trans (hg a u b t hgs)
  have hrefl {δ : Type} {x : EStateM ε σ δ} : ∀ s a t, x s = .ok a t → x s = .ok a t := fun _ _ _ h => h
  suffices hall : ∀ s r t, shape.traverse f (fun as => as.mapM f) s = .ok r t → shape.traverse f many s = .ok r t from
    hall s shape' t h
  cases shape
  all_goals
    simp only [traverse, traverse.function, traverse.loop, traverse.trial, bind_assoc, pure_bind]
    repeat' first
      | exact hrefl
      | refine hbind (hmany _) fun _ => ?_
      | refine hbind hrefl fun _ => ?_

end Shape

namespace Node

variable {m n : Node}

theorem childIds_outline (n : Node) : n.outline.children.map (·.id) = n.children.map (·.id) := by
  rw [children, outline, withShape, Shape.children_map, List.map_map]
  rfl

theorem withShape_of_outline (h : m.outline = n.outline) : m.withShape n.shape = n := by
  cases n
  injection h with hid hline hcol
  subst hid hline hcol
  rfl

end Node

/-! ### Refreshed trees -/

namespace Session

variable {s : Session} {n m t : Node} {k j : Nat} {P : Session → Prop}

theorem Holds.shallow (h : Holds k s t) : t.Shallow k := by
  induction k generalizing t with
  | zero => exact h
  | succ k ih => exact fun c hc => ih (h.2 c hc)

theorem Holds.keyAt (h : Holds k s t) (hm : m.Within t) : s.keyAt m.id = some m.key := by
  induction hm generalizing k with
  | self =>
    cases k with
    | zero => exact h.elim
    | succ k => exact h.1
  | part hc _ ih =>
    cases k with
    | zero => exact h.elim
    | succ k => exact ih (h.2 _ hc)

theorem Holds.outline (h : Holds k s t) (hm : m.Within t) : ∃ c, s.nodes[m.id]? = some c ∧ c.outline = m.outline :=
  (Option.map_eq_some_iff.1 (h.keyAt hm)).imp fun _ hc => ⟨hc.1, Node.outline_of_key hc.2⟩

/-- Where a session has the outlines of a tree, to refresh it gives the tree. -/
theorem refreshFrom_yields (hdepth : t.Shallow k) (hk : k ≤ j) (hid : n.id = t.id)
    (hhas : ∀ s, P s → ∀ m : Node, m.Within t → ∃ c, s.nodes[m.id]? = some c ∧ c.outline = m.outline)
    (hrecord : ∀ s (m : Node), m.Within t → P s → P { s with nodes := s.nodes.insert m.id m }) :
    Yields P (refreshFrom j n) t := by
  induction k generalizing n t j with
  | zero => exact hdepth.elim
  | succ k ih =>
    obtain ⟨i, rfl⟩ := exists_succ_of_lt hk
    intro s hs
    obtain ⟨m, hm, houtline⟩ := hhas s hs t .self
    have hparts : Forall₂ (fun c d => Yields P (refreshFrom i d) c) t.children m.children :=
      forall₂_of_mem (Node.forall₂_of_map_id (Node.childIds_of_outline houtline).symm) fun c d hc hid =>
        ih (hdepth c hc) (Nat.le_of_succ_le_succ hk) hid.symm (fun s hs m hm => hhas s hs m (.part hc hm))
          fun s m hm => hrecord s m (.part hc hm)
    obtain ⟨u, hrun, hu⟩ := Yields.mapM hparts.flip s hs
    obtain ⟨shape, htraverse, hchildren, hframe⟩ := Shape.traverse_of_mapM hrun
    obtain rfl : shape = t.shape := by
      refine Shape.ext_children (hframe.trans ?_) hchildren
      rw [← Shape.frame_map Node.stub, ← Shape.frame_map Node.stub t.shape]
      exact congrArg (fun n => n.shape.frame) houtline
    refine ⟨_, (bind_ok (current_of_getElem? (hid ▸ hm))).trans ((bind_ok htraverse).trans ?_), hrecord u t .self hu⟩
    rw [Node.withShape_of_outline houtline]
    rfl

end Session

theorem Lowering.many_of_one {self : Rewrite} (cs : List Node) (s : Session) (bs : List Node)
    (s' : Session) (h : cs.mapM (one self) s = .ok bs s') : many self cs s = .ok bs s' := by
  have heach : (cs.mapM fun c => (do self (← current c) : Analysis (List Node))) s = .ok (bs.map ([·])) s' := by
    induction cs generalizing s bs with
    | nil =>
      cases h
      rfl
    | cons c cs ih =>
      rw [mapM_cons] at h ⊢
      obtain ⟨b, u, hone, h⟩ := bind_eq_ok.1 h
      obtain ⟨bs', v, hrest, ⟨⟩⟩ := bind_eq_ok.1 h
      obtain ⟨c', u', hcurrent, hone⟩ := bind_eq_ok.1 hone
      obtain ⟨ns, v', hself, hmatch⟩ := bind_eq_ok.1 hone
      match ns, hmatch with
      | [n], hmatch =>
        cases hmatch
        exact (bind_ok ((bind_ok hcurrent).trans hself)).trans ((bind_ok (ih u bs' hrest)).trans rfl)
  refine (bind_ok heach).trans ?_
  rw [← flatMap_def, flatMap_singleton']
  rfl

end Polyglot
