import Polyglot.Proofs.ReturnTypes

/-!
# What nodes do

A lowering adds nodes to a session and edits others, and the rest stay as they are. A machine says what nodes do:
names, tuples, assignments, branches and sequences do what they should, over states, values and faults of any kind;
what others do is left open.
-/
namespace Polyglot

open Session Effect

namespace Session

variable {s t u : Session} {n m : Node} {shape : Shape NodeId} {id : NodeId} {l : List NodeId}

/-- A session has a node of a kind, with its parts by their identities. -/
def Has (s : Session) (id : NodeId) (shape : Shape NodeId) : Prop :=
  ∃ n, s.nodes[id]? = some n ∧ id < s.next ∧ n.shape.map Node.id = shape

theorem Has.now (h : s.Has n.id shape) : (s.now n).shape.map Node.id = shape := by
  obtain ⟨m, hm, -, rfl⟩ := h
  rw [now_of_getElem? hm]

theorem Has.lt_next (h : s.Has id shape) : id < s.next := by
  obtain ⟨-, -, hlt, -⟩ := h
  exact hlt

theorem Has.unique {shape' : Shape NodeId} (h : s.Has id shape) (h' : s.Has id shape') : shape = shape' := by
  obtain ⟨m, hm, -, rfl⟩ := h
  obtain ⟨m', hm', -, rfl⟩ := h'
  rw [hm] at hm'
  cases hm'
  rfl

theorem Has.insert (h : s.Has id shape) (hid : n.id ≠ id) (ht : t.nodes = s.nodes.insert n.id n) (hnext : s.next ≤ t.next) :
    t.Has id shape := by
  obtain ⟨m, hm, hlt, hshape⟩ := h
  exact ⟨m, by rw [ht, getElem?_insert_of_ne hid, hm], hlt.trans_le hnext, hshape⟩

theorem has_self (ht : t.nodes = s.nodes.insert n.id n) (hn : n.id < t.next) : t.Has n.id (n.shape.map Node.id) :=
  ⟨n, by simp [ht], hn, rfl⟩

structure Grows (l : List NodeId) (s t : Session) : Prop where
  next_le : s.next ≤ t.next
  keyed : s.Keyed → t.Keyed
  has : ∀ id shape, id ∉ l → s.Has id shape → t.Has id shape

theorem Grows.refl (s : Session) : Grows l s s := ⟨le_rfl, fun h => h, fun _ _ _ h => h⟩

theorem Grows.trans (h : Grows l s t) (h' : Grows l t u) : Grows l s u where
  next_le := h.next_le.trans h'.next_le
  keyed hs := h'.keyed (h.keyed hs)
  has i shape hl hi := h'.has i shape hl (h.has i shape hl hi)

theorem Grows.mono (h : Grows [] s t) : Grows l s t := ⟨h.next_le, h.keyed, fun i shape _ => h.has i shape List.not_mem_nil⟩

theorem Has.kept (h : s.Has id shape) (hs : Grows [] s t) : t.Has id shape := hs.has id shape List.not_mem_nil h

theorem Grows.of_new (h : Grows [] s t) (h' : Grows l t u) (hl : ∀ i ∈ l, s.next ≤ i) : Grows [] s u where
  next_le := h.next_le.trans h'.next_le
  keyed hs := h'.keyed (h.keyed hs)
  has i _ _ hi := h'.has i _ (fun hmem => Nat.not_lt.2 (hl i hmem) hi.lt_next) (hi.kept h)

theorem Steady.grows (h : Steady s t) : Grows [] s t := by
  refine ⟨h.next_le, h.keyed, fun id shape _ ⟨m, hm, hlt, hshape⟩ => ?_⟩
  obtain ⟨m', hm', houtline⟩ := h.outline_eq id m hlt hm
  refine ⟨m', hm', hlt.trans_le h.next_le, ?_⟩
  have hids := congrArg (Shape.map Node.id) (Node.shape_of_outline houtline)
  rw [Shape.map_map, Shape.map_map] at hids
  exact hids.trans hshape

/-- A computation that adds a node and returns it. -/
def Adds (x : Analysis Node) (shape : Shape NodeId) : Prop :=
  ∀ s n t, x s = .ok n t → Grows [] s t ∧ s.next ≤ n.id ∧ t.Has n.id shape

theorem adds_fresh (shape : Shape Node) : Adds (fresh shape) (shape.map Node.id) := by
  intro s n t h
  cases h
  let n : Node := ⟨s.next, none, none, shape⟩
  refine ⟨⟨Nat.le_succ _, fun h => h.insert (m := n) _, fun id shape _ h => ?_⟩, le_rfl, has_self rfl (Nat.lt_succ_self _)⟩
  exact h.insert (n := n) (Nat.ne_of_gt h.lt_next) rfl (Nat.le_succ _)

theorem adds_freshAt (line col : Option Nat) (shape : Shape Node) : Adds (freshAt line col shape) (shape.map Node.id) := by
  intro s n u h
  obtain ⟨m, t, hfresh, h⟩ := bind_eq_ok.1 h
  obtain ⟨hgrows, -⟩ := adds_fresh shape s m t hfresh
  cases hfresh
  cases h
  let n : Node := ⟨s.next, line, col, shape⟩
  refine ⟨⟨hgrows.next_le, fun h => (hgrows.keyed h).insert (m := n) _, fun id shape _ h => ?_⟩, le_rfl,
    has_self rfl (Nat.lt_succ_self _)⟩
  exact (h.kept hgrows).insert (n := n) (Nat.ne_of_gt h.lt_next) rfl le_rfl

theorem Adds.mapM {α : Type} {f : α → Analysis Node} {g : α → Shape NodeId} (h : ∀ a, Adds (f a) (g a)) {as : List α}
    {ns : List Node} (hrun : as.mapM f s = .ok ns t) : Grows [] s t ∧ List.Forall₂ (fun a n => t.Has n.id (g a)) as ns := by
  induction as generalizing s ns with
  | nil =>
    cases hrun
    exact ⟨.refl _, .nil⟩
  | cons a as ih =>
    rw [List.mapM_cons] at hrun
    obtain ⟨n, u, hn, hrun⟩ := bind_eq_ok.1 hrun
    obtain ⟨ns, v, hns, ⟨⟩⟩ := bind_eq_ok.1 hrun
    obtain ⟨hgrows, -, hhas⟩ := h a s n u hn
    obtain ⟨hgrows', hrest⟩ := ih hns
    exact ⟨hgrows.trans hgrows', .cons (hhas.kept hgrows') hrest⟩

theorem grows_edit {shape : Shape Node} (hn : n.id < s.next) (h : edit n shape s = .ok m t) :
    Grows [n.id] s t ∧ t.Has n.id (shape.map Node.id) := by
  cases h
  let m := n.withShape shape
  refine ⟨⟨le_rfl, fun h => h.insert (m := m) _, fun i _ hi h => ?_⟩, has_self (n := m) rfl hn⟩
  exact h.insert (n := m) (fun heq => hi (heq ▸ List.mem_singleton_self _)) rfl le_rfl

theorem Grows.rewrite (h : Grows [] s t) (hm : m.id = n.id) (hshape : m.shape.map Node.id = (s.now n).shape.map Node.id) :
    Grows [] s { t with nodes := t.nodes.insert m.id m } := by
  refine ⟨h.next_le, fun hs => (h.keyed hs).insert _, fun i shape _ hi => ?_⟩
  by_cases heq : m.id = i
  · subst heq
    rw [hm] at hi
    rw [← hi.now, ← hshape]
    exact has_self rfl ((hm ▸ hi.lt_next).trans_le h.next_le)
  · exact (hi.kept h).insert heq rfl le_rfl

theorem placeFrom_grows {k line col : Nat} (hs : s.Keyed) (h : placeFrom k line col n s = .ok m t) : Grows [] s t ∧ m.id = n.id := by
  induction k generalizing n m s t line col with
  | zero => cases h
  | succ k ih =>
    obtain ⟨_, _, ⟨⟩, h⟩ := bind_eq_ok.1 h
    obtain ⟨shape, u, htraverse, h⟩ := bind_eq_ok.1 h
    have hone (l c : Nat) (d : Node) : Ensures (Grows [] s) (fun b => b.id = d.id) (placeFrom k l c d) := by
      intro v b w hv hb
      obtain ⟨hw, hid⟩ := ih (hv.keyed hs) hb
      exact ⟨hv.trans hw, hid⟩
    obtain ⟨hu, hshape⟩ := Shape.ensures_traverse (hone _ _) (.mapM_map (hone _ _)) _ s shape u (.refl s) htraverse
    have hid := hs.now_id n
    split at h
    · cases h
      exact ⟨hu.rewrite (m := ⟨_, _, _, shape⟩) hid hshape, hid⟩
    · cases h
      exact ⟨hu.rewrite (m := (s.now n).withShape shape) hid hshape, hid⟩

theorem grows_note {f : Facts → Facts} {a : Unit} (h : note id f s = .ok a t) : Grows [] s t := by
  cases h
  exact ⟨le_rfl, fun h => h, fun _ _ _ h => h⟩

/-- Statements in the place of one are a branch that is always taken. -/
theorem block_grows {body : List Node} {b : Node} (hs : s.Keyed) (h : Lowering.block body n s = .ok b t) :
    ∃ test, Grows [] s t ∧ t.Has b.id (.cond test (body.map Node.id) []) ∧ t.Has test (.constant (.bool true) false) := by
  obtain ⟨test, s1, hfresh, h⟩ := bind_eq_ok.1 h
  obtain ⟨hgrows1, -, htest⟩ := adds_fresh _ _ _ _ hfresh
  obtain ⟨line, s2, hline, h⟩ := bind_eq_ok.1 h
  obtain ⟨b', s3, hfreshAt, h⟩ := bind_eq_ok.1 h
  obtain ⟨hgrows3, -, hb⟩ := adds_freshAt _ _ _ _ _ _ hfreshAt
  obtain ⟨_, s4, hnote, hplace⟩ := bind_eq_ok.1 h
  have hgrows2 := (calm_lineOf n _ _ _ hline (hgrows1.keyed hs)).grows.trans hgrows3
  have hgrows4 := grows_note hnote
  obtain ⟨hgrows5, hid⟩ := placeFrom_grows (hgrows4.keyed (hgrows2.keyed (hgrows1.keyed hs))) hplace
  have hgrows5 := hgrows4.trans hgrows5
  refine ⟨test.id, hgrows1.trans (hgrows2.trans hgrows5), ?_, htest.kept (hgrows2.trans hgrows5)⟩
  rw [hid]
  exact hb.kept hgrows5

theorem recorded {k : Nat} (hs : s.Keyed) (hdepth : n.Shallow k) (hnodup : (n.ids k).Nodup) (hk : k ≤ nestingLimit)
    (hlt : ∀ id ∈ n.ids k, id < s.next) : (after (recordAll nestingLimit n s)).Keyed ∧ ∀ m : Node, m.Within n →
      (after (recordAll nestingLimit n s)).nodes[m.id]? = some m ∧ m.id < (after (recordAll nestingLimit n s)).next := by
  obtain ⟨nodes, hrun, hexact, -⟩ := recordAll_exact hdepth hnodup hk s
  have hkeyed := (ensures_recordAll _ n s () _ hs hrun).1
  rw [hrun]
  exact ⟨hkeyed, fun m hm => ⟨hexact.within hm, hlt _ (hexact.holds.mem_ids hm)⟩⟩

end Session

/-! ### Machines -/

namespace Effect

variable {ε σ α : Type}

def moved (g : σ → σ) : EStateM.Result ε σ α → EStateM.Result ε σ α
  | .ok a s => .ok a (g s)
  | .error e s => .error e (g s)

/-- A computation to which a change of the state makes no difference. -/
def Unaware (g : σ → σ) (c : EStateM ε σ α) : Prop := ∀ s, c (g s) = moved g (c s)

end Effect

/-- What a node does: as an expression, as a target and as a statement. -/
structure Deed (E S V : Type) where
  eval : EStateM E S V
  store : V → EStateM E S Unit
  run : EStateM E S Signal
  starred : Bool

def Deed.seq {E S V : Type} : List (Deed E S V) → EStateM E S Signal
  | [] => return .done
  | d :: ds => do
    match ← d.run with
    | .done => seq ds
    | signal => return signal

def Deed.stores {E S V : Type} : List (Deed E S V × V) → EStateM E S Unit
  | [] => return ⟨⟩
  | (d, v) :: ps => do
    d.store v
    stores ps

/-- Stores values in targets, each evaluated when its turn comes. -/
def Deed.sets {E S V : Type} : List (Deed E S V × Deed E S V) → EStateM E S Signal
  | [] => return .done
  | (d, e) :: ps => do
    d.store (← e.eval)
    sets ps

theorem Deed.seq_eq_sets {E S V : Type} {ps : List (Deed E S V × Deed E S V)} {ds : List (Deed E S V)}
    (h : List.Forall₂ (fun p d => d.run = sets [p]) ps ds) : seq ds = sets ps := by
  induction h with
  | nil => rfl
  | cons hd _ ih => simp [seq, sets, hd, ih]

/-- A state has the values of variables and whatever else there is; what `_` was set to may be forgotten. To unpack a value, it is
said which parts are starred. -/
structure Machine (E S V : Type) where
  read : String → EStateM E S V
  bind : String → V → S → S
  truth : Bool → V
  holds : V → EStateM E S Bool
  pack : List V → V
  unpack : List Bool → V → EStateM E S (List V)
  other : Shape (Deed E S V) → Deed E S V
  read_bind : ∀ {x} v s, x ≠ "_" → read x (bind x v s) = .ok v (bind x v s)
  unaware_read : ∀ {x y v}, x ≠ y → Unaware (bind x v) (read y)
  holds_truth : ∀ b, holds (truth b) = pure b
  unpack_pack : ∀ vs, unpack (vs.map fun _ => false) (pack vs) = pure vs
  length_of_unpack : ∀ {bs v s vs t}, unpack bs v s = .ok vs t → vs.length = bs.length

namespace Machine

variable {E S V : Type} (M : Machine E S V)

def node (shape : Shape (Deed E S V)) : Deed E S V :=
  let other := { M.other shape with starred := shape matches .starred .. }
  match shape with
  | .name x _ => { other with eval := M.read x, store := fun v => modify (M.bind x v) }
  | .constant (.bool b) _ => { other with eval := return M.truth b }
  | .tuple ds _ => { other with
      eval := return M.pack (← ds.mapM Deed.eval)
      store := fun v => do Deed.stores (ds.zip (← M.unpack (ds.map Deed.starred) v)) }
  | .assign ds d => { other with
      run := do
        let v ← d.eval
        Deed.stores (ds.map (·, v))
        return .done }
  | .annAssign t _ (some d) _ => { other with
      run := do
        t.store (← d.eval)
        return .done }
  | .exprStmt d => { other with
      run := do
        let _ ← d.eval
        return .done }
  | .cond test body orelse => { other with
      run := do if ← M.holds (← test.eval) then Deed.seq body else Deed.seq orelse }
  | _ => other

theorem run_assign (d value : Deed E S V) :
    (M.node (.assign [d] value)).run = Deed.sets [(d, value)] := by
  simp [node, Deed.stores, Deed.sets]

theorem store_tuple (ds : List (Deed E S V)) (u : Usage) (v : V) :
    (M.node (.tuple ds u)).store v = (do Deed.stores (ds.zip (← M.unpack (ds.map Deed.starred) v))) := rfl

def Models (s : Session) (D : NodeId → Deed E S V) : Prop := ∀ id shape, s.Has id shape → D id = M.node (shape.map D)

variable {M} in
theorem Models.run_block {s : Session} {D : NodeId → Deed E S V} {b test : NodeId} {body : List NodeId} (h : M.Models s D)
    (hb : s.Has b (.cond test body [])) (htest : s.Has test (.constant (.bool true) false)) :
    (D b).run = Deed.seq (body.map D) := by
  have heval : (D test).eval = pure (M.truth true) := by rw [h _ _ htest]; rfl
  rw [h _ _ hb]
  change (do if ← M.holds (← (D test).eval) then Deed.seq (body.map D) else Deed.seq []) = _
  simp [heval, M.holds_truth]

end Machine

end Polyglot
