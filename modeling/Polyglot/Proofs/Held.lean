import Polyglot.Proofs.Sight

/-!
# Trees in a session

A session holds a tree if it has the current content of every node of the tree. Bodies may have changed since a
content was recorded, so only the identities of the statements in it count: `Node.key` forgets the rest.
To refresh a node gives the tree that is held for it.
-/
namespace Polyglot

open Effect List Node Option

variable {k : Nat} {stop : Rewrite} {s : Session} {n : Node} {step : Lowering}

theorem exists_succ_of_lt {j : Nat} (h : k < j) : ∃ i, j = i + 1 := ⟨j - 1, by omega⟩

/-- From every state of one kind, a computation returns a value and ends in a state of another kind. -/
def Effect.Leads {ε σ α : Type} (P Q : σ → Prop) (x : EStateM ε σ α) (a : α) : Prop := ∀ s, P s → ∃ t, x s = .ok a t ∧ Q t

/-- From every state of some kind, a computation returns a value and ends in a state of that kind. -/
def Effect.Yields {ε σ α : Type} (P : σ → Prop) (x : EStateM ε σ α) (a : α) : Prop :=
  ∀ s, P s → ∃ t, x s = .ok a t ∧ P t

namespace Effect

variable {ε σ α β : Type} {P Q R : σ → Prop} {x : EStateM ε σ α} {f : α → EStateM ε σ β} {a : α} {b : β} {as : List α}

theorem Leads.bind (hx : Leads P Q x a) (hf : Leads Q R (f a) b) : Leads P R (x >>= f) b := by
  intro s hs
  obtain ⟨t, ht, hQ⟩ := hx s hs
  obtain ⟨u, hu, hR⟩ := hf t hQ
  exact ⟨u, (bind_ok ht).trans hu, hR⟩

namespace Yields

theorem pure (a : α) : Yields P (Pure.pure a : EStateM ε σ α) a := fun s hs => ⟨s, rfl, hs⟩

theorem bind (hx : Yields P x a) (hf : Yields P (f a) b) : Yields P (x >>= f) b := Leads.bind hx hf

theorem mapM {bs : List β} (h : List.Forall₂ (fun a b => Yields P (f a) b) as bs) : Yields P (as.mapM f) bs := by
  induction h with
  | nil => exact pure []
  | cons hab _ ih =>
    rw [mapM_cons]
    exact hab.bind (ih.bind (pure _))

theorem mapM_same {f : α → EStateM ε σ α} (h : ∀ a ∈ as, Yields P (f a) a) : Yields P (as.mapM f) as :=
  mapM (forall₂_same.2 h)

end Yields

end Effect

/-! ### Blocks -/

inductive Head where
  | each (target iter : Node)
  | while (test : Node)

inductive Opening where
  | module
  | cond (test : Node)
  | loop (head : Head)

def Head.shape : Head → List Node → List Node → Shape Node
  | .each target iter, body, orelse => .forLoop ⟨target, iter, body, orelse⟩
  | .while test, body, orelse => .whileLoop test body orelse

def Head.parts : Head → List Node
  | .each target iter => [target, iter]
  | .while test => [test]

namespace Opening

/-- A block of a kind. A module has no second body. -/
def shape : Opening → List Node → List Node → Shape Node
  | .module, body, _ => .module body
  | .cond test, body, orelse => .cond test body orelse
  | .loop head, body, orelse => head.shape body orelse

def parts : Opening → List Node
  | .module => []
  | .cond test => [test]
  | .loop head => head.parts

/-- A body that can stand second in a block. -/
def Admits (o : Opening) (orelse : List Node) : Prop := o = .module → orelse = []

end Opening

namespace Shape

/-- A block as what stands before its body, the body and the second body. -/
def opening? : Shape Node → Option (Opening × List Node × List Node)
  | .module body => some (.module, body, [])
  | .cond test body orelse => some (.cond test, body, orelse)
  | .forLoop l => some (.loop (.each l.target l.iter), l.body, l.orelse)
  | .whileLoop test body orelse => some (.loop (.while test), body, orelse)
  | _ => none

variable {o : Opening} {body orelse : List Node} {s : Shape Node}

theorem opening?_shape (h : o.Admits orelse) : (o.shape body orelse).opening? = some (o, body, orelse) := by
  cases o with
  | module => simp [Opening.shape, opening?, h rfl]
  | cond test => rfl
  | loop head => cases head <;> rfl

theorem eq_shape_of_opening? (h : s.opening? = some (o, body, orelse)) :
    s = o.shape body orelse ∧ o.Admits orelse := by
  unfold opening? at h
  split at h <;> simp only [some.injEq, Prod.mk.injEq, reduceCtorEq] at h
  all_goals
    obtain ⟨rfl, rfl, rfl⟩ := h
    simp [Opening.shape, Head.shape, Opening.Admits]

theorem children_of_opening? (h : s.opening? = some (o, body, orelse)) : s.children = o.parts ++ body ++ orelse := by
  obtain ⟨rfl, hadmits⟩ := eq_shape_of_opening? h
  cases o with
  | module => simp [Opening.shape, Opening.parts, children, hadmits rfl]
  | cond test => simp [Opening.shape, Opening.parts, children]
  | loop head => cases head <;> simp [Opening.shape, Opening.parts, Head.shape, Head.parts, children]

end Shape

namespace Node

def stub (n : Node) : Node := ⟨n.id, none, none, .pass⟩

/-- The content of a node, with the statements of its bodies by their identities. -/
def key (n : Node) : Node :=
  match n.shape.opening? with
  | some (o, body, orelse) => n.withShape (o.shape (body.map stub) (orelse.map stub))
  | none => n

variable {c n : Node} {o : Opening} {body orelse : List Node}

theorem ident?_of_name {name : String} {u : Usage} (h : n.shape = .name name u) : n.ident? = some name := by
  obtain ⟨_, _, _, shape⟩ := n
  obtain rfl : shape = .name name u := h
  rfl

theorem map_stub_eq {as bs : List Node} : as.map stub = bs.map stub ↔ as.map (·.id) = bs.map (·.id) := by
  have hstub (as : List Node) : as.map stub = (as.map (·.id)).map fun id => ⟨id, none, none, .pass⟩ := by simp [stub]
  rw [hstub as, hstub bs]
  exact map_inj_right fun _ _ h => congrArg (·.id) h

theorem forall₂_of_map_id {as bs : List Node} (h : as.map (·.id) = bs.map (·.id)) :
    List.Forall₂ (fun a b : Node => a.id = b.id) as bs := by
  rwa [← forall₂_eq_eq_eq, forall₂_map_left_iff, forall₂_map_right_iff] at h

theorem key_of_opening? (h : n.shape.opening? = some (o, body, orelse)) :
    n.key = n.withShape (o.shape (body.map stub) (orelse.map stub)) := by
  simp only [key, h]

theorem key_of_none (h : n.shape.opening? = none) : n.key = n := by
  simp only [key, h]

theorem opening?_key : n.key.shape.opening? = n.shape.opening?.map fun (o, b, e) => (o, b.map stub, e.map stub) := by
  cases h : n.shape.opening? with
  | none => rw [key_of_none h, h, map_none]
  | some x =>
    obtain ⟨_, hadmits⟩ := Shape.eq_shape_of_opening? h
    rw [key_of_opening? h, map_some]
    refine Shape.opening?_shape fun ho => ?_
    rw [hadmits ho, map_nil]

theorem withShape_shape (n : Node) : n.withShape n.shape = n := by
  cases n
  rfl

theorem withShape_key : n.key.withShape n.shape = n := by
  obtain ⟨_, _, _, shape⟩ := n
  unfold key
  split <;> rfl

theorem withShape_of_key (h : c.key = n.key) : c.withShape n.shape = n := by
  have hc : c.withShape n.shape = c.key.withShape n.shape := by
    unfold key
    split <;> rfl
  rw [hc, h, withShape_key]

theorem id_of_key (h : c.key = n.key) : c.id = n.id := congrArg (·.id) (withShape_of_key h)

/-- Nodes with one key are alike: in the kind of block and in the identities of its statements. -/
theorem opening?_of_key (h : c.key = n.key) (hn : n.shape.opening? = some (o, body, orelse)) :
    ∃ body0 orelse0, c.shape.opening? = some (o, body0, orelse0) ∧ body0.map (·.id) = body.map (·.id) ∧
      orelse0.map (·.id) = orelse.map (·.id) := by
  have hk : c.key.shape.opening? = n.key.shape.opening? := by rw [h]
  rw [opening?_key, opening?_key, hn] at hk
  cases hc : c.shape.opening? with
  | none => rw [hc] at hk; cases hk
  | some x =>
    obtain ⟨o', b, e⟩ := x
    rw [hc] at hk
    simp only [map_some, some.injEq, Prod.mk.injEq, map_stub_eq] at hk
    obtain ⟨rfl, hb, he⟩ := hk
    exact ⟨b, e, rfl, hb, he⟩

theorem eq_of_key (h : c.key = n.key) (hn : n.shape.opening? = none) : c = n := by
  have hk : c.key.shape.opening? = n.key.shape.opening? := by rw [h]
  rw [opening?_key, opening?_key, hn] at hk
  have hc : c.shape.opening? = none := by simpa using hk
  rwa [key_of_none hc, key_of_none hn] at h

theorem key_withShape {b e b' e' : List Node} (ho : o.Admits e) (ho' : o.Admits e')
    (hb : b.map (·.id) = b'.map (·.id)) (he : e.map (·.id) = e'.map (·.id)) :
    (n.withShape (o.shape b e)).key = (n.withShape (o.shape b' e')).key := by
  rw [key_of_opening? (Shape.opening?_shape ho), key_of_opening? (Shape.opening?_shape ho'), map_stub_eq.2 hb,
    map_stub_eq.2 he]
  rfl

def ids : Nat → Node → List NodeId
  | 0, _ => []
  | k + 1, n => n.id :: n.children.flatMap (ids k)

def Shallow : Nat → Node → Prop
  | 0, _ => False
  | k + 1, n => ∀ c ∈ n.children, c.Shallow k

instance Shallow.decidable : (k : Nat) → (n : Node) → Decidable (n.Shallow k)
  | 0, _ => isFalse fun h => h
  | k + 1, n =>
    have := Shallow.decidable k
    inferInstanceAs (Decidable (∀ c ∈ n.children, c.Shallow k))

theorem id_mem_ids (h : k ≠ 0) : n.id ∈ n.ids k := by
  cases k with
  | zero => exact absurd rfl h
  | succ k => exact mem_cons_self

theorem ids_subset_of_mem (h : c ∈ n.children) : c.ids k ⊆ n.ids (k + 1) := by
  intro id hid
  exact mem_cons_of_mem _ (mem_flatMap.2 ⟨c, h, hid⟩)

end Node

/-- Going through a block: first what stands before its body, then the bodies. -/
theorem Shape.traverse_opening {ε σ : Type} {one : Node → EStateM ε σ Node} {many : List Node → EStateM ε σ (List Node)}
    {shape : Shape Node} {o : Opening} {b0 e0 b e : List Node} {s s1 s2 s3 : σ} (h : shape.opening? = some (o, b0, e0))
    (hempty : ∀ s, many [] s = .ok [] s) (hparts : o.parts.mapM one s = .ok o.parts s1) (hb : many b0 s1 = .ok b s2)
    (he : many e0 s2 = .ok e s3) : shape.traverse one many s = .ok (o.shape b e) s3 := by
  obtain ⟨rfl, hadmits⟩ := eq_shape_of_opening? h
  cases o with
  | module =>
    rw [hadmits rfl, hempty] at he
    cases he
    cases hparts
    exact (bind_ok hb).trans rfl
  | cond test =>
    obtain ⟨_, htest, ⟨⟩⟩ := mapM_cons_eq_ok.1 hparts
    exact (bind_ok htest).trans ((bind_ok hb).trans ((bind_ok he).trans rfl))
  | loop head =>
    cases head with
    | each target iter =>
      obtain ⟨_, htarget, hparts⟩ := mapM_cons_eq_ok.1 hparts
      obtain ⟨_, hiter, ⟨⟩⟩ := mapM_cons_eq_ok.1 hparts
      have hloop : traverse.loop one many ⟨target, iter, b0, e0⟩ s = .ok ⟨target, iter, b, e⟩ s3 :=
        (bind_ok htarget).trans ((bind_ok hiter).trans ((bind_ok hb).trans ((bind_ok he).trans rfl)))
      exact (bind_ok hloop).trans rfl
    | «while» test =>
      obtain ⟨_, htest, ⟨⟩⟩ := mapM_cons_eq_ok.1 hparts
      exact (bind_ok htest).trans ((bind_ok hb).trans ((bind_ok he).trans rfl))

namespace Session

/-- The content that a session has for an identity, as far as it counts. -/
def keyAt (s : Session) (id : NodeId) : Option Node := s.nodes[id]?.map key

/-- A session has the current content of every node of a tree, which is less than `k` levels deep. -/
def Holds : Nat → Session → Node → Prop
  | 0, _, _ => False
  | k + 1, s, n => s.keyAt n.id = some n.key ∧ ∀ c ∈ n.children, Holds k s c

def Alike (s s' : Session) : Prop := ∀ id, s'.keyAt id = s.keyAt id

variable {s s' : Session} {n m t : Node} {k j : Nat}

theorem getElem?_insert (nodes : Std.TreeMap NodeId Node) (n : Node) (id : NodeId) :
    (nodes.insert n.id n)[id]? = if n.id = id then some n else nodes[id]? := by
  rw [Std.TreeMap.getElem?_insert]
  by_cases h : n.id = id <;> simp [h]

theorem keyAt_insert (id : NodeId) :
    keyAt { s with nodes := s.nodes.insert n.id n } id = if n.id = id then some n.key else s.keyAt id := by
  unfold keyAt
  rw [getElem?_insert]
  split <;> rfl

theorem current_of_keyAt (h : s.keyAt n.id = some m.key) : ∃ c, current n s = .ok c s ∧ c.key = m.key := by
  obtain ⟨c, hc, hkey⟩ := map_eq_some_iff.1 h
  exact ⟨c, current_of_getElem? hc, hkey⟩

theorem Holds.exists_succ (h : Holds k s n) : ∃ i, k = i + 1 := by
  cases k with
  | zero => exact h.elim
  | succ k => exact ⟨k, rfl⟩

theorem Holds.congr (h : Holds k s n) (hs : ∀ id ∈ n.ids k, s'.keyAt id = s.keyAt id) : Holds k s' n := by
  induction k generalizing n with
  | zero => exact h
  | succ k ih =>
    refine ⟨(hs _ mem_cons_self).trans h.1, fun c hc => ih (h.2 c hc) fun id hid => ?_⟩
    exact hs id (ids_subset_of_mem hc hid)

theorem Holds.mono (h : Holds k s n) (hk : k ≤ j) : Holds j s n := by
  induction k generalizing n j with
  | zero => exact h.elim
  | succ k ih =>
    obtain ⟨i, rfl⟩ := exists_succ_of_lt hk
    exact ⟨h.1, fun c hc => ih (h.2 c hc) (by omega)⟩

theorem Alike.refl (s : Session) : Alike s s := fun _ => rfl

theorem Alike.holds (h : Alike s s') (hn : Holds k s n) : Holds k s' n := hn.congr fun id _ => h id

/-- Recording a content that is known changes nothing. -/
theorem Alike.record (h : Alike s s') (hn : s.keyAt n.id = some n.key) :
    Alike s { s' with nodes := s'.nodes.insert n.id n } := by
  intro id
  rw [keyAt_insert]
  split
  · rename_i hid
    rw [← hid, hn]
  · exact h id

/-- Two sessions with the same contents and the same facts. -/
structure Quiet (s s' : Session) : Prop where
  alike : Alike s s'
  facts : s'.facts = s.facts
  next : s'.next = s.next

theorem Quiet.refl (s : Session) : Quiet s s := ⟨.refl s, rfl, rfl⟩

def Exact : Nat → Session → Node → Prop
  | 0, _, _ => False
  | k + 1, s, n => s.nodes[n.id]? = some n ∧ ∀ c ∈ n.children, Exact k s c

theorem Exact.congr (h : Exact k s n) (hs : ∀ id ∈ n.ids k, s'.nodes[id]? = s.nodes[id]?) : Exact k s' n := by
  induction k generalizing n with
  | zero => exact h
  | succ k ih =>
    refine ⟨(hs _ mem_cons_self).trans h.1, fun c hc => ih (h.2 c hc) fun id hid => ?_⟩
    exact hs id (ids_subset_of_mem hc hid)

theorem Exact.holds (h : Exact k s n) : Holds k s n := by
  induction k generalizing n with
  | zero => exact h
  | succ k ih => exact ⟨by rw [keyAt, h.1, map_some], fun c hc => ih (h.2 c hc)⟩

/-- Recording a tree of distinct nodes changes its contents only, and then the session has it as it is. -/
theorem recordAll_exact (hdepth : n.Shallow k) (hnodup : (n.ids k).Nodup) (hk : k ≤ j) (s : Session) :
    ∃ nodes, recordAll j n s = .ok () { s with nodes } ∧ Exact k { s with nodes } n ∧
      ∀ id ∉ n.ids k, nodes[id]? = s.nodes[id]? := by
  induction k generalizing n j s with
  | zero => exact hdepth.elim
  | succ k ih =>
    obtain ⟨i, rfl⟩ := exists_succ_of_lt hk
    obtain ⟨hnot, hnodup⟩ := nodup_cons.1 hnodup
    -- the children are recorded one after the other, and none of them disturbs another
    have hall (cs : List Node) (hcs : ∀ c ∈ cs, c.Shallow k) (hnodup : (cs.flatMap (ids k)).Nodup) (s : Session) :
        ∃ nodes, (cs.forM (recordAll i) : Analysis Unit) s = .ok () { s with nodes } ∧
          (∀ c ∈ cs, Exact k { s with nodes } c) ∧
          ∀ id ∉ cs.flatMap (ids k), nodes[id]? = s.nodes[id]? := by
      induction cs generalizing s with
      | nil => exact ⟨s.nodes, rfl, by simp, fun _ _ => rfl⟩
      | cons c cs ihcs =>
        obtain ⟨hc, hcs⟩ := forall_mem_cons.1 hcs
        obtain ⟨hnodupc, hnodup, hdisjoint⟩ := nodup_append.1 hnodup
        obtain ⟨nodes, hrun, hexact, hkept⟩ := ih hc hnodupc (show k ≤ i by omega) s
        obtain ⟨nodes', hrun', hexact', hkept'⟩ := ihcs hcs hnodup { s with nodes }
        refine ⟨nodes', (bind_ok hrun).trans hrun', forall_mem_cons.2 ⟨?_, hexact'⟩, fun id hid => ?_⟩
        · exact hexact.congr fun id hid => hkept' id fun hid' => hdisjoint id hid id hid' rfl
        · rw [flatMap_cons, mem_append, not_or] at hid
          exact (hkept' id hid.2).trans (hkept id hid.1)
    obtain ⟨nodes, hrun, hexact, hkept⟩ := hall n.children hdepth hnodup { s with nodes := s.nodes.insert n.id n }
    refine ⟨nodes, hrun, ⟨?_, hexact⟩, fun id hid => ?_⟩
    · exact (hkept n.id hnot).trans Std.TreeMap.getElem?_insert_self
    · rw [ids, mem_cons, not_or] at hid
      rw [hkept id hid.2, getElem?_insert, if_neg fun h => hid.1 h.symm]

theorem recordAll_ok (hdepth : n.Shallow k) (hnodup : (n.ids k).Nodup) (hk : k ≤ j) (s : Session) :
    ∃ nodes, recordAll j n s = .ok () { s with nodes } ∧ Holds k { s with nodes } n ∧
      ∀ id ∉ n.ids k, keyAt { s with nodes } id = s.keyAt id := by
  obtain ⟨nodes, hrun, hexact, hkept⟩ := recordAll_exact hdepth hnodup hk s
  exact ⟨nodes, hrun, hexact.holds, fun id hid => congrArg (Option.map key) (hkept id hid)⟩

end Session

inductive Node.Within (m : Node) : Node → Prop
  | self : Within m m
  | part {n c : Node} (hc : c ∈ n.children) (h : Within m c) : Within m n

/-- The nodes of a tree that is less than `k` levels deep. -/
def Node.nodes : Nat → Node → List Node
  | 0, _ => []
  | k + 1, n => n :: n.children.flatMap (nodes k)

theorem Node.mem_nodes {m : Node} (h : n.Shallow k) : m ∈ n.nodes k ↔ m.Within n := by
  induction k generalizing n with
  | zero => exact h.elim
  | succ k ih =>
    rw [nodes, mem_cons, mem_flatMap]
    constructor
    · rintro (rfl | ⟨c, hc, hm⟩)
      · exact .self
      · exact .part hc ((ih (h c hc)).1 hm)
    · intro hm
      cases hm with
      | self => exact Or.inl rfl
      | @part _ c hc hm => exact Or.inr ⟨c, hc, (ih (h c hc)).2 hm⟩

theorem Session.Holds.ids_eq {j : Nat} (h : Holds k s n) (hk : k ≤ j) : n.ids j = n.ids k := by
  induction k generalizing n j with
  | zero => exact h.elim
  | succ k ih =>
    obtain ⟨i, rfl⟩ := exists_succ_of_lt hk
    have hchildren : n.children.flatMap (ids i) = n.children.flatMap (ids k) :=
      flatMap_congr fun c hc => ih (h.2 c hc) (by omega)
    rw [ids, ids, hchildren]

theorem Session.Holds.mem_ids {m : Node} (h : Holds k s n) (hm : m.Within n) : m.id ∈ n.ids k := by
  induction hm generalizing k with
  | self =>
    obtain ⟨k, rfl⟩ := h.exists_succ
    exact mem_cons_self
  | part hc _ ih =>
    obtain ⟨k, rfl⟩ := h.exists_succ
    exact ids_subset_of_mem hc (ih (h.2 _ hc))

/-- The kinds of node that have a body in which the mark for loops can be set. -/
def Node.isBlock (n : Node) : Bool :=
  n.shape matches .module _ | .functionDef _ | .cond .. | .withBlock .. | .forLoop _ | .whileLoop ..

def Node.Plain (n : Node) : Prop := ∀ m : Node, m.Within n → m.isBlock = false

theorem Node.Plain.part {c : Node} (h : n.Plain) (hc : c ∈ n.children) : c.Plain := fun m hm => h m (.part hc hm)

theorem Node.opening?_of_isBlock (h : n.isBlock = false) : n.shape.opening? = none := by
  unfold isBlock at h
  unfold Shape.opening?
  split <;> simp_all

theorem Session.current_of_holds (h : Holds k s n) (hblock : n.isBlock = false) : current n s = .ok n s := by
  obtain ⟨k, rfl⟩ := h.exists_succ
  obtain ⟨c, hc, hkey⟩ := current_of_keyAt h.1
  rwa [eq_of_key hkey (opening?_of_isBlock hblock)] at hc

namespace Lowering

open Session

variable {s : Session} {n e : Node} {k j : Nat}

theorem commit_ok {shape : Shape Node} (h : ∀ f, shape ≠ .functionDef f) :
    commit n shape s =
      .ok (n.withShape shape) { s with nodes := s.nodes.insert n.id (n.withShape shape) } := by
  cases shape with
  | functionDef f => exact absurd rfl (h f)
  | _ => rfl

end Lowering
end Polyglot
