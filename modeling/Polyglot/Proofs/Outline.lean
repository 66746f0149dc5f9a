import Polyglot.Proofs.Held

/-!
# Outlines

The outline of a node is its content with its parts by their identities only. To bring a tree up to date keeps all
outlines, and to read an expression makes new nodes and keeps those that there were. So does whatever is done to find out
about types: what changes with it are annotations and what goes with them.
-/
namespace Polyglot

open Session Effect List

variable {self : Option Node → Analysis TypeTerm} {c : Cause} {text : Option String} {id : NodeId} (name : Option String)
  (fallback : TypeTerm) (n? : Option Node) (t : Node)

namespace Effect

variable {ε σ α β : Type} {R : σ → σ → Prop}

/-- A computation that goes along a relation between states, if it returns. -/
def Along (R : σ → σ → Prop) (x : EStateM ε σ α) : Prop := ∀ s a t, x s = .ok a t → R s t

namespace Along

variable {as : List α} {o : Option α}

variable {x : EStateM ε σ α} {f : α → EStateM ε σ β}

theorem throw {e : ε} : Along R (throw e : EStateM ε σ α) := nofun

theorem tryCatch {h : ε → EStateM ε σ α} (hx : Along R x) (hh : ∀ e s a t, h e s ≠ .ok a t) : Along R (tryCatch x h) :=
  fun s a t hxs => hx s a t (ok_of_catch hh hxs)

variable [Std.Refl R]

theorem of_same (h : ∀ s a t, x s = .ok a t → t = s) : Along R x := by
  intro s a t hx
  rw [h s a t hx]
  exact Std.Refl.refl s

theorem pure (a : α) : Along R (Pure.pure a : EStateM ε σ α) := by
  intro s b t h
  cases h
  exact Std.Refl.refl s

theorem optionForM {f : α → EStateM ε σ Unit} (h : ∀ a ∈ o, Along R (f a)) : Along R (o.forM f) := by
  cases o with
  | none => exact pure ()
  | some a => exact h a rfl

variable [IsTrans σ R]

omit [Std.Refl R] in
theorem bind (hx : Along R x) (hf : ∀ a, Along R (f a)) : Along R (x >>= f) := by
  intro s b u h
  obtain ⟨a, t, hxs, hft⟩ := bind_eq_ok.1 h
  exact IsTrans.trans _ _ _ (hx s a t hxs) (hf a t b u hft)

theorem sequential : Sequential fun {α : Type} (x : EStateM ε σ α) => Along R x := ⟨pure, bind⟩

theorem forM {f : α → EStateM ε σ Unit} (h : ∀ a ∈ as, Along R (f a)) : Along R (as.forM f) := sequential.forM h

theorem forIn {b : β} {f : α → β → EStateM ε σ (ForInStep β)} (h : ∀ a ∈ as, ∀ b, Along R (f a b)) :
    Along R (forIn as b f) := sequential.forIn h

theorem mapM (h : ∀ a ∈ as, Along R (f a)) : Along R (as.mapM f) := sequential.mapM h

theorem filterMapM {f : α → EStateM ε σ (Option β)} (h : ∀ a, Along R (f a)) : Along R (as.filterMapM f) := by
  have hloop (bs : List β) : Along R (List.filterMapM.loop f as bs) := by
    induction as generalizing bs with
    | nil => exact pure _
    | cons a as ih =>
      refine (h a).bind fun b => ?_
      cases b with
      | none => exact ih bs
      | some b => exact ih (b :: bs)
  exact hloop []

theorem optionMapM (h : ∀ a ∈ o, Along R (f a)) : Along R (o.mapM f) := by
  cases o with
  | none => exact pure none
  | some a => exact (h a rfl).bind fun _ => pure _

end Along
end Effect

theorem Effect.Ensures.mapM_map {ε σ α β γ : Type} {I : σ → Prop} {one : α → EStateM ε σ β} {f : α → γ} {g : β → γ}
    (h : ∀ a, Ensures I (fun b => g b = f a) (one a)) (as : List α) :
    Ensures I (fun bs => bs.map g = as.map f) (as.mapM one) := by
  induction as with
  | nil => exact .pure rfl
  | cons a as ih =>
    rw [mapM_cons]
    exact (h a).bind fun b hb => ih.bind fun bs hbs => .pure (by rw [map_cons, map_cons, hb, hbs])

/-! ### Outlines -/

namespace Shape

variable {ε σ α β γ : Type} (f : α → β)

def map (f : α → β) (shape : Shape α) : Shape β := Id.run (shape.traverse (fun a => pure (f a)) fun as => pure (as.map f))

theorem mapM_id (o : Option α) : (o.mapM fun a => (pure (f a) : Id β)) = pure (o.map f) := by
  cases o <;> rfl

theorem children_map (shape : Shape α) : (shape.map f).children = shape.children.map f := by
  have htoList (o : Option α) : (o.map f).toList = o.toList.map f := by cases o <;> rfl
  cases shape <;> simp [map, traverse, traverse.function, traverse.loop, traverse.trial, traverse.sparse, children,
    mapM_id, map_filterMap, filterMap_map, htoList]

/-- What going through the parts of a node keeps of each of them, it keeps of the node. -/
theorem ensures_traverse {I : σ → Prop} {one : α → EStateM ε σ β} {many : List α → EStateM ε σ (List β)} {f : α → γ}
    {g : β → γ} (hone : ∀ a, Ensures I (fun b => g b = f a) (one a))
    (hmany : ∀ as, Ensures I (fun bs => bs.map g = as.map f) (many as)) (shape : Shape α) :
    Ensures I (fun b => b.map g = shape.map f) (shape.traverse one many) := by
  have hopt (o : Option α) : Ensures I (fun b => b.map g = o.map f) (o.mapM one) := by
    cases o with
    | none => exact .pure rfl
    | some a => exact (hone a).bind fun b hb => .pure (by simp [hb])
  have hsparse (os : List (Option α)) :
      Ensures I (fun bs => bs.map (Option.map g) = os.map (Option.map f)) (traverse.sparse one os) := by
    induction os with
    | nil => exact .pure rfl
    | cons o os ih =>
      unfold traverse.sparse at ih ⊢
      rw [mapM_cons]
      exact (hopt o).bind fun b hb => ih.bind fun bs hbs => .pure (by simp [hb, hbs])
  cases shape
  all_goals
    simp only [traverse, traverse.function, traverse.loop, traverse.trial, bind_assoc, pure_bind]
    repeat' first
      | refine .bind (hone _) fun _ _ => ?_
      | refine .bind (hmany _) fun _ _ => ?_
      | refine .bind (hopt _) fun _ _ => ?_
      | refine .bind (hsparse _) fun _ _ => ?_
    refine .pure ?_
    simp [map, traverse, traverse.function, traverse.loop, traverse.trial, traverse.sparse, mapM_id, *]

end Shape

def Node.outline (n : Node) : Node := n.withShape (n.shape.map stub)

namespace Node

variable {m n : Node}

theorem eq_of_kept {γ : Type} {f : Node → γ} {g : Node → Node} (hf : ∀ n, f (g n) = f n) (h : g m = g n) : f m = f n := by
  rw [← hf, h, hf]

section

variable (h : m.outline = n.outline)
include h

theorem id_of_outline : m.id = n.id := by
  have hid := congrArg Node.id h
  exact hid

theorem shape_of_outline : m.shape.map stub = n.shape.map stub := congrArg Node.shape h

theorem childIds_of_outline : m.children.map (·.id) = n.children.map (·.id) := by
  have hchildren := congrArg Shape.children (shape_of_outline h)
  rwa [Shape.children_map, Shape.children_map, map_stub_eq] at hchildren

theorem opensScope_of_outline : m.opensScope = n.opensScope :=
  eq_of_kept (fun ⟨_, _, _, shape⟩ => by cases shape <;> rfl) h

end

theorem outline_key (n : Node) : n.key.outline = n.outline := by
  cases hn : n.shape.opening? with
  | none => rw [key_of_none hn]
  | some x =>
    obtain ⟨o, body, orelse⟩ := x
    obtain ⟨hshape, _⟩ := Shape.eq_shape_of_opening? hn
    have hmap (ns : List Node) : (ns.map stub).map stub = ns.map stub := by
      rw [List.map_map]
      rfl
    rw [key_of_opening? hn, outline, outline, hshape]
    cases o with
    | module | cond test => simp [withShape, Opening.shape, Shape.map, Shape.traverse, hmap]
    | loop head =>
      cases head <;> simp [withShape, Opening.shape, Head.shape, Shape.map, Shape.traverse, Shape.traverse.loop, hmap]

theorem outline_of_key (h : m.key = n.key) : m.outline = n.outline := eq_of_kept outline_key h

end Node

/-! ### What typing leaves as it was -/

namespace Session

/-- Every content goes by its own identity. -/
def Keyed (s : Session) : Prop := ∀ (id : NodeId) (m : Node), s.nodes[id]? = some m → m.id = id

variable {s s' : Session} {m : Node}

theorem Keyed.insert (h : s.Keyed) (next : NodeId) : Keyed { s with next, nodes := s.nodes.insert m.id m } := by
  intro id n hn
  rw [getElem?_insert] at hn
  split at hn
  · cases hn
    assumption
  · exact h id n hn

theorem Keyed.now_id (h : s.Keyed) (n : Node) : (s.now n).id = n.id := by
  rw [now, Std.TreeMap.getD_eq_getD_getElem?]
  cases hn : s.nodes[n.id]? with
  | none => rfl
  | some m => exact h _ m hn

theorem getElem?_insert_of_ne (h : m.id ≠ id) : (s.nodes.insert m.id m)[id]? = s.nodes[id]? := by
  rw [getElem?_insert, if_neg h]

end Session

def Facts.untyped (f : Facts) : Facts :=
  { f with hint := none, lifetime := none, inferred := false, container := none, genericContainer := none }

/-- Something else is known of types, but an annotation that is mentioned stays mentioned. -/
structure Facts.Retyped (f f' : Facts) : Prop where
  untyped_eq : f'.untyped = f.untyped
  hint_isSome : f.hint.isSome → f'.hint.isSome

theorem Facts.Retyped.refl (f : Facts) : f.Retyped f := ⟨rfl, fun h => h⟩

theorem Facts.Retyped.trans {f f' f'' : Facts} (h : f.Retyped f') (h' : f'.Retyped f'') : f.Retyped f'' :=
  ⟨h'.untyped_eq.trans h.untyped_eq, fun hf => h'.hint_isSome (h.hint_isSome hf)⟩

namespace Session

variable {s s' : Session} {m : Node} (n : Node)

/-- A step that keeps the outlines of the nodes that there are, and changes nothing else but what is known of types. -/
structure Steady (s s' : Session) : Prop where
  next_le : s.next ≤ s'.next
  keyed : s.Keyed → s'.Keyed
  outline_eq : ∀ id m, id < s.next → s.nodes[id]? = some m → ∃ m', s'.nodes[id]? = some m' ∧ m'.outline = m.outline
  retyped : ∀ id, (s.known id).Retyped (s'.known id)
  openScopes_eq : s'.openScopes = s.openScopes

namespace Steady

theorem refl (s : Session) : Steady s s :=
  ⟨le_rfl, fun hs => hs, fun _ m _ h => ⟨m, h, rfl⟩, fun _ => .refl _, rfl⟩

theorem trans {s'' : Session} (h : Steady s s') (h' : Steady s' s'') : Steady s s'' where
  next_le := h.next_le.trans h'.next_le
  keyed hs := h'.keyed (h.keyed hs)
  outline_eq id m hid hm := by
    obtain ⟨m', hm', houtline⟩ := h.outline_eq id m hid hm
    obtain ⟨m'', hm'', houtline'⟩ := h'.outline_eq id m' (hid.trans_le h.next_le) hm'
    exact ⟨m'', hm'', houtline'.trans houtline⟩
  retyped id := (h.retyped id).trans (h'.retyped id)
  openScopes_eq := h'.openScopes_eq.trans h.openScopes_eq

theorem insert (h : Steady s s') (hm : s.next ≤ m.id) :
    Steady s { s' with next := m.id + 1, nodes := s'.nodes.insert m.id m } where
  next_le := Nat.le_succ_of_le hm
  keyed hs := (h.keyed hs).insert _
  outline_eq id n hid hn := by
    obtain ⟨n', hn', houtline⟩ := h.outline_eq id n hid hn
    refine ⟨n', (getElem?_insert_of_ne ?_).trans hn', houtline⟩
    rintro rfl
    exact Nat.not_lt.2 hm hid
  retyped := h.retyped
  openScopes_eq := h.openScopes_eq

end Steady

def Calm {α : Type} (x : Analysis α) : Prop := Along (fun s s' => s.Keyed → Steady s s') x

instance : Std.Refl fun s s' : Session => s.Keyed → Steady s s' := ⟨fun s _ => .refl s⟩

instance : IsTrans Session fun s s' => s.Keyed → Steady s s' :=
  ⟨fun _ _ _ h h' hs => (h hs).trans (h' ((h hs).keyed hs))⟩

variable {α : Type}

theorem calm_fail : Calm (fail c : Analysis α) := .throw

theorem calm_current : Calm (current n) := .of_same fun _ _ _ h => by cases h; rfl

theorem calm_nodeOf (id : NodeId) : Calm (nodeOf id) := .of_same fun _ _ _ h => by cases h; rfl

theorem calm_factsOf (id : NodeId) : Calm (factsOf id) := .of_same fun _ _ _ h => by cases h; rfl

theorem calm_lineOf : Calm (lineOf n) := by
  unfold lineOf
  split
  · exact .pure _
  · exact .throw

theorem calm_colOf : Calm (colOf n) := by
  unfold colOf
  split
  · exact .pure _
  · exact .throw

theorem throwAt_ne_ok {n : Node} {a : α} : (throwAt c text n : Analysis α) s ≠ .ok a s' := by
  intro h
  obtain ⟨line, t, -, h⟩ := bind_eq_ok.1 h
  obtain ⟨col, t, -, ⟨⟩⟩ := bind_eq_ok.1 h

theorem calm_throwAt {n : Node} : Calm (throwAt c text n : Analysis α) :=
  fun _ _ _ h => absurd h throwAt_ne_ok

theorem calm_hint? : Calm (hint? n) :=
  .of_same fun s _ _ h => by rw [hint?_ok] at h; cases h; rfl

theorem calm_hintOf : Calm (hintOf n) := (calm_hint? n).bind fun _ => .pure _

theorem calm_hasHint : Calm (hasHint n) := (calm_hint? n).bind fun _ => .pure _

theorem calm_find (chain : List NodeId) (name : Option String) : Calm (Scope.find chain name) :=
  .of_same fun s _ _ h => by rw [Scope.find_ok] at h; cases h; rfl

theorem calm_chain? : Calm (Scope.chain? n) := (calm_factsOf _).bind fun _ => .pure _

theorem calm_chainOf : Calm (Scope.chainOf n) := by
  refine (calm_factsOf _).bind fun f => ?_
  split
  · exact .pure _
  · exact .throw

theorem calm_note {f : Facts → Facts} (hf : ∀ x : Facts, x.Retyped (f x)) : Calm (note id f) := by
  intro s _ s' h
  cases h
  refine fun _ => ⟨le_rfl, fun hs => hs, fun _ m _ h => ⟨m, h, rfl⟩, fun i => ?_, rfl⟩
  rw [known_note]
  split
  · rename_i hid
    rw [← hid]
    exact hf _
  · exact .refl _

theorem calm_annotate (n a : Node) : Calm (annotate n a) := calm_note fun _ => ⟨rfl, fun _ => rfl⟩

theorem calm_fresh (shape : Shape Node) : Calm (fresh shape) := by
  intro s n s' h
  cases h
  exact fun _ => (Steady.refl s).insert (m := ⟨s.next, none, none, shape⟩) le_rfl

theorem calm_typeName (id : String) : Calm (typeName id) := calm_fresh _

theorem calm_freshAt (line col : Option Nat) (shape : Shape Node) : Calm (freshAt line col shape) := by
  intro s n s' h
  obtain ⟨m, s1, hfresh, h⟩ := bind_eq_ok.1 h
  have hs1 := calm_fresh shape s m s1 hfresh
  cases hfresh
  cases h
  exact fun hs => (hs1 hs).insert (m := ⟨s.next, line, col, shape⟩) le_rfl

theorem calm_adoptFrom (k : Nat) (n : Node) : Calm (adoptFrom k n) := by
  induction k generalizing n with
  | zero => exact .throw
  | succ k ih =>
    have htraverse : Calm (n.shape.traverse (adoptFrom k) fun ns => ns.mapM (adoptFrom k)) := by
      intro s shape s' h hs
      have hone (a : Node) : Ensures (Steady s) (fun _ => () = ()) (adoptFrom k a) := fun t b u ht hb =>
        ⟨ht.trans (ih a t b u hb (ht.keyed hs)), rfl⟩
      refine (Shape.ensures_traverse hone (fun as t bs u ht hb => ⟨?_, ?_⟩) n.shape s shape s' (.refl s) h).1
      · exact ht.trans (Along.mapM (fun a _ => ih a) t bs u hb (ht.keyed hs))
      · exact map_of_mapM (fun _ _ _ _ _ => rfl) hb
    exact htraverse.bind fun _ => calm_freshAt _ _ _

theorem calm_readFirst (source : String) : Calm (readFirst source) := by
  unfold readFirst
  split
  · exact .throw
  · split
    · split
      all_goals first | exact calm_adoptFrom _ _ | exact .throw
    · exact .throw

theorem refreshFrom_steady {k : Nat} {n a : Node} (hs : s.Keyed) (h : refreshFrom k n s = .ok a s') :
    Steady s s' ∧ a.id = n.id := by
  induction k generalizing n a s s' with
  | zero => cases h
  | succ k ih =>
    obtain ⟨c, t, ⟨⟩, h⟩ := bind_eq_ok.1 h
    obtain ⟨shape, t, htraverse, ⟨⟩⟩ := bind_eq_ok.1 h
    have hid : (s.nodes.getD n.id n).id = n.id := hs.now_id n
    -- the parts are refreshed one after the other and keep their identities
    have hone (c : Node) : Ensures (Steady s) (fun b => b.stub = c.stub) (refreshFrom k c) := by
      intro t b u ht hb
      obtain ⟨hu, hid⟩ := ih (ht.keyed hs) hb
      exact ⟨ht.trans hu, congrArg (fun id => (⟨id, none, none, .pass⟩ : Node)) hid⟩
    obtain ⟨ht, hshape⟩ := Shape.ensures_traverse hone (.mapM_map hone) _ s shape t (.refl s) htraverse
    obtain ⟨c, hc⟩ : ∃ c, s.nodes.getD n.id n = c := ⟨_, rfl⟩
    rw [hc] at hid hshape ⊢
    have houtline : (c.withShape shape).outline = c.outline := congrArg c.withShape hshape
    refine ⟨⟨ht.next_le, fun hs => (ht.keyed hs).insert (m := c.withShape shape) t.next, fun i m hi hm => ?_,
      ht.retyped, ht.openScopes_eq⟩, hid⟩
    by_cases heq : c.id = i
    · subst heq
      have hcm : c = m := by rw [← hc, Std.TreeMap.getD_eq_getD_getElem?, ← hid, hm, Option.getD_some]
      exact ⟨c.withShape shape, Std.TreeMap.getElem?_insert_self, houtline.trans (congrArg Node.outline hcm)⟩
    · obtain ⟨m', hm', houtline'⟩ := ht.outline_eq i m hi hm
      exact ⟨m', (getElem?_insert_of_ne (m := c.withShape shape) heq).trans hm', houtline'⟩

end Session

/-! ### Finding out about types -/

namespace Scope

theorem calm_firstNamed (ids : List (Option NodeId)) : Calm (firstNamed name ids) :=
  .of_same fun s _ _ h => by rw [firstNamed_ok] at h; cases h; rfl

theorem calm_classOrModule? (chain : List NodeId) : Calm (classOrModule? name chain) := by
  induction chain with
  | nil => exact .pure _
  | cons id chain ih =>
    refine (calm_nodeOf id).bind fun n => ?_
    split
    · exact ih
    · refine (Along.mapM fun c _ => calm_current c).bind fun body => ?_
      split
      · exact .pure _
      · refine (calm_factsOf id).bind fun f => ?_
        split
        · exact ih
        · refine (calm_firstNamed name _).bind fun found => ?_
          split
          · exact .pure _
          · exact ih

theorem calm_isEnum (chain : List NodeId) : Calm (isEnum name chain) := by
  refine .bind ((calm_classOrModule? name chain).bind fun n => ?_) fun _ => .pure _
  split <;> exact .pure _

end Scope

namespace TypeStyle

theorem calm_mapsOf : Calm common.mapsOf := .of_same fun _ _ _ h => by cases h; rfl

theorem calm_parameterOf (n index : Node) : Calm (parameterOf n index) := of_ite calm_throwAt (calm_current index)

theorem calm_containerName (m : TypeMaps) (t : TypeTerm) : Calm (containerName m t) := by
  unfold containerName
  split
  · exact .pure _
  · exact .throw
  · exact .pure _

theorem calm_readNode (hself : ∀ n?, Calm (self n?)) (n? : Option Node) : Calm (common.readNode self n?) := by
  refine calm_mapsOf.bind fun m => ?_
  cases n? with
  | none => exact .pure _
  | some n =>
    dsimp only
    split
    case h_5 => exact (Along.mapM fun e _ => (calm_current e).bind fun c => hself _).bind fun _ => .pure _
    case h_7 =>
      refine (calm_parameterOf n _).bind fun index => (calm_current _).bind fun c => (hself _).bind fun value => ?_
      refine (hself _).bind fun index => (calm_containerName m value).bind fun value => ?_
      exact .bind (calm_note fun _ => ⟨rfl, fun h => h⟩) fun _ => .pure _
    all_goals exact .pure _

theorem calm_ofNode : Calm (common.ofNode n?) :=
  of_tie (fun _ hself => calm_readNode hself) (fun _ => .throw) nestingLimit n?

theorem calm_commonContainer (m : TypeMaps) (value index : TypeTerm) : Calm (commonContainer angled m value index) := by
  unfold commonContainer
  split
  · refine of_ite (.pure _) (of_ite .throw (.bind (.mapM fun t _ => ?_) fun names => of_ite (.pure _) (.pure _)))
    split
    · exact .pure _
    · exact .throw
  · exact of_ite (.pure _) (.pure _)

theorem calm_contained (n : Node) (m : TypeMaps) (type : Node) : Calm (ofMention.contained common n m type) := by
  refine (calm_ofNode _).bind fun _ => (calm_factsOf _).bind fun f => ?_
  split
  · exact .throw
  · refine .bind (calm_note fun _ => ⟨rfl, fun h => h⟩) fun _ => .tryCatch (calm_commonContainer m _ _) fun e s a t h => ?_
    split at h
    · exact throwAt_ne_ok h
    · cases h

theorem calm_ofHint (n : Node) : Calm (common.ofHint n) := by
  refine (calm_hint? n).bind fun ann => calm_mapsOf.bind fun m => ?_
  split
  · exact .pure _
  · exact (calm_ofNode none).bind fun t => of_ite calm_throwAt (.pure _)
  · split
    · rename_i hlayout
      cases hlayout
    · exact calm_contained n m _
    · exact (calm_ofNode _).bind fun t => of_ite calm_throwAt (.pure _)

theorem calm_genericNode {fallback : TypeTerm} (hself : ∀ n?, Calm (self n?)) (n? : Option Node) :
    Calm (genericNode fallback self n?) := by
  cases n? with
  | none => exact .pure _
  | some n =>
    unfold genericNode
    dsimp only
    split
    case h_4 => exact (Along.mapM fun e _ => (calm_current e).bind fun c => hself _).bind fun _ => .pure _
    case h_6 =>
      refine (calm_parameterOf n _).bind fun index => (calm_current _).bind fun c => (hself _).bind fun value => ?_
      exact (hself _).bind fun index => .bind (calm_note fun _ => ⟨rfl, fun h => h⟩) fun _ => .pure _
    all_goals exact .pure _

theorem calm_genericOf (n? : Option Node) : Calm (genericOf fallback n?) :=
  of_tie (fun _ hself => calm_genericNode hself) (fun _ => .throw) nestingLimit n?

theorem calm_genericHint (n : Node) : Calm (genericHint fallback n) := by
  refine (calm_hint? n).bind fun ann => ?_
  split
  · exact .pure _
  · refine (calm_genericOf fallback _).bind fun t => ?_
    split
    · refine of_ite ((calm_factsOf _).bind fun f => ?_) (.pure _)
      exact .bind (calm_note fun _ => ⟨rfl, fun h => h⟩) fun _ => .pure _
    · exact .pure _

end TypeStyle

namespace Inference

variable (n : Node)

theorem calm_primitive (v : Literal) : Calm (primitive v) := .optionMapM fun _ _ => calm_typeName _

theorem calm_typeStep {self : Option Node → Analysis (Option Node)} (hself : ∀ n?, Calm (self n?)) (n? : Option Node) :
    Calm (typeStep self n?) := by
  unfold typeStep
  cases n? with
  | none => exact .pure _
  | some n =>
    dsimp only
    split
    · refine (calm_chain? n).bind fun chain => ?_
      split
      · exact .pure _
      · refine (calm_find _ _).bind fun d => ?_
        split
        · exact of_ite (calm_hintOf n) (hself _)
        · exact calm_hintOf n
    · exact calm_primitive _
    · exact calm_hintOf n

theorem calm_typeOf? : Calm (typeOf? n?) :=
  of_tie (fun _ hself => calm_typeStep hself) (fun _ => .throw) nestingLimit n?

theorem calm_typeOf : Calm (typeOf n) := (calm_current n).bind fun _ => calm_typeOf? _

theorem calm_annotateWith (type : String) : Calm (annotateWith n type) :=
  (calm_readFirst type).bind fun t => (calm_lineOf n).bind fun _ => (calm_colOf n).bind fun _ => calm_annotate n t

theorem calm_writeType : Calm (writeType t) := by
  refine Along.bind (fun _ _ _ h hs => (refreshFrom_steady hs h).1) fun n => ?_
  split
  · exact .pure _
  · exact .throw

theorem calm_lifetimeOf (t : Option Node) : Calm (lifetimeOf t) := by
  unfold lifetimeOf
  split
  · exact (calm_factsOf _).bind fun _ => .pure _
  · exact .pure _

theorem calm_setLifetime (l : Lifetime) : Calm (setLifetime t l) := calm_note fun _ => ⟨rfl, fun h => h⟩

theorem calm_definitionOf (n operand : Node) : Calm (definitionOf n operand) := by
  unfold definitionOf
  split
  · exact (calm_chainOf n).bind fun _ => calm_find _ _
  · exact .pure _

theorem calm_operandType (n operand : Node) : Calm (operandType n operand) := by
  refine (calm_definitionOf n operand).bind fun d => ?_
  split
  · exact calm_hintOf _
  · exact .pure _

theorem calm_named (type : String) : Calm (do annotate n (← typeName type)) :=
  (calm_typeName type).bind fun t => calm_annotate n t

theorem calm_joinOperands (op : BinOp) (left right : Node) : Calm (joinOperands n op left right) := by
  have hnamed := calm_named n
  refine of_ite ?_ (of_ite (hnamed _) (of_ite (calm_annotate n left) (of_ite (hnamed _) (of_ite (hnamed _) (of_ite (hnamed _) ?_)))))
  · exact (calm_factsOf _).bind fun _ => of_ite (calm_annotate n left) (hnamed _)
  · split
    · exact .pure _
    · exact of_ite (.pure _) calm_throwAt

end Inference
end Polyglot
