import Polyglot.Proofs.LoopElse
import Polyglot.Proofs.Returns

/-!
# Declared results

For each function of a program it is settled what it is said to return after types were inferred: a result that was
declared by a name is kept if and only if all types that the function is told of have that name, and a result that was
not declared is joined from all of them. Statements of functions inside count as well.
-/
namespace Polyglot

open Session Effect List Option

variable {p : NodeId × List NodeId} {o : Outcome}

variable {k j : Nat} {s s' : Session} {m n f g r r' : Node} {chain : List NodeId}

/-! ### Programs that are prepared -/

/-- A session that knows a program and the scopes around its nodes. -/
structure Session.Prepared (k : Nat) (s : Session) (n : Node) : Prop where
  keyed : s.Keyed
  holds : Holds k s n
  nodup : (n.ids k).Nodup
  lt : ∀ id ∈ n.ids k, id < s.next
  chained : Chained k s [] n

namespace Node

theorem exists_within {id : NodeId} (h : id ∈ n.ids k) : ∃ m : Node, m.Within n ∧ m.id = id := by
  induction k generalizing n with
  | zero => cases h
  | succ k ih =>
    rcases mem_cons.1 h with rfl | h
    · exact ⟨n, .self, rfl⟩
    · obtain ⟨c, hc, h⟩ := mem_flatMap.1 h
      obtain ⟨m, hm, hid⟩ := ih h
      exact ⟨m, .part hc hm, hid⟩

theorem Within.child (hf : f.Within n) (hr : r ∈ f.children) : r.Within n := by
  induction hf with
  | self => exact .part hr .self
  | part hc _ ih => exact .part hc ih

theorem Within.child_ne (h : Holds k s n) (hnodup : (n.ids k).Nodup) (hf : f.Within n) (hr : r ∈ f.children) :
    r.id ≠ n.id := by
  obtain ⟨k, rfl⟩ := h.exists_succ
  obtain ⟨c, hc, hrc⟩ : ∃ c ∈ n.children, r.Within c := by
    cases hf with
    | self => exact ⟨r, hr, .self⟩
    | part hc hf => exact ⟨_, hc, hf.child hr⟩
  intro hid
  refine (nodup_cons.1 hnodup).1 (mem_flatMap.2 ⟨c, hc, ?_⟩)
  exact hid ▸ (h.2 c hc).mem_ids hrc

/-- No two nodes of a program have a part in common. -/
theorem Within.eq_of_child (h : Holds k s n) (hnodup : (n.ids k).Nodup) (hf : f.Within n) (hg : g.Within n)
    (hr : r ∈ f.children) (hr' : r' ∈ g.children) (hid : r.id = r'.id) : f = g := by
  induction k generalizing n with
  | zero => exact h.elim
  | succ k ih =>
    have hparts := (nodup_cons.1 hnodup).2
    have hnodup := (nodup_flatMap.1 hparts).1
    have hapart {c c' : Node} (hc : c ∈ n.children) (hc' : c' ∈ n.children) (hm : r.Within c) (hm' : r'.Within c') : c = c' :=
      eq_of_mem_ids hparts hc hc' ((h.2 c hc).mem_ids hm) (hid ▸ (h.2 c' hc').mem_ids hm')
    cases hf with
    | self =>
      cases hg with
      | self => rfl
      | part hc' hg =>
        obtain rfl := hapart hr hc' .self (hg.child hr')
        exact absurd hid.symm (hg.child_ne (h.2 _ hr) (hnodup _ hr) hr')
    | @part _ c hc hf =>
      cases hg with
      | self =>
        obtain rfl := hapart hc hr' (hf.child hr) .self
        exact absurd hid (hf.child_ne (h.2 _ hc) (hnodup _ hc) hr)
      | part hc' hg =>
        obtain rfl := hapart hc hc' (hf.child hr) (hg.child hr')
        exact ih (h.2 c hc) (hnodup c hc) hf hg

end Node

namespace Session

theorem Holds.content_outline (h : Holds k s n) (hm : m.Within n) : (s.content m.id).outline = m.outline := by
  obtain ⟨c, hc, houtline⟩ := h.outline hm
  rw [content_of_getElem? hc, houtline]

theorem Prepared.soundFor (h : s.Prepared k n) : SoundFor (· ∈ n.ids k) s where
  keyed := h.keyed
  known id hid := by
    obtain ⟨m, hm, rfl⟩ := Node.exists_within hid
    obtain ⟨c, hc, _⟩ := h.holds.outline hm
    exact ⟨h.lt _ hid, c, hc⟩
  parts id hid c hc := by
    obtain ⟨m, hm, rfl⟩ := Node.exists_within hid
    have hmem : c.id ∈ m.children.map (·.id) :=
      Node.childIds_of_outline (h.holds.content_outline hm) ▸ mem_map_of_mem hc
    obtain ⟨d, hd, hid⟩ := mem_map.1 hmem
    exact .inl (hid ▸ h.holds.mem_ids (hm.child hd))
  scopes id chain hid hchain i hi := by
    obtain ⟨m, hm, rfl⟩ := Node.exists_within hid
    obtain ⟨c, hscopes, hmem⟩ := h.chained.scopesOf hm
    obtain rfl : c = chain := some.inj (hscopes.symm.trans hchain)
    exact (hmem i hi).resolve_left nofun
  apart _ _ r hid hid' hfr hgr := by
    obtain ⟨f, hf, rfl⟩ := Node.exists_within hid
    obtain ⟨g, hg, rfl⟩ := Node.exists_within hid'
    rw [Node.result?_of_outline (h.holds.content_outline hf)] at hfr
    rw [Node.result?_of_outline (h.holds.content_outline hg)] at hgr
    obtain ⟨c, hc, hid⟩ := Node.mem_children_of_result hfr
    obtain ⟨c', hc', hid'⟩ := Node.mem_children_of_result hgr
    exact congrArg Node.id (hf.eq_of_child h.holds h.nodup hg hc hc' (hid.trans hid'.symm))

theorem ensures_recordAll (j : Nat) (n : Node) : Ensures Keyed (fun _ => True) (recordAll j n) := by
  induction j generalizing n with
  | zero => exact .throw
  | succ j ih =>
    have hall (cs : List Node) : Ensures Keyed (fun _ => True) (cs.forM (recordAll j)) := by
      induction cs with
      | nil => exact .pure trivial
      | cons c cs ihcs => exact (ih c).bind fun _ _ => ihcs
    refine Ensures.bind (P := fun _ => True) (fun s _ s' hs h => ?_) fun _ _ => hall n.children
    cases h
    exact ⟨hs.insert s.next, trivial⟩

/-- A program that was recorded, and whose nodes were given their chains of scopes, is prepared. -/
theorem prepared_of_recordAll (hdepth : n.Shallow (k + 1)) (hnodup : (n.ids (k + 1)).Nodup) (hk : k + 1 ≤ nestingLimit)
    (hlt : ∀ id ∈ n.ids (k + 1), id < s.next) (hopen : s.openScopes = []) (hkeyed : s.Keyed) :
    ∃ s', (do recordAll nestingLimit n; Scope.assign n) s = .ok () s' ∧ s'.Prepared (k + 1) n := by
  obtain ⟨nodes, hrecord, hholds, _⟩ := recordAll_ok hdepth hnodup hk s
  obtain ⟨s', hrun, hassigned, hchained⟩ := exists_assign hholds hnodup hopen hk
  refine ⟨s', (bind_ok hrecord).trans hrun, ?_, hassigned.holds hholds, hnodup, ?_, hchained⟩
  · have hrecorded := (ensures_recordAll _ n s () _ hkeyed hrecord).1
    unfold Keyed at hrecorded ⊢
    rwa [hassigned.nodes_eq]
  · rw [hassigned.next_eq]
    exact hlt

end Session

/-! ### What functions are told -/

/-- The return statements of a tree in the order in which the pass over types comes upon them, each with the chain of
scopes around it. -/
def Node.returnsIn : Nat → List NodeId → Node → List (NodeId × List NodeId)
  | 0, _, _ => []
  | k + 1, chain, n => n.shape.visited.flatMap (returnsIn k (n.inside chain)) ++
      if n.isReturn then [(n.id, (n.inside chain).reverse)] else []

def Node.outcome (n : Node) : Option Outcome :=
  match n.shape with
  | .functionDef f => some (f.returns.elim .unsaid fun r => r.name?.elim (.other r.id) .named)
  | _ => none

/-- The name of the type of what a return statement returns, as far as it is known when inference comes upon it. -/
def Session.toldBy (s : Session) (n : Node) (stmt : NodeId) : Option String :=
  match Inference.infer (Inference.stoppedAt stmt) n s with
  | .error _ t => t.returnedType stmt
  | .ok .. => none

/-- The types that a function is told of while types are inferred. -/
def Session.told (s : Session) (k : Nat) (n : Node) (f : NodeId) : List String :=
  (n.returnsIn k []).filterMap fun p => if f ∈ p.2 then s.toldBy n p.1 else none

def Outcome.Admits : Outcome → String → Prop
  | .unsaid, _ => False
  | .named old, new => new = old
  | .other _, _ => True

namespace Outcome

/-- The length of the name of a type. It grows whenever types are joined. -/
def size : Outcome → Nat
  | .unsaid => 0
  | .named type => type.length + 1
  | .other _ => 0

theorem length_lt_union (old new : String) : old.length < ("Union[" ++ old ++ "," ++ new ++ "]").length := by
  have hopen : "Union[".length = 6 := rfl
  rw [String.length_append, String.length_append, String.length_append, String.length_append]
  omega

theorem size_join (o : Outcome) (new : String) : o.join new = o ∨ o.size < (o.join new).size := by
  cases o with
  | unsaid => exact .inr (Nat.succ_pos _)
  | named old =>
    by_cases h : old = new
    · exact .inl (congrArg named (if_pos h))
    · refine .inr ?_
      simp only [join, if_neg h, size]
      exact Nat.succ_lt_succ (length_lt_union old new)
  | other id => exact .inl rfl

theorem size_le_foldl (ts : List String) (o : Outcome) : o.size ≤ (ts.foldl join o).size := by
  induction ts generalizing o with
  | nil => exact le_rfl
  | cons t ts ih =>
    refine Nat.le_trans ?_ (ih (o.join t))
    rcases o.size_join t with h | h
    · exact Nat.le_of_eq (congrArg size h.symm)
    · exact Nat.le_of_lt h

theorem join_eq_self_iff {new : String} : o.join new = o ↔ o.Admits new := by
  cases o with
  | unsaid => simp [join, Admits]
  | named old =>
    by_cases h : old = new
    · simp [join, Admits, h]
    · have hne : "Union[" ++ old ++ "," ++ new ++ "]" ≠ old := fun heq =>
        Nat.ne_of_gt (length_lt_union old new) (congrArg String.length heq)
      simp [join, Admits, h, hne, Ne.symm h]
  | other id => simp [join, Admits]

/-- A result stays as it is under a row of types if and only if it agrees with each of them. -/
theorem foldl_join_eq_self_iff {ts : List String} : ts.foldl join o = o ↔ ∀ t ∈ ts, o.Admits t := by
  induction ts with
  | nil => simp
  | cons t ts ih =>
    rw [foldl_cons, forall_mem_cons, ← join_eq_self_iff, ← ih]
    constructor
    · intro h
      have hle := size_le_foldl ts (o.join t)
      rw [h] at hle
      have hjoin : o.join t = o := (o.size_join t).resolve_right (Nat.not_lt.2 hle)
      rw [hjoin] at h
      exact ⟨hjoin, h⟩
    · rintro ⟨hjoin, h⟩
      rw [hjoin, h]

end Outcome

namespace Session

/-- The return statements below a node of a session are those of the tree. -/
theorem Holds.returnsBelow_eq (h : Holds k s n) (hj : k ≤ j) (chain : List NodeId) :
    s.returnsBelow j n.id = (n.returnsIn k chain).map Prod.fst := by
  induction k generalizing n chain j with
  | zero => exact h.elim
  | succ k ih =>
    obtain ⟨i, rfl⟩ := exists_succ_of_lt hj
    have houtline := h.content_outline .self
    rw [returnsBelow, Node.returnsWith_eq, Node.visited_of_outline houtline, Node.isReturn_of_outline houtline,
      Node.id_of_outline houtline, flatMap_map, Node.returnsIn, map_append, map_flatMap]
    congr 1
    · exact flatMap_congr fun c hc => ih (h.2 c (Shape.mem_children_of_visited hc)) (by omega) _
    · split <;> rfl

theorem Chained.scopesOf_of_mem_returnsIn (h : Chained k s chain n) (hp : p ∈ n.returnsIn k chain) :
    s.scopesOf p.1 = some p.2 := by
  induction k generalizing n chain with
  | zero => cases hp
  | succ k ih =>
    rw [Node.returnsIn, mem_append] at hp
    rcases hp with hp | hp
    · obtain ⟨c, hc, hp⟩ := mem_flatMap.1 hp
      exact ih (h.2 c (Shape.mem_children_of_visited hc)) hp
    · split at hp
      · rw [mem_singleton.1 hp]
        exact h.1
      · cases hp

theorem Holds.outcome_eq (h : Holds k s n) (hf : f.Within n) : s.outcome f.id = f.outcome := by
  have houtline := h.content_outline hf
  unfold outcome
  rw [Node.result?_of_outline houtline]
  obtain ⟨_, _, _, shape⟩ := f
  cases shape with
  | functionDef f =>
    obtain ⟨name, args, body, decorators, returns⟩ := f
    cases returns with
    | none => rfl
    | some r =>
      have hr : r.Within n := hf.child (by simp [Node.children, Shape.children])
      have hname := Node.name?_of_outline (h.content_outline hr)
      simp only [Node.result?, map_some, elim_some, saidBy, Node.outcome, hname]
  | _ => rfl

end Session

/-- A session in which a program is laid out. Its nodes are there and have the scopes around them, and what was added to
their parts are names. -/
structure Session.Laid (k : Nat) (s : Session) (n : Node) : Prop where
  sound : SoundFor (· ∈ n.ids k) s
  nodup : (n.ids k).Nodup
  mem_ids : ∀ m : Node, m.Within n → m.id ∈ n.ids k
  chained : Chained k s [] n
  opensScope_eq : ∀ m : Node, m.Within n → (s.content m.id).opensScope = m.opensScope
  parts : ∀ m : Node, m.Within n → ∀ c ∈ (s.content m.id).children,
    (∃ d ∈ m.children, d.id = c.id) ∨ c.id ∉ n.ids k ∧ s.IsName c.id
  parts_kept : ∀ m : Node, m.Within n → ∀ d ∈ m.children, ∃ c ∈ (s.content m.id).children, c.id = d.id
  returns : s.returnsBelow nestingLimit n.id = (n.returnsIn k []).map Prod.fst

theorem Session.Prepared.laid (h : s.Prepared k n) (hk : k ≤ nestingLimit) : s.Laid k n where
  sound := h.soundFor
  nodup := h.nodup
  mem_ids _ := h.holds.mem_ids
  chained := h.chained
  opensScope_eq _ hm := Node.opensScope_of_outline (h.holds.content_outline hm)
  parts m hm c hc := by
    have hids := Node.childIds_of_outline (h.holds.content_outline hm)
    exact .inl (mem_map.1 (hids ▸ mem_map_of_mem hc))
  parts_kept m hm d hd := by
    have hids := Node.childIds_of_outline (h.holds.content_outline hm)
    exact mem_map.1 (hids.symm ▸ mem_map_of_mem hd)
  returns := h.holds.returnsBelow_eq hk []

theorem Node.nodup_of_mem_returnsIn (hnodup : (n.ids k).Nodup) (hchain : chain.Nodup) (hapart : ∀ i ∈ chain, i ∉ n.ids k)
    (hp : p ∈ n.returnsIn k chain) : p.2.Nodup := by
  induction k generalizing n chain with
  | zero => cases hp
  | succ k ih =>
    obtain ⟨hnot, hparts⟩ := nodup_cons.1 hnodup
    have hinside : (n.inside chain).Nodup := by
      unfold inside
      split
      · exact nodup_cons.2 ⟨fun hmem => hapart n.id hmem mem_cons_self, hchain⟩
      · exact hchain
    rw [returnsIn, mem_append] at hp
    rcases hp with hp | hp
    · obtain ⟨c, hc, hp⟩ := mem_flatMap.1 hp
      have hc := Shape.mem_children_of_visited hc
      refine ih ((nodup_flatMap.1 hparts).1 c hc) hinside (fun i hi hmem => ?_) hp
      rcases mem_inside hi with hi | rfl
      · exact hapart i hi (ids_subset_of_mem hc hmem)
      · exact hnot (mem_flatMap.2 ⟨c, hc, hmem⟩)
    · split at hp
      · rw [mem_singleton.1 hp]
        exact nodup_reverse.2 hinside
      · cases hp

theorem Return.toldTo_tells {e : Return} (hchain : e.chain.Nodup) (f : NodeId) :
    toldTo f e.tells = if f ∈ e.chain then e.type.toList else [] := by
  obtain ⟨stmt, chain, type⟩ := e
  cases type with
  | none => simp [tells, toldTo]
  | some new =>
    have hcount (l : List NodeId) : toldTo f (l.map (·, new)) = List.replicate (l.count f) new := by
      induction l with
      | nil => rfl
      | cons i l ih =>
        by_cases hi : i = f
        · simp_all [toldTo, replicate_succ]
        · simp_all [toldTo]
    simp only [tells, elim_some, hcount]
    by_cases hf : f ∈ chain
    · rw [if_pos hf, count_eq_one_of_mem hchain hf]
      rfl
    · rw [if_neg hf, count_eq_zero_of_not_mem hf]
      rfl

theorem Return.toldTo_flatMap_tells {rs : List Return} (hchain : ∀ e ∈ rs, e.chain.Nodup) (f : NodeId) :
    toldTo f (rs.flatMap tells) = rs.filterMap fun e => if f ∈ e.chain then e.type else none := by
  induction rs with
  | nil => rfl
  | cons e rs ih =>
    obtain ⟨he, hrs⟩ := forall_mem_cons.1 hchain
    rw [flatMap_cons, toldTo_append, toldTo_tells he, ih hrs, filterMap_cons]
    by_cases hf : f ∈ e.chain
    · cases htype : e.type <;> simp [hf]
    · simp [hf]

namespace Inference

theorem exists_told (h : s.Laid k n) (hreturns : ((n.returnsIn k []).map Prod.fst).Nodup) {b : Bool}
    (hrun : infer rules n s = .ok b s') :
    ∃ js, Follows (· ∈ n.ids k) s js s' ∧ ∀ f, toldTo f js = s.told k n f := by
  obtain ⟨rs, hfollows, hstmts, hchains, hstops⟩ := reports_infer (h.mem_ids n .self) s [] b s' (.refl h.sound) hrun
  rw [h.returns] at hstmts
  have hreturnsIn : rs.map (fun e => (e.stmt, e.chain)) = n.returnsIn k [] := by
    have hpairs := congrArg (List.map fun id => (id, (s.scopesOf id).getD [])) hstmts
    rw [List.map_map, List.map_map] at hpairs
    calc rs.map (fun e => (e.stmt, e.chain))
      _ = rs.map (fun e => (e.stmt, (s.scopesOf e.stmt).getD [])) :=
        map_congr_left fun e he => congrArg (Prod.mk e.stmt) (hchains e he)
      _ = (n.returnsIn k []).map (fun p => (p.1, (s.scopesOf p.1).getD [])) := hpairs
      _ = (n.returnsIn k []).map id :=
        map_congr_left fun p hp => by rw [h.chained.scopesOf_of_mem_returnsIn hp]; rfl
      _ = n.returnsIn k [] := map_id _
  have htype (e : Return) (he : e ∈ rs) : s.toldBy n e.stmt = e.type := by
    have hdistinct : (rs.map (·.stmt)).Nodup := hstmts ▸ hreturns
    have hfind : rs.find? (·.stmt == e.stmt) = some e := by
      have hsome : (rs.find? (·.stmt == e.stmt)).isSome := find?_isSome.2 ⟨e, he, beq_self_eq_true _⟩
      obtain ⟨e', he'⟩ := isSome_iff_exists.1 hsome
      rw [he', inj_on_of_nodup_map hdistinct (mem_of_find?_eq_some he') he
        (by simpa using find?_some he')]
    have hstop := hstops e.stmt
    unfold Return.Stops at hstop
    rw [hfind] at hstop
    obtain ⟨fault, t, hstopped, htype⟩ := hstop
    have hstopped : infer (stoppedAt e.stmt) n s = .error fault t := hstopped
    unfold toldBy
    rw [htype, hstopped]
  refine ⟨_, hfollows, fun f => ?_⟩
  rw [Return.toldTo_flatMap_tells, told, ← hreturnsIn, filterMap_map]
  · exact filterMap_congr fun e he => by simp [htype e he]
  · intro e he
    exact Node.nodup_of_mem_returnsIn h.nodup nodup_nil nofun (hreturnsIn ▸ mem_map_of_mem he)

/-- After types were inferred, a function is said to return what it was declared to return, joined with all types that
return statements inside of it have told it, those of functions inside included. What was declared is kept if and only if
it agrees with each of these types. All other nodes are as they were. -/
theorem result_kept_iff (h : s.Prepared k n) (hk : k ≤ nestingLimit) (hreturns : ((n.returnsIn k []).map Prod.fst).Nodup)
    {b : Bool} (hrun : infer rules n s = .ok b s') :
    (∀ (f : Node) (o : Outcome), f.Within n → f.outcome = some o →
      s'.outcome f.id = some ((s.told k n f.id).foldl Outcome.join o) ∧
      (s'.outcome f.id = some o ↔ ∀ t ∈ s.told k n f.id, o.Admits t)) ∧
    ∀ m : Node, m.Within n → m.outcome = none →
      (m.name? = none ∨ ∀ f : Node, f.Within n → f.result? ≠ some (some m.id)) → (s'.content m.id).outline = m.outline := by
  obtain ⟨js, hfollows, htold⟩ := exists_told (h.laid hk) hreturns hrun
  refine ⟨fun f o hf ho => ?_, fun m hm hnone hfree => ?_⟩
  · have houtcome : s'.outcome f.id = some ((s.told k n f.id).foldl Outcome.join o) := by
      rw [hfollows.outcome_eq f.id (h.holds.mem_ids hf), h.holds.outcome_eq hf, ho, map_some, htold]
    refine ⟨houtcome, ?_⟩
    rw [houtcome, some.injEq, Outcome.foldl_join_eq_self_iff]
  · have houtline := h.holds.content_outline hm
    refine (hfollows.outline_eq (h.holds.mem_ids hm) ?_ ?_).trans houtline
    · rw [h.holds.outcome_eq hm, hnone]
    · rw [Node.name?_of_outline houtline]
      refine hfree.imp_right fun hfree i hi hresult => ?_
      obtain ⟨f, hf, rfl⟩ := Node.exists_within hi
      rw [Node.result?_of_outline (h.holds.content_outline hf)] at hresult
      exact hfree f hf hresult

/-- A function that is declared to return an integer, does so, and has a function inside that returns a text. -/
def returnsTwice : Node :=
  ⟨10, none, none, .module [⟨9, some 1, some 0, .functionDef
    { name := "f"
      args := ⟨1, none, none, .parameters ⟨[], [], none, [], [], none, []⟩⟩
      body := [
        ⟨5, some 2, some 4, .functionDef
          { name := "g"
            args := ⟨2, none, none, .parameters ⟨[], [], none, [], [], none, []⟩⟩
            body := [⟨4, some 3, some 8, .ret (some ⟨3, some 3, some 15, .constant (.str "a") false⟩)⟩]
            decorators := []
            returns := none }⟩,
        ⟨7, some 4, some 4, .ret (some ⟨6, some 4, some 11, .constant (.int 1) false⟩)⟩]
      decorators := []
      returns := some ⟨8, some 1, some 9, .name "int" .load⟩ }⟩]⟩

def returnsTwiceSession : Session := after ((do recordAll nestingLimit returnsTwice; Scope.assign returnsTwice) { next := 11 })

theorem prepared_returnsTwice : returnsTwiceSession.Prepared 5 returnsTwice := by
  obtain ⟨s, hrun, hprepared⟩ := prepared_of_recordAll (k := 4) (n := returnsTwice) (s := { next := 11 })
    (by decide) (by decide) (le_nestingLimit (by decide)) (by decide) rfl nofun
  have hs : returnsTwiceSession = s := by
    unfold returnsTwiceSession
    rw [hrun]
    rfl
  rwa [hs]

theorem returnsTwice_joined :
    returnsTwiceSession.Prepared 5 returnsTwice ∧ ∃ b s', infer rules returnsTwice returnsTwiceSession = .ok b s' ∧
      returnsTwiceSession.told 5 returnsTwice 9 = ["str", "int"] ∧ ¬ s'.outcome 9 = some (.named "int") ∧
      s'.outcome 9 = some (.named "Union[Union[int,str],int]") ∧ s'.outcome 5 = some (.named "str") := by
  have hreturned : returned (infer rules returnsTwice returnsTwiceSession) = true := by decide +kernel
  have htold : returnsTwiceSession.told 5 returnsTwice 9 = ["str", "int"] := by decide +kernel
  have htold' : returnsTwiceSession.told 5 returnsTwice 5 = ["str"] := by decide +kernel
  obtain ⟨b, hrun⟩ := ok_after_of_returned hreturned
  obtain ⟨hresults, _⟩ := result_kept_iff prepared_returnsTwice (le_nestingLimit (by decide)) (by decide) hrun
  obtain ⟨houter, hkept⟩ := hresults _ (.named "int") (.part List.mem_cons_self .self) rfl
  obtain ⟨hinner, _⟩ := hresults _ .unsaid (.part List.mem_cons_self
    (.part (List.mem_cons_of_mem _ List.mem_cons_self) .self)) rfl
  refine ⟨prepared_returnsTwice, b, _, hrun, htold, fun h => ?_, ?_, ?_⟩
  · have hstr : "str" = "int" := hkept.1 h "str" (by rw [htold]; exact List.mem_cons_self)
    exact absurd hstr (by decide)
  · rw [htold] at houter
    exact houter
  · rw [htold'] at hinner
    exact hinner

def functionsIn : Nat → Node → List (String × Option String)
  | 0, _ => []
  | k + 1, n => (match n.shape with
      | .functionDef f => [(f.name, f.returns.bind Node.ident?)]
      | _ => []) ++ n.children.flatMap (functionsIn k)

def resultsOf (source : String) : Option (List (String × Option String)) :=
  match (do
    let n ← readProgram source
    let _ ← Run.analyse [] n
    refresh n) {} with
  | .ok n _ => some (functionsIn 9 n)
  | .error _ _ => none

/-- A declared result is changed, and a function inside has a say in what the function around it returns. -/
theorem declared_result_changed :
    resultsOf "def f() -> int:\n    return True\n" = some [("f", some "Union[int,bool]")] ∧
      resultsOf "def f():\n    def g():\n        return 1\n    return True\n" =
        some [("f", some "Union[int,bool]"), ("g", some "int")] := by
  decide +kernel

end Inference
end Polyglot
