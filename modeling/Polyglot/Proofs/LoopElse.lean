import Mathlib.Data.List.Pairwise
import Polyglot.Proofs.LoopVisit

/-!
# Else parts as branches

The pass that turns the else parts of loops into branches on a mark keeps what a program means, for the programs that
`Fit` singles out. Without `Fit` this is not so: one mark serves all loops, so a loop inside another one can spoil it.
-/
namespace Polyglot

open Effect Session Blocks List Node Scope

attribute [local simp] children Shape.children

variable {self : Node → Analysis Unit}

variable {k j : Nat} {s s' s'' : Session} {c c0 n : Node} {I chain : List NodeId} {cs cs0 body orelse : List Node}

/-! ### Chains of scopes -/

/-- A step that notes chains of scopes for some nodes, and else nothing. -/
structure Assigned (I : List NodeId) (s s' : Session) : Prop where
  nodes_eq : s'.nodes = s.nodes
  next_eq : s'.next = s.next
  openScopes_eq : s'.openScopes = s.openScopes
  branchOf_eq : ∀ id, s'.branchOf id = s.branchOf id
  scopesOf_eq : ∀ id, id ∉ I → s'.scopesOf id = s.scopesOf id

namespace Assigned

theorem refl (s : Session) : Assigned I s s := ⟨rfl, rfl, rfl, fun _ => rfl, fun _ _ => rfl⟩

theorem trans {J : List NodeId} (h : Assigned I s s') (h' : Assigned J s' s'') : Assigned (I ++ J) s s'' where
  nodes_eq := h'.nodes_eq.trans h.nodes_eq
  next_eq := h'.next_eq.trans h.next_eq
  openScopes_eq := h'.openScopes_eq.trans h.openScopes_eq
  branchOf_eq id := (h'.branchOf_eq id).trans (h.branchOf_eq id)
  scopesOf_eq id hid := by
    rw [mem_append, not_or] at hid
    exact (h'.scopesOf_eq id hid.2).trans (h.scopesOf_eq id hid.1)

theorem keyAt_eq (h : Assigned I s s') (id : NodeId) : s'.keyAt id = s.keyAt id := by
  rw [keyAt, keyAt, h.nodes_eq]

theorem holds (h : Assigned I s s') (hn : Holds k s n) : Holds k s' n := hn.congr fun id _ => h.keyAt_eq id

end Assigned

abbrev assignFrom (j : Nat) : Node → Analysis Unit := tie assignStep (fun _ => (fail .tooDeep : Analysis Unit)) j

/-- A way to give chains to the nodes of trees that are less than `k` levels deep. -/
def Assigns (k : Nat) (self : Node → Analysis Unit) : Prop :=
  ∀ {s : Session} {chain : List NodeId} {c0 c : Node}, c0.key = c.key → Holds k s c → (c.ids k).Nodup →
    s.openScopes = chain.reverse → ∃ s', self c0 s = .ok () s' ∧ Assigned (c.ids k) s s' ∧ Chained k s' chain c

theorem Assigns.each (hself : Assigns k self) (hids : cs0.map (·.id) = cs.map (·.id)) (hholds : ∀ c ∈ cs, Holds k s c)
    (hnodup : (idsOf k cs).Nodup) (hopen : s.openScopes = chain.reverse) :
    ∃ s', (cs0.forM (fun c => current c >>= self) : Analysis Unit) s = .ok () s' ∧ Assigned (idsOf k cs) s s' ∧
      ∀ c ∈ cs, Chained k s' chain c := by
  replace hids := forall₂_of_map_id hids
  induction hids generalizing s with
  | nil => exact ⟨s, rfl, .refl s, by simp⟩
  | @cons c0 c cs0 cs hid _ ih =>
    have hc := hholds c mem_cons_self
    have hkeyc : s.keyAt c0.id = some c.key := hid ▸ hc.keyAt .self
    obtain ⟨hnodupc, hnodup, hdisjoint⟩ := nodup_append.1 (by simpa [idsOf] using hnodup : (c.ids k ++ idsOf k cs).Nodup)
    obtain ⟨c1, hcurrent, hkey⟩ := current_of_keyAt hkeyc
    obtain ⟨s1, hrun, hassigned, hchained⟩ := hself hkey hc hnodupc hopen
    obtain ⟨s2, hrest, hassigned', hchained'⟩ := ih (fun d hd => hassigned.holds (hholds d (mem_cons_of_mem _ hd)))
      hnodup (hassigned.openScopes_eq.trans hopen)
    refine ⟨s2, ?_, hassigned.trans hassigned', fun d hd => ?_⟩
    · change ((current c0 >>= self) >>= fun _ => cs0.forM _) s = _
      rw [bind_ok ((bind_ok hcurrent).trans hrun), hrest]
    · rcases mem_cons.1 hd with rfl | hd
      · exact hchained.congr fun id hid => hassigned'.scopesOf_eq id fun hid' => hdisjoint id hid id hid' rfl
      · exact hchained' d hd

def assignBelow (self : Node → Analysis Unit) (n : Node) : Analysis Unit := do
  let scopes := (← get).openScopes
  note n.id ({ · with scopes := some scopes })
  Pass.below self n

theorem Assigned.note (s : Session) (id : NodeId) (scopes : Option (List NodeId)) :
    Assigned [id] s { s with facts := s.facts.insert id { s.facts.getD id {} with scopes } } ∧
      scopesOf { s with facts := s.facts.insert id { s.facts.getD id {} with scopes } } id = scopes := by
  have hknown (i : NodeId) := known_note s id i { s.known id with scopes }
  refine ⟨⟨rfl, rfl, rfl, fun i => ?_, fun i hi => ?_⟩, ?_⟩
  · refine (congrArg Facts.afterLoop (hknown i)).trans ?_
    split
    · subst i
      rfl
    · rfl
  · exact congrArg Facts.scopes ((hknown i).trans (if_neg fun heq => hi (mem_singleton.2 heq.symm)))
  · exact congrArg Facts.scopes ((hknown id).trans (if_pos rfl))

theorem Assigns.below (hself : Assigns k self) (hkey : c0.key = c.key) (hholds : Holds (k + 1) s c)
    (hnodup : (c.ids (k + 1)).Nodup) (hopen : s.openScopes = (c.inside chain).reverse) :
    ∃ s', assignBelow self c0 s = .ok () s' ∧ Assigned (c.ids (k + 1)) s s' ∧ Chained (k + 1) s' chain c := by
  obtain ⟨hnote, hscopes⟩ := Assigned.note s c0.id (some s.openScopes)
  obtain ⟨hid, hnodup⟩ := nodup_cons.1 hnodup
  have hid0 := id_of_key hkey
  obtain ⟨s', hrun, hassigned, hchained⟩ := hself.each (childIds_of_outline (outline_of_key hkey))
    (fun d hd => hnote.holds (hholds.2 d hd)) hnodup hopen
  have htrans := hnote.trans hassigned
  rw [hid0] at htrans
  refine ⟨s', hrun, htrans, ?_, hchained⟩
  rw [hassigned.scopesOf_eq _ hid, ← hopen, ← hid0, hscopes]

theorem assigns (hk : k ≤ j) : Assigns k (assignFrom j) := by
  induction k generalizing j with
  | zero => exact fun _ hholds => hholds.elim
  | succ k ih =>
    obtain ⟨i, rfl⟩ := exists_succ_of_lt hk
    have hself : Assigns k (assignFrom i) := ih (by omega)
    intro s chain c0 c hkey hholds hnodup hopen
    have hrun : assignFrom (i + 1) c0 = within c0 (assignBelow (assignFrom i) c0) := rfl
    rw [hrun, within]
    have hinside : c.inside chain = if c0.opensScope then c.id :: chain else chain := by
      rw [inside, opensScope_of_outline (outline_of_key hkey)]
    cases hscope : c0.opensScope with
    | false =>
      rw [hscope] at hinside
      exact hself.below hkey hholds hnodup (by rw [hinside, hopen]; rfl)
    | true =>
      rw [hscope] at hinside
      have hopen' : s.openScopes ++ [c0.id] = (c.inside chain).reverse := by
        rw [hinside, if_pos rfl, reverse_cons, hopen, id_of_key hkey]
      obtain ⟨s', hrun, hassigned, hchained⟩ := hself.below (s := { s with openScopes := s.openScopes ++ [c0.id] }) hkey
        (hholds.congr fun _ _ => rfl) hnodup hopen'
      refine ⟨{ s' with openScopes := s'.openScopes.dropLast }, ?_, ?_, hchained.congr fun _ _ => rfl⟩
      · change (assignBelow (assignFrom i) c0 >>= _) { s with openScopes := s.openScopes ++ [c0.id] } = _
        rw [bind_ok hrun]
        rfl
      · refine ⟨hassigned.nodes_eq, hassigned.next_eq, ?_, hassigned.branchOf_eq, hassigned.scopesOf_eq⟩
        rw [hassigned.openScopes_eq]
        simp

theorem exists_assign (h : Holds k s n) (hnodup : (n.ids k).Nodup) (hopen : s.openScopes = []) (hk : k ≤ nestingLimit) :
    ∃ s', assign n s = .ok () s' ∧ Assigned (n.ids k) s s' ∧ Chained k s' [] n := by
  obtain ⟨n0, hcurrent, hkey⟩ := current_of_keyAt (h.keyAt .self)
  obtain ⟨s', hrun, hassigned⟩ := assigns hk hkey h hnodup (show s.openScopes = [].reverse from hopen)
  exact ⟨s', (bind_ok hcurrent).trans hrun, hassigned⟩

/-! ### Programs -/

/-- A session that knows a program, and has no branches for its loops yet. -/
structure Session.Knows (k : Nat) (s : Session) (n : Node) : Prop where
  holds : Holds k s n
  nodup : (n.ids k).Nodup
  lt : ∀ id ∈ n.ids k, id < s.next
  openScopes_eq : s.openScopes = []
  branchOf_eq : ∀ id, s.branchOf id = none

theorem Node.eq_of_mem_ids {d : Node} (h : (cs.flatMap (ids k)).Nodup) (hc : c ∈ cs) (hd : d ∈ cs) {id : NodeId}
    (hidc : id ∈ c.ids k) (hidd : id ∈ d.ids k) : c = d := by
  by_contra hne
  have : Std.Symm (Function.onFun List.Disjoint (ids k)) := ⟨fun _ _ hd _ h h' => hd h' h⟩
  exact (nodup_flatMap.1 h).2.forall hc hd hne hidc hidd

theorem Node.Within.eq_of_id {m m' : Node} (h : Holds k s n) (hnodup : (n.ids k).Nodup) (hm : m.Within n)
    (hm' : m'.Within n) (hid : m.id = m'.id) : m = m' := by
  induction k generalizing n with
  | zero => exact h.elim
  | succ k ih =>
    obtain ⟨hnot, hnodup⟩ := nodup_cons.1 hnodup
    have hmem {m c : Node} (hc : c ∈ n.children) (hm : m.Within c) : m.id ∈ c.ids k := (h.2 c hc).mem_ids hm
    cases hm with
    | self =>
      cases hm' with
      | self => rfl
      | part hc hm' => exact absurd (mem_flatMap.2 ⟨_, hc, hid ▸ hmem hc hm'⟩) hnot
    | @part _ c hc hm =>
      cases hm' with
      | self => exact absurd (mem_flatMap.2 ⟨_, hc, hid ▸ hmem hc hm⟩) hnot
      | part hc' hm' =>
        obtain rfl := eq_of_mem_ids hnodup hc hc' (hmem hc hm) (hid ▸ hmem hc' hm')
        exact ih (h.2 c hc) ((nodup_flatMap.1 hnodup).1 c hc) hm hm'

def partedIn (n : Node) (id : NodeId) : Prop := ∃ m : Node, m.Within n ∧ m.id = id ∧ m.parted = true

theorem assign_ok (h : s.Knows (k + 1) n) (hk : k + 1 ≤ nestingLimit) :
    ∃ s', assign n s = .ok () s' ∧ Ready (partedIn n) (k + 1) s' [] n ∧ ∀ id, s'.branchOf id = none := by
  obtain ⟨s', hrun, hassigned, hchained⟩ := exists_assign h.holds h.nodup h.openScopes_eq hk
  have hbranch (id : NodeId) : s'.branchOf id = none := (hassigned.branchOf_eq id).trans (h.branchOf_eq id)
  refine ⟨s', hrun, ⟨hassigned.holds h.holds, hchained, h.nodup, ?_, fun id _ => hbranch id,
    fun m hm => ⟨?_, fun hp => ⟨m, hm, rfl, hp⟩⟩⟩, hbranch⟩
  · rw [hassigned.next_eq]
    exact h.lt
  · rintro ⟨m', hm', hid, hparted⟩
    rwa [← hm'.eq_of_id h.holds h.nodup hm hid]

theorem lower_module {E : NodeId → Prop} {n0 : Node} (hn : n.shape = .module body)
    (hfit : Fit (Place.inBranch {} body) true body) (hready : Ready E (k + 1) s [] n)
    (hbranch : ∀ id, s.branchOf id = none) (hkey : n0.key = n.key) (hk : k ≤ j) (hlimit : k + 3 ≤ nestingLimit) :
    ∃ out s' body', lowerFrom (j + 1) n0 s = .ok [out] s' ∧ out.id = n.id ∧
      Holds (k + 3) s' (n.withShape (.module body')) ∧ Lowered false false true body body' := by
  have hopening : n.shape.opening? = some (.module, body, []) := by rw [hn]; rfl
  have hopened := hready.opened
  have hscope : n.inside [] = [n.id] := by simp [inside, opensScope, hn]
  have hchildren : n.children = body := by simp [hn]
  have hinner : Guides.Inner k s n body := hopened.inner fun c hc => hchildren ▸ hc
  have hctx : Context E s [] {} (n.ids (k + 1)) := ⟨by simp, by simp, by simp, fun id _ => hbranch id, by simp⟩
  have hctx' := hctx.inBranch hopened body fun f hf => by
    obtain ⟨c, hc, hwithin⟩ := hfit.regular.within hf
    exact hready.parted_iff f (.part (hchildren ▸ hc) hwithin)
  have hguides : Guides E k s (n.inside []) [n.id] (Place.inBranch {} body).found body := by
    rw [hscope]
    exact Guides.enter_module hinner hn (fun _ _ _ _ hsees => hsees) hlimit
  have hguides' (s1 s' : Session) (hquiet : Quiet s s1) (hmoved : Moved (idsOf k body) E s1 s')
      (hsettled : ∀ b ∈ body, ∃ t, Settled k s1 s' b t) :
      Guides E k s' (n.inside []) [n.id] (Place.inBranch {} body).found [] := by
    have hinner' : Guides.Inner k s' n [] := hopened.inner_moved (fun c hc => hchildren ▸ hc) (by simp)
      ((Moved.of_quiet hquiet).trans hmoved)
    rw [hscope]
    exact Guides.enter_module hinner' hn (fun s'' A hmoved' hA _ => hopened.sees hopening
      (fun id hid => (hctx'.outside id hid).2) hquiet hmoved hsettled s'' A hmoved' hA) hlimit
  obtain ⟨out, s', body', orelse', hblock, hid, hrebuilt⟩ := markBlock_ok (visits hk (by omega)) hopening
    ⟨hopened, hfit, .nil, hctx', hctx', hguides, hguides'⟩ hkey (by simp [Opening.parts]) rfl
  refine ⟨out, s', body', ?_, hid, hrebuilt.kept.holds, hrebuilt.lowered⟩
  obtain ⟨b0, e0, hn0, _, _⟩ := opening?_of_key hkey hopening
  obtain ⟨hshape, _⟩ := Shape.eq_shape_of_opening? hn0
  obtain ⟨_, _, _, shape⟩ := n0
  cases hshape
  exact hblock

theorem elseOfLoops_lowered (hn : n.shape = .module body) (hfit : Fit (Place.inBranch {} body) true body)
    (h : s.Knows (k + 1) n) (hlimit : k + 3 ≤ nestingLimit) :
    ∃ body' s', (do assign n; Lowering.run elseOfLoops n) s = .ok (n.withShape (.module body')) s' ∧
      Lowered false false true body body' := by
  obtain ⟨s1, hassign, hready, hbranch⟩ := assign_ok h (by omega)
  obtain ⟨n0, hcurrent, hkey⟩ := current_of_keyAt hready.holds.1
  obtain ⟨i, hi⟩ := exists_nestingLimit
  obtain ⟨out, s2, body', hrun, hid, hholds, hlowered⟩ :=
    lower_module hn hfit hready hbranch hkey (show k ≤ i by omega) hlimit
  obtain ⟨s3, hrefresh, _⟩ := refreshFrom_yields hholds.shallow hlimit hid
    (fun s' (hs' : Alike s2 s') m hm => (hs'.holds hholds).outline hm) (fun s' m hm hs' => hs'.record (hholds.keyAt hm)) s2
    (.refl s2)
  refine ⟨body', s3, ?_, hlowered⟩
  rw [bind_ok hassign]
  change (current n >>= _) s1 = _
  rw [bind_ok hcurrent]
  rw [← hi] at hrun
  exact (bind_ok hrun).trans hrefresh

/-! ### Programs that were recorded -/

theorem knows_of_recordAll (hdepth : n.Shallow k) (hnodup : (n.ids k).Nodup) (hk : k ≤ nestingLimit)
    (hlt : ∀ id ∈ n.ids k, id < s.next) (hopen : s.openScopes = []) (hbranch : ∀ id, s.branchOf id = none) :
    ∃ s', recordAll nestingLimit n s = .ok () s' ∧ s'.Knows k n := by
  obtain ⟨nodes, hrun, hheld, _⟩ := recordAll_ok hdepth hnodup hk s
  exact ⟨_, hrun, hheld, hnodup, hlt, hopen, hbranch⟩

/-! ### What the pass keeps -/

/-- For a program that is fit, the pass returns, and what it returns does with else parts ignored what the program
does: it ends in the same way, and with the same value of every variable but the mark. -/
theorem elseOfLoops_keeps_meaning (hn : n.shape = .module body) (hfit : Fit (Place.inBranch {} body) true body)
    (h : s.Knows (k + 1) n) (hlimit : k + 3 ≤ nestingLimit) :
    ∃ body' s', (do Scope.assign n; Lowering.run elseOfLoops n) s = .ok (n.withShape (.module body')) s' ∧
      ∀ (V : Type) (M : Meaning V) (fuel : Nat) (store : Store V),
        Meaning.Shadows (fun _ _ => True) (M.block fuel true body store) (M.block fuel false body' store) := by
  obtain ⟨body', s', hrun, hlowered⟩ := elseOfLoops_lowered hn hfit h hlimit
  refine ⟨body', s', hrun, fun V M fuel store => ?_⟩
  have hsim : M.Simulates fuel false false body body' := Meaning.simulates_of_lowered hlowered
  have hends := hsim store (store leftEarly)
  rw [Store.marked, Function.update_eq_self] at hends
  exact hends.imp fun _ _ _ => trivial

/-- A search in a list: the loop is left at the first item that is found, and else a variable is set. -/
def searchLoop : Node :=
  ⟨8, some 1, some 0, .forLoop
    { target := ⟨1, some 1, some 4, .name "a" .store⟩
      iter := ⟨2, some 1, some 9, .name "items" .load⟩
      body := [⟨5, some 2, some 4, .cond ⟨3, some 2, some 7, .name "a" .load⟩ [⟨4, some 3, some 8, .breakLoop⟩] []⟩]
      orelse := [⟨7, some 5, some 4, .assign [⟨6, some 5, some 4, .name "missing" .store⟩]
        ⟨9, some 5, some 14, .constant (.bool true) false⟩⟩] }⟩

def searchProgram : Node := ⟨10, none, none, .module [searchLoop]⟩

theorem fit_searchProgram : Fit (Place.inBranch {} [searchLoop]) true [searchLoop] := by
  have hfree {n : Node} (hdepth : n.Shallow 2) (h : ∀ m ∈ n.nodes 2, m.ident? ≠ some leftEarly) : n.Free :=
    fun m hm => h m ((mem_nodes hdepth).2 hm)
  have hplain {n : Node} (hdepth : n.Shallow 2) (h : ∀ m ∈ n.nodes 2, m.isBlock = false) : n.Plain :=
    fun m hm => h m ((mem_nodes hdepth).2 hm)
  have hhead : searchLoop.shape = Head.shape (.each _ _) _ _ := rfl
  refine .loop hhead (forall_mem_cons.2 ⟨?_, forall_mem_singleton.2 ?_⟩)
    (forall_mem_cons.2 ⟨?_, forall_mem_singleton.2 ?_⟩) (fun _ => ⟨rfl, rfl, _, rfl, rfl⟩) (.cond rfl ?_ ?_ ?_ .nil .nil)
    (.simple rfl ?_ ?_ .nil) .nil
  case refine_7 => exact .leave rfl rfl (fun _ => ⟨rfl, rfl⟩) (fun h => absurd h (by decide)) .nil
  all_goals first | exact hfree (by decide) (by decide) | exact hplain (by decide) (by decide)

theorem elseOfLoops_keeps_search :
    ∃ s : Session, s.Knows 4 searchProgram ∧ ∃ body' s',
      (do Scope.assign searchProgram; Lowering.run elseOfLoops searchProgram) s =
        .ok (searchProgram.withShape (.module body')) s' ∧
      ∀ (V : Type) (M : Meaning V) (fuel : Nat) (store : Store V),
        Meaning.Shadows (fun _ _ => True) (M.block fuel true [searchLoop] store) (M.block fuel false body' store) := by
  have hlimit : 6 ≤ nestingLimit := le_nestingLimit (by decide)
  obtain ⟨s, _, hknows⟩ := knows_of_recordAll (k := 4) (n := searchProgram) (s := { next := 11 })
    (by decide) (by decide) (by omega)
    (by decide) rfl (fun _ => rfl)
  exact ⟨s, hknows, elseOfLoops_keeps_meaning rfl fit_searchProgram hknows hlimit⟩

/-! ### Where one mark does not serve -/

theorem Node.Free.ne {x : String} {u : Usage} (h : n.Free) (hn : n.shape = .name x u) : x ≠ leftEarly := by
  rintro rfl
  obtain ⟨_, _, _, shape⟩ := n
  subst hn
  exact h _ .self rfl

theorem Node.Free.part {shape : Shape Node} (h : n.Free) (hn : n.shape = shape) (hc : c ∈ shape.children) : c.Free := by
  subst hn
  exact fun m hm => h m (.part hc hm)

def Meaning.truths : Meaning Bool where
  perform n s :=
    match n.shape with
    | .pass => some s
    | .assign [⟨_, _, _, .name x _⟩] ⟨_, _, _, .constant (.bool b) _⟩ => some (Function.update s x (some b))
    | _ => none
  test n s :=
    match n.shape with
    | .name x _ => s x
    | .compare ⟨_, _, _, .name x _⟩ [.notEq] [⟨_, _, _, .constant (.bool b) _⟩] => (s x).map (· != b)
    | _ => none
  items n _ :=
    match n.shape with
    | .list es _ => es.mapM fun e => match e.shape with
      | .constant (.bool b) _ => some b
      | _ => none
    | _ => none
  bind n v s :=
    match n.shape with
    | .name x _ => some (Function.update s x (some v))
    | _ => none
  truth := id
  perform_mark := by
    rintro n ⟨_, _, _, target⟩ ⟨_, _, _, value⟩ u k b s hn rfl rfl
    simp only [hn]
    rfl
  test_mark := by
    rintro n ⟨_, _, _, left⟩ ⟨_, _, _, right⟩ u k b s hn rfl rfl hs
    simp only [hn, hs]
    cases b <;> rfl
  perform_frame := by
    intro n hn s x
    split
    · rfl
    · rename_i y _ _ _ _ _ _ hshape
      have hy : y ≠ leftEarly := (hn.part hshape mem_cons_self).ne rfl
      simp [Store.marked, Function.update_comm hy]
    · rfl
  test_frame := by
    intro n hn s x
    split
    · rename_i hshape
      simp [Store.marked, hn.ne hshape]
    · rename_i y _ _ _ _ _ _ hshape
      have hy : y ≠ leftEarly := (hn.part hshape mem_cons_self).ne rfl
      simp [Store.marked, hy]
    · rfl
  items_frame _ _ _ := rfl
  bind_frame := by
    intro n hn v s x
    split
    · rename_i hshape
      simp [Store.marked, Function.update_comm (hn.ne hshape)]
    · rfl

def bothWays (source x : String) : Option (Option Bool × Option Bool) :=
  let work : Analysis (Node × Node) := do
    let n ← readProgram source
    assign n
    return (n, ← Lowering.run elseOfLoops n)
  match work {} with
  | .error _ _ => none
  | .ok (n, n') _ => do
    let (_, s) ← Meaning.truths.block 9 true (n.shape.body?.getD []) fun _ => none
    let (_, s') ← Meaning.truths.block 9 false (n'.shape.body?.getD []) fun _ => none
    return (s x, s' x)

/-- A loop with an else part stands before the break of a loop with an else part: the mark that both share is set
before the inner loop already, and the else part of this is lost. -/
theorem elseOfLoops_spoils_mark :
    bothWays "for a in [True]:\n    for b in []:\n        pass\n    else:\n        y = True\n    break\nelse:\n    x = True\n" "y" =
      some (some true, none) := by
  decide +kernel

end Polyglot
