import Polyglot.Proofs.Exact
import Polyglot.Proofs.LoopMarks

/-!
# Going through statements

The pass that turns the else parts of loops into branches takes each statement of a program to one that is `Lowered`,
by induction on the depth. What carries the induction is that a statement changes its own nodes only, so what was gone
through stays as it is and what comes later is found as it was.
-/
namespace Polyglot

open Effect Session Blocks List Node Shape

variable {o : Opening} {s1 : Session} {n0 : Node}

variable {E : NodeId → Prop} {k : Nat} {s s' s'' : Session} {p : Place} {marks : Bool} {c t n : Node} {b : Option Node}
  {I J chain enclosing : List NodeId} {cs body orelse : List Node}

/-! ### One statement after the other -/

theorem Context.moved (h : Context E s enclosing p I) (hmoved : Moved I E s s') : Context E s' enclosing p I where
  loop_mem := h.loop_mem
  branchOf_loop l hl hparted := by
    obtain ⟨hlt, hnotin⟩ := h.outside _ (h.loop_mem l hl)
    rw [hmoved.branchOf_eq _ hlt hnotin]
    exact h.branchOf_loop l hl hparted
  found_iff := h.found_iff
  branchOf_eq id hE := (hmoved.branchOf_eq' id hE).trans (h.branchOf_eq id hE)
  outside id hid := ⟨(h.outside id hid).1.trans_le hmoved.next_le, (h.outside id hid).2⟩

theorem Context.mono (h : Context E s enclosing p I) (hJ : J ⊆ I) : Context E s enclosing p J :=
  { h with outside := fun id hid => ⟨(h.outside id hid).1, fun hmem => (h.outside id hid).2 (hJ hmem)⟩ }

theorem Visited.weaken (h : Visited p marks k s' s'' c t b) (hs : s.next ≤ s'.next) :
    Visited p marks k s s'' c t b :=
  { h with
    settled := { h.settled with kept := h.settled.kept.weaken (List.Subset.refl _) hs }
    kept := fun d hd => (h.kept d hd).weaken (List.Subset.refl _) hs }

theorem Visited.moved (h : Visited p marks k s s' c t b) (hmoved : Moved J E s' s'') (hk : k ≠ 0)
    (hlt : ∀ id ∈ c.ids k, id < s'.next) (hdisjoint : ∀ id ∈ c.ids k, id ∉ J) (hJ : ∀ id ∈ J, id < s.next) :
    Visited p marks k s s'' c t b where
  settled := h.settled.moved hmoved hlt hdisjoint hJ
  turned := h.turned
  branchOf_eq :=
    (hmoved.branchOf_eq _ (hlt _ (id_mem_ids hk)) (hdisjoint _ (id_mem_ids hk))).trans h.branchOf_eq
  kept d hd := (h.kept d hd).moved hmoved hlt hdisjoint hJ

/-- A run that goes through a statement: it gives one statement, and changes nodes of the old one only. -/
def Passes (E : NodeId → Prop) (k : Nat) (p : Place) (marks : Bool) (s : Session) (c : Node)
    (run : EStateM.Result Fault Session (List Node)) : Prop :=
  ∃ out s' t b, run = .ok [out] s' ∧ out.id = c.id ∧ Moved (c.ids k) E s s' ∧ Visited p marks k s s' c t b

/-- A way to go through statements that are less than `k` levels deep. -/
def Visits (E : NodeId → Prop) (k : Nat) (self : Node → Analysis (List Node)) : Prop :=
  ∀ {s : Session} {chain enclosing : List NodeId} {p : Place} {marks : Bool} {c0 c : Node}, c0.key = c.key →
    Fit p marks [c] → Ready E k s chain c → Context E s enclosing p (c.ids k) →
    Guides E k s chain enclosing p.found [c] → Passes E k p marks s c (self c0 s)

section

variable {self : Rewrite}

theorem Visits.rest (hself : Visits E k self) (before : List Node) {after after0 : List Node} (hfit : Fit p marks after)
    (hids : after0.map (·.id) = after.map (·.id)) (hregular : Regular (before ++ after))
    (hnodup : (idsOf k (before ++ after)).Nodup) (hlt : ∀ id ∈ idsOf k (before ++ after), id < s.next)
    (hctx : Context E s enclosing p (idsOf k (before ++ after)))
    (hguides : Guides E k s chain enclosing p.found (before ++ after)) (hmoved : Moved (idsOf k (before ++ after)) E s s')
    (hdone : ∀ c ∈ before, ∃ t b, Visited p marks k s s' c t b) (hready : ∀ c ∈ after, Ready E k s' chain c) :
    ∃ (outs : List Node) (s'' : Session),
      (after0.mapM (fun c => current c >>= self) : Analysis _) s' = .ok (outs.map fun out => [out]) s'' ∧
      outs.map (·.id) = after.map (·.id) ∧ Moved (idsOf k (before ++ after)) E s s'' ∧
      ∀ c ∈ before ++ after, ∃ t b, Visited p marks k s s'' c t b := by
  replace hids := forall₂_of_map_id hids
  induction hids generalizing before s' with
  | nil => exact ⟨[], s', rfl, rfl, hmoved, by simpa using hdone⟩
  | @cons c0 c after0 after hid _ ih =>
    have hc : c ∈ before ++ c :: after := by simp
    have hsub : c.ids k ⊆ idsOf k (before ++ c :: after) := fun id hmem => mem_flatMap.2 ⟨c, hc, hmem⟩
    have hids_lt (d : Node) (hd : d ∈ before ++ c :: after) : ∀ id ∈ d.ids k, id < s.next :=
      fun id hmem => hlt id (mem_flatMap.2 ⟨d, hd, hmem⟩)
    have hreadyc := hready c mem_cons_self
    have hkeyc : s'.keyAt c0.id = some c.key := hid ▸ hreadyc.holds.keyAt .self
    have hk : k ≠ 0 := by
      rintro rfl
      exact hreadyc.holds
    -- while the statement is gone through, the others are settled
    have hsettled (d : Node) (hd : d ∈ before ++ after) : ∃ t, Settled k s s' d t := by
      rcases mem_append.1 hd with hd | hd
      · obtain ⟨t, _, ht⟩ := hdone d hd
        exact ⟨t, ht.settled⟩
      · exact ⟨d, .of_ready (hready d (mem_cons_of_mem _ hd)) (hregular.of_mem (by simp [hd]))⟩
    have hguidesc := hguides.one hmoved hsettled hnodup hlt fun id hmem => (hctx.outside id hmem).2
    obtain ⟨c1, hcurrent, hkey⟩ := current_of_keyAt hkeyc
    obtain ⟨out, s1, t, b, hrun, hout, hmoved1, hvisited⟩ :=
      hself hkey hfit.tail.1 hreadyc ((hctx.moved hmoved).mono hsub) hguidesc
    have hdisjoint (d : Node) (hd : d ∈ before ++ after) := Guides.disjoint_ids hnodup hd
    have hdone1 : ∀ d ∈ before ++ [c], ∃ t b, Visited p marks k s s1 d t b := by
      intro d hd
      rcases mem_append.1 hd with hd | hd
      · obtain ⟨u, e, hu⟩ := hdone d hd
        have hlt' (id : NodeId) (hmem : id ∈ d.ids k) : id < s'.next :=
          (hids_lt d (mem_append_left _ hd) id hmem).trans_le hmoved.next_le
        exact ⟨u, e, hu.moved hmoved1 hk hlt' (hdisjoint d (mem_append_left _ hd)) (hids_lt c hc)⟩
      · obtain rfl := mem_singleton.1 hd
        exact ⟨t, b, hvisited.weaken hmoved.next_le⟩
    have hready1 (d : Node) (hd : d ∈ after) : Ready E k s1 chain d :=
      (hready d (mem_cons_of_mem _ hd)).moved hmoved1 (hdisjoint d (mem_append_right _ hd))
    have hmoved' := hmoved.trans (hmoved1.mono hsub)
    have happend : before ++ c :: after = before ++ [c] ++ after := by simp
    rw [happend] at hregular hnodup hlt hctx hguides hmoved' ⊢
    obtain ⟨outs, s2, hrest, houts, hmoved2, hvisited2⟩ :=
      ih (before ++ [c]) hfit.tail.2 hregular hnodup hlt hctx hguides hmoved' hdone1 hready1
    refine ⟨out :: outs, s2, ?_, by rw [map_cons, map_cons, hout, houts], hmoved2, hvisited2⟩
    rw [mapM_cons, bind_ok ((bind_ok hcurrent).trans hrun), bind_ok hrest]
    rfl

theorem Visits.many (hself : Visits E k self) {cs0 : List Node} (hfit : Fit p marks cs)
    (hids : cs0.map (·.id) = cs.map (·.id)) (hready : ∀ c ∈ cs, Ready E k s chain c) (hnodup : (idsOf k cs).Nodup)
    (hctx : Context E s enclosing p (idsOf k cs)) (hguides : Guides E k s chain enclosing p.found cs) :
    ∃ outs s', Lowering.many self cs0 s = .ok outs s' ∧ outs.map (·.id) = cs.map (·.id) ∧
      Moved (idsOf k cs) E s s' ∧ ∀ c ∈ cs, ∃ t b, Visited p marks k s s' c t b := by
  have hlt (id : NodeId) (hid : id ∈ idsOf k cs) : id < s.next := by
    obtain ⟨c, hc, hid⟩ := mem_flatMap.1 hid
    exact (hready c hc).lt id hid
  obtain ⟨outs, s', hrun, houts, hmoved, hvisited⟩ :=
    hself.rest [] hfit hids hfit.regular hnodup hlt hctx hguides (.refl s) (by simp) hready
  refine ⟨outs, s', ?_, houts, hmoved, hvisited⟩
  refine (bind_ok hrun).trans ?_
  rw [← flatMap_def, flatMap_singleton']
  rfl

/-- In the second body of a block the mark is not set, and need not be. -/
theorem lowered_of_visited (hfit : Fit p false cs) (hvisited : ∀ c ∈ cs, ∃ t b, Visited p false k s s' c t b) :
    ∃ cs', cs'.map (·.id) = cs.map (·.id) ∧ Lowered p.leaving p.watched false cs cs' ∧
      ∀ t ∈ cs', Kept (idsOf k cs) (k + 2) s s' t := by
  induction cs with
  | nil => exact ⟨[], rfl, .nil, by simp⟩
  | cons c cs ih =>
    obtain ⟨hfitc, hfit⟩ := hfit.tail
    obtain ⟨cs', hids, hlowered, hkept⟩ := ih hfit fun d hd => hvisited d (mem_cons_of_mem _ hd)
    obtain ⟨t, b, hc⟩ := hvisited c mem_cons_self
    refine ⟨t :: cs', by rw [map_cons, map_cons, hc.settled.id_eq, hids], ?_, fun d hd => ?_⟩
    · cases hc.turned with
      | same _ h => exact h hlowered
      | leave hbreak ht =>
        obtain ⟨l, hl, hparted, _⟩ := hfitc.of_break hbreak
        rw [leaving_eq hl] at hlowered ⊢
        cases hp : l.parted with
        | true => exact absurd (hparted hp).1 (by simp)
        | false =>
          rw [hp] at hlowered
          rw [ht]
          exact .leave hbreak hlowered
      | branch hmarks => cases hmarks
    · rcases mem_cons.1 hd with rfl | hd
      · exact hc.settled.kept.weaken (by simp) le_rfl
      · exact (hkept d hd).weaken (by simp) le_rfl

/-! ### Blocks -/

section

variable (hn : n.shape.opening? = some (o, body, orelse))
include hn

theorem children_of_opening : n.children = o.parts ++ (body ++ orelse) := by
  rw [Node.children, children_of_opening? hn, append_assoc]

theorem mem_children_of_body (hc : c ∈ body ∨ c ∈ orelse) : c ∈ n.children := by
  rw [children_of_opening hn]
  exact mem_append_right _ (mem_append.2 hc)

theorem mem_children_of_part (hc : c ∈ o.parts) : c ∈ n.children := by
  rw [children_of_opening hn]
  exact mem_append_left _ hc

theorem bodies_subset : idsOf k (body ++ orelse) ⊆ idsOf k n.children := idsOf_subset fun _ hc => mem_children_of_body hn (mem_append.1 hc)

end

structure Opened (E : NodeId → Prop) (k : Nat) (s : Session) (chain : List NodeId) (n : Node) : Prop where
  keyAt_eq : s.keyAt n.id = some n.key
  scopesOf_eq : s.scopesOf n.id = some (n.inside chain).reverse
  nodup : (n.ids (k + 1)).Nodup
  lt : ∀ id ∈ n.ids (k + 1), id < s.next
  ready : ∀ c ∈ n.children, Ready E k s (n.inside chain) c

theorem Session.Ready.opened (h : Ready E (k + 1) s chain n) : Opened E k s chain n :=
  ⟨h.holds.1, h.chained.1, h.nodup, h.lt, fun _ hc => h.part hc⟩

namespace Opened

variable (h : Opened E k s chain n)
include h

theorem id_lt : n.id < s.next := h.lt _ (id_mem_ids (by omega))

theorem id_not_mem : n.id ∉ idsOf k n.children := (nodup_cons.1 h.nodup).1

theorem nodup_children : (idsOf k n.children).Nodup := (nodup_cons.1 h.nodup).2

/-- What stands before the bodies has no identity in common with them, -/
theorem parts_disjoint (hn : n.shape.opening? = some (o, body, orelse)) :
    ∀ id ∈ idsOf k o.parts, id < s.next ∧ id ∉ idsOf k (body ++ orelse) := by
  have hnodup := h.nodup_children
  rw [children_of_opening hn, idsOf, flatMap_append] at hnodup
  refine fun id hid => ⟨h.lt id (mem_cons_of_mem _ ?_), fun hid' => (nodup_append.1 hnodup).2.2 id hid id hid' rfl⟩
  exact idsOf_subset (fun _ => mem_children_of_part hn) hid

/-- nor has one body with the other. -/
theorem nodup_bodies (hn : n.shape.opening? = some (o, body, orelse)) :
    (idsOf k body).Nodup ∧ (idsOf k orelse).Nodup ∧ ∀ id ∈ idsOf k body, id ∉ idsOf k orelse := by
  have hnodup := h.nodup_children
  rw [children_of_opening hn, idsOf, flatMap_append, flatMap_append] at hnodup
  obtain ⟨hbody, horelse, hdisjoint⟩ := nodup_append.1 (nodup_append.1 hnodup).2.1
  exact ⟨hbody, horelse, fun id hid hid' => hdisjoint id hid id hid' rfl⟩

theorem moved (hmoved : Moved [n.id] E s s') (hkey : s'.keyAt n.id = s.keyAt n.id) :
    Opened E k s' chain n where
  keyAt_eq := hkey.trans h.keyAt_eq
  scopesOf_eq := (hmoved.scopesOf_eq _ h.id_lt).trans h.scopesOf_eq
  nodup := h.nodup
  lt id hid := (h.lt id hid).trans_le hmoved.next_le
  ready c hc := by
    refine (h.ready c hc).moved hmoved fun id hid hmem => h.id_not_mem ?_
    rw [mem_singleton] at hmem
    exact mem_flatMap.2 ⟨c, hc, hmem ▸ hid⟩

end Opened

/-- What is known when the parts of a block were gone through: the places of its bodies, and that from inside the block
a search still finds the loop that it should. -/
structure Passed (E : NodeId → Prop) (k : Nat) (q q' : Place) (s s' : Session) (chain enclosing : List NodeId) (n : Node)
    (body orelse : List Node) : Prop where
  moved : Moved (idsOf k (body ++ orelse)) E s s'
  visited : ∀ c ∈ body, ∃ t b, Visited q true k s s' c t b
  visited_orelse : ∀ c ∈ orelse, ∃ t b, Visited q' false k s s' c t b
  search : (∀ f, q'.found = some f → f.parted = true → f.id ∈ n.id :: enclosing) →
    Finds (Scope.findByKindFrom isLoop (n.inside chain)) s' q'.found

/-- A block that is about to be gone through: its bodies fit their places, and from inside of each a search finds the loop
that it should, from the second also when the first was gone through. -/
structure Entered (E : NodeId → Prop) (k : Nat) (q q' : Place) (s : Session) (chain enclosing : List NodeId) (n : Node)
    (body orelse : List Node) : Prop where
  opened : Opened E k s chain n
  fit : Fit q true body
  fit' : Fit q' false orelse
  ctx : Context E s (n.id :: enclosing) q (idsOf k n.children)
  ctx' : Context E s (n.id :: enclosing) q' (idsOf k n.children)
  guides : Guides E k s (n.inside chain) (n.id :: enclosing) q.found body
  guides' : ∀ s1 s', Quiet s s1 → Moved (idsOf k body) E s1 s' → (∀ b ∈ body, ∃ t, Settled k s1 s' b t) →
    Guides E k s' (n.inside chain) (n.id :: enclosing) q'.found orelse

variable {q q' : Place} {outs outs' : List Node}

/-- What is recorded for a block differs in the content of its statements only. -/
theorem commit_block (hn : n.shape.opening? = some (o, body, orelse)) (hkey : n0.key = n.key) (hs : s.keyAt n.id = some n.key)
    (houts : outs.map (·.id) = body.map (·.id)) (houts' : outs'.map (·.id) = orelse.map (·.id)) :
    ∃ s', Lowering.commit n0 (o.shape outs outs') s = .ok (n.withShape (o.shape outs outs')) s' ∧ Quiet s s' := by
  obtain ⟨hshape, hadmits⟩ := eq_shape_of_opening? hn
  have hadmits' : o.Admits outs' := fun ho => by simpa [hadmits ho] using houts'
  have hkey' : (n.withShape (o.shape outs outs')).key = n.key := by
    rw [key_withShape hadmits' hadmits houts houts', ← hshape, withShape_shape]
  have hfunction (f : Function Node) : o.shape outs outs' ≠ .functionDef f := by
    intro h
    cases o with
    | loop head => cases head <;> cases h
    | _ => cases h
  refine ⟨_, congrArg (withShape · _) (withShape_of_key hkey) ▸ id_of_key hkey ▸ Lowering.commit_ok hfunction, ?_⟩
  exact ⟨Alike.record (n := n.withShape (o.shape outs outs')) (.refl s) (by rw [hkey']; exact hs), rfl, rfl⟩

structure Rebuilt (E : NodeId → Prop) (k : Nat) (q q' : Place) (s s' : Session) (n : Node) (o : Opening)
    (body orelse body' orelse' : List Node) : Prop where
  moved : Moved (n.ids (k + 1)) E s s'
  kept : Kept (n.ids (k + 1)) (k + 3) s s' (n.withShape (o.shape body' orelse'))
  lowered : Lowered q.leaving q.watched true body body'
  lowered_orelse : Lowered q'.leaving q'.watched false orelse orelse'
  ids_eq : orelse'.map (·.id) = orelse.map (·.id)
  kept_orelse : ∀ t ∈ orelse', Kept (idsOf k orelse) (k + 2) s s' t
  branchOf_eq : s'.branchOf n.id = s.branchOf n.id

variable (hself : Visits E k self) (hn : n.shape.opening? = some (o, body, orelse))
  (h : Entered E k q q' s chain enclosing n body orelse) (hkey : n0.key = n.key)
  (hparts : ∀ c ∈ o.parts, Yields (Quiet s) (Lowering.one self c) c)
include hself hn h hkey hparts

theorem descend_ok :
    ∃ outs outs' s', Lowering.descend self n0 s = .ok (n.withShape (o.shape outs outs')) s' ∧
      outs.map (·.id) = body.map (·.id) ∧ outs'.map (·.id) = orelse.map (·.id) ∧
      Passed E k q q' s s' chain enclosing n body orelse := by
  have hsubc := bodies_subset (k := k) hn
  obtain ⟨hnodup, hnodup', hdisjoint⟩ := h.opened.nodup_bodies hn
  obtain ⟨b0, e0, hopening, hb0, he0⟩ := opening?_of_key hkey hn
  -- first what stands before the bodies
  obtain ⟨s1, hrun1, hquiet⟩ := Yields.mapM_same hparts s (.refl s)
  have hmoved1 (I : List NodeId) : Moved I E s s1 := .of_quiet hquiet
  have hready1 (c : Node) (hc : c ∈ body ∨ c ∈ orelse) : Ready E k s1 (n.inside chain) c :=
    (h.opened.ready c (mem_children_of_body hn hc)).moved (hmoved1 []) fun _ _ => not_mem_nil
  -- then the first body
  obtain ⟨outs, s2, hrun2, houts, hmoved2, hvisited⟩ := hself.many h.fit hb0 (fun c hc => hready1 c (.inl hc)) hnodup
    ((h.ctx.moved (hmoved1 _)).mono fun id hid => hsubc (idsOf_left hid)) (h.guides.moved (hmoved1 _))
  have hready2 (c : Node) (hc : c ∈ orelse) : Ready E k s2 (n.inside chain) c :=
    (hready1 c (.inr hc)).moved hmoved2 fun id hid hid' => hdisjoint id hid' (mem_flatMap.2 ⟨c, hc, hid⟩)
  have hsettled (c : Node) (hc : c ∈ body) : ∃ t, Settled k s1 s2 c t := by
    obtain ⟨t, _, ht⟩ := hvisited c hc
    exact ⟨t, ht.settled⟩
  have hguides2 := h.guides' s1 s2 hquiet hmoved2 hsettled
  -- then the second body
  have hctx2 := ((h.ctx'.mono hsubc).moved (hmoved1 _)).moved (hmoved2.mono idsOf_left)
  obtain ⟨outs', s3, hrun3, houts', hmoved3, hvisited'⟩ :=
    hself.many h.fit' he0 hready2 hnodup' (hctx2.mono idsOf_right) hguides2
  have hmoved : Moved (idsOf k (body ++ orelse)) E s s3 :=
    ((hmoved1 _).trans (hmoved2.mono idsOf_left)).trans (hmoved3.mono idsOf_right)
  have hkey3 : s3.keyAt n.id = some n.key :=
    (hmoved.keyAt_eq _ h.opened.id_lt fun hid => h.opened.id_not_mem (hsubc hid)).trans h.opened.keyAt_eq
  obtain ⟨s4, hcommit, hquiet4⟩ := commit_block hn hkey hkey3 houts houts'
  have hmoved4 (I : List NodeId) := Moved.of_quiet (I := I) (E := E) hquiet4
  have htraverse : n0.shape.traverse (Lowering.one self) (Lowering.many self) s = .ok (o.shape outs outs') s3 :=
    traverse_opening hopening (fun _ => rfl) hrun1 hrun2 hrun3
  have hlt {c : Node} (hc : c ∈ body ∨ c ∈ orelse) (id : NodeId) (hid : id ∈ c.ids k) : id < s1.next :=
    (hready1 c hc).lt id hid
  have hk {c : Node} (hc : c ∈ body ∨ c ∈ orelse) : k ≠ 0 := by
    rintro rfl
    exact (hready1 c hc).holds
  have hbody (c : Node) (hc : c ∈ body) : ∃ t b, Visited q true k s1 s3 c t b := by
    obtain ⟨t, b, ht⟩ := hvisited c hc
    refine ⟨t, b, ht.moved hmoved3 (hk (.inl hc)) (fun id hid => ?_) (fun id hid hid' => ?_) fun id hid => ?_⟩
    · exact (hlt (.inl hc) id hid).trans_le hmoved2.next_le
    · exact hdisjoint id (mem_flatMap.2 ⟨c, hc, hid⟩) hid'
    · obtain ⟨d, hd, hid⟩ := mem_flatMap.1 hid
      exact hlt (.inr hd) id hid
  have hlast {q : Place} {marks : Bool} {s0 : Session} {c : Node} (hc : c ∈ body ∨ c ∈ orelse) (hs : s.next ≤ s0.next)
      (hc' : ∃ t b, Visited q marks k s0 s3 c t b) : ∃ t b, Visited q marks k s s4 c t b := by
    obtain ⟨t, b, ht⟩ := hc'
    refine ⟨t, b, (ht.moved (hmoved4 []) (hk hc) (fun id hid => ?_) (fun _ _ => not_mem_nil)
      fun _ h => absurd h not_mem_nil).weaken hs⟩
    exact (h.opened.lt id (ids_subset_of_mem (mem_children_of_body hn hc) hid)).trans_le hmoved.next_le
  have horelse (c : Node) (hc : c ∈ orelse) :=
    hlast (.inr hc) ((hmoved1 []).next_le.trans hmoved2.next_le) (hvisited' c hc)
  refine ⟨outs, outs', _, (bind_ok htraverse).trans hcommit, houts, houts', hmoved.trans (hmoved4 _),
    fun c hc => hlast (.inl hc) (hmoved1 []).next_le (hbody c hc), horelse, fun hfound => ?_⟩
  refine hguides2 _ (· ∈ n.id :: enclosing) (hmoved3.trans (hmoved4 _)) (fun id hid => .inl hid) (fun c hc => ?_) hfound
  obtain ⟨t, b, ht⟩ := horelse c hc
  exact ht.settled.sees fun id hid hin => (h.ctx'.outside id hin).2 (hsubc (idsOf_right (mem_flatMap.2 ⟨c, hc, hid⟩)))

theorem markBlock_ok (hfound : q'.found = q.found) :
    ∃ out s' body' orelse', markBlock self n0 s = .ok [out] s' ∧ out.id = n.id ∧
      Rebuilt E k q q' s s' n o body orelse body' orelse' := by
  obtain ⟨outs, outs', s1, hdescend, houts, houts', hpassed⟩ := descend_ok hself hn h hkey hparts
  have hsub := bodies_subset (k := k) hn
  have hid : n.id ∉ idsOf k (body ++ orelse) := fun hmem => h.opened.id_not_mem (hsub hmem)
  obtain ⟨_, hadmits⟩ := eq_shape_of_opening? hn
  have hscopes : s1.scopesOf n.id = some (n.inside chain).reverse :=
    (hpassed.moved.scopesOf_eq _ h.opened.id_lt).trans h.opened.scopesOf_eq
  have hsearch (c : Node) (hc : c ∈ body) (hbreak : c.shape = .breakLoop) :
      Finds (Scope.findByKind isLoop (n.inside chain).reverse) s1 q.found := by
    rw [Scope.findByKind, reverse_reverse, ← hfound]
    obtain ⟨l, hl, hparted, hunparted⟩ := (h.fit.of_mem hc).of_break hbreak
    refine hpassed.search fun f hf hp => ?_
    rw [hfound] at hf
    cases hlp : l.parted with
    | true =>
      obtain rfl : l = f := Option.some.inj ((hparted hlp).2.symm.trans hf)
      exact h.ctx.loop_mem l hl
    | false =>
      rw [hunparted hlp rfl f hf] at hp
      cases hp
  have hlt (id : NodeId) (hid : id ∈ idsOf k (body ++ orelse)) : id < s.next := h.opened.lt id (mem_cons_of_mem _ (hsub hid))
  have hlt1 {I : List NodeId} (hI : I ⊆ idsOf k (body ++ orelse)) (id : NodeId) (hid : id ∈ I) : id < s1.next :=
    (hlt id (hI hid)).trans_le hpassed.moved.next_le
  obtain ⟨outs2, body', s2, hmark, hmoved2, houts2, hlowered, hkept⟩ :=
    markBody_ok (n := n.withShape (o.shape outs outs')) hpassed.visited (h.ctx.moved (hpassed.moved.mono hsub)) h.fit houts
      hsearch hscopes (hlt1 idsOf_left) hpassed.moved.next_le
  obtain ⟨orelse', hids', hlowered', hkept'⟩ := lowered_of_visited h.fit' hpassed.visited_orelse
  obtain ⟨s3, hedit, hkey3, hmoved3, hbranch⟩ : ∃ s3, markBlock self n0 s = .ok [n.withShape (o.shape outs2 outs')] s3 ∧
      s3.keyAt n.id = some (n.withShape (o.shape outs2 outs')).key ∧ Moved [n.id] E s2 s3 ∧
      s3.branchOf n.id = s2.branchOf n.id := by
    refine ⟨_, ?_, (keyAt_insert (n := n.withShape (o.shape outs2 outs')) _).trans (if_pos rfl),
      Moved.record (n := n.withShape (o.shape outs2 outs')) mem_cons_self, rfl⟩
    unfold markBlock
    rw [bind_ok hdescend]
    cases o with
    | module | cond => exact (bind_ok hmark).trans rfl
    | loop head => cases head <;> exact (bind_ok hmark).trans rfl
  have hmoved : Moved (n.id :: idsOf k (body ++ orelse)) E s s3 :=
    ((hpassed.moved.mono (subset_cons_self _ _)).trans (hmoved2.mono (nil_subset _))).trans
      (hmoved3.mono (by simp))
  -- the node itself comes last and is in no part of it
  have hlast {I : List NodeId} {t : Node} (ht : Kept I (k + 2) s s2 t) (hI : I ⊆ idsOf k (body ++ orelse)) :
      Kept I (k + 2) s s3 t := by
    refine ht.moved hmoved3 (fun id hmem => ?_) (fun id hmem hn => ?_) fun id hmem => ?_
    · exact (hlt1 hI id hmem).trans_le hmoved2.next_le
    · exact hid (mem_singleton.1 hn ▸ hI hmem)
    · exact mem_singleton.1 hmem ▸ h.opened.id_lt
  have hkept3 (t : Node) (ht : t ∈ body') := hlast (hkept t ht) idsOf_left
  have hkept3' (t : Node) (ht : t ∈ orelse') :=
    hlast ((hkept' t ht).moved hmoved2 (hlt1 idsOf_right) (by simp) (by simp)) idsOf_right
  refine ⟨_, _, body', orelse', hedit, rfl, hmoved.mono ?_, .block ?_ ?_ ?_ ?_, hlowered, hlowered', hids', hkept3', ?_⟩
  · exact cons_subset_cons _ hsub
  · exact fun ho => by simpa [hadmits ho] using hids'
  · refine hkey3.trans (congrArg some (key_withShape (fun ho => ?_) (fun ho => ?_) houts2 ?_))
    · simpa [hadmits ho] using houts'
    · simpa [hadmits ho] using hids'
    · exact houts'.trans hids'.symm
  · exact .inl (id_mem_ids (by omega))
  · intro c hc
    rcases mem_append.1 hc with hc | hc
    · rcases mem_append.1 hc with hc | hc
      · have hcn := mem_children_of_part hn hc
        have hready := h.opened.ready c hcn
        refine .of_holds (hmoved.holds hready.holds hready.lt fun id hmem hin => ?_) (by omega) (ids_subset_of_mem hcn)
        rcases mem_cons.1 hin with rfl | hin
        · exact h.opened.id_not_mem (mem_flatMap.2 ⟨c, hcn, hmem⟩)
        · exact (h.opened.parts_disjoint hn id (mem_flatMap.2 ⟨c, hc, hmem⟩)).2 hin
      · exact (hkept3 c hc).weaken (fun id h => mem_cons_of_mem _ (hsub (idsOf_left h))) le_rfl
    · exact (hkept3' c hc).weaken (fun id h => mem_cons_of_mem _ (hsub (idsOf_right h))) le_rfl
  · calc s3.branchOf n.id = s2.branchOf n.id := hbranch
      _ = s1.branchOf n.id :=
        hmoved2.branchOf_eq _ (h.opened.id_lt.trans_le hpassed.moved.next_le) not_mem_nil
      _ = s.branchOf n.id := hpassed.moved.branchOf_eq _ h.opened.id_lt hid

end

/-! ### Entering a block -/

namespace Context

theorem leaving_eq_false (h : Context E s enclosing p I) (hwatched : p.watched = false) : p.leaving = false := by
  cases hl : p.loop with
  | none => simp [Place.leaving, hl]
  | some l =>
    rw [leaving_eq hl, Bool.eq_false_iff]
    intro hparted
    rw [(h.branchOf_loop l hl hparted).1] at hwatched
    cases hwatched

variable (h : Context E s enclosing p (n.ids (k + 1))) (hopened : Opened E k s chain n)
include h hopened

omit hopened in
theorem foundIn_iff (hparted : E n.id ↔ n.parted = true) (f : Node) (hf : p.foundIn n = some f) :
    E f.id ↔ f.parted = true := by
  unfold Place.foundIn at hf
  split at hf
  · cases hf
    exact hparted
  · exact h.found_iff f hf

theorem outside_cons (id : NodeId) (hid : id ∈ n.id :: enclosing) : id < s.next ∧ id ∉ idsOf k n.children := by
  rcases mem_cons.1 hid with rfl | hid
  · exact ⟨hopened.id_lt, hopened.id_not_mem⟩
  · obtain ⟨hlt, hnot⟩ := h.outside id hid
    exact ⟨hlt, fun hmem => hnot (mem_cons_of_mem _ hmem)⟩

theorem inBranch (body : List Node) (hparted : ∀ f, lastLoop body = some f → (E f.id ↔ f.parted = true)) :
    Context E s (n.id :: enclosing) (p.inBranch body) (idsOf k n.children) where
  loop_mem l hl := mem_cons_of_mem _ (h.loop_mem l hl)
  branchOf_loop := h.branchOf_loop
  found_iff f hf := by
    rcases Option.or_eq_some_iff.1 hf with hf | ⟨_, hf⟩
    · exact hparted f hf
    · exact h.found_iff f hf
  branchOf_eq := h.branchOf_eq
  outside := h.outside_cons hopened

variable (hparted : E n.id ↔ n.parted = true)
include hparted

theorem inLoop (hbranch : n.parted = true → (s.branchOf n.id).isSome = true) :
    Context E s (n.id :: enclosing) (p.inLoop n) (idsOf k n.children) where
  loop_mem l hl := by
    cases hl
    exact mem_cons_self
  branchOf_loop l hl hp := by
    cases hl
    exact ⟨by simp [Place.inLoop, hp], hbranch hp⟩
  found_iff := h.foundIn_iff hparted
  branchOf_eq := h.branchOf_eq
  outside := h.outside_cons hopened

theorem inElse : Context E s (n.id :: enclosing) (p.inElse n) (idsOf k n.children) where
  loop_mem l hl := mem_cons_of_mem _ (h.loop_mem l hl)
  branchOf_loop := h.branchOf_loop
  found_iff := h.foundIn_iff hparted
  branchOf_eq := h.branchOf_eq
  outside := h.outside_cons hopened

end Context

namespace Opened

variable (h : Opened E k s chain n)
include h

theorem inner (hcs : ∀ c ∈ cs, c ∈ n.children) : Guides.Inner k s n cs where
  keyAt_eq := h.keyAt_eq
  lt := h.id_lt
  not_mem hid := h.id_not_mem (idsOf_subset hcs hid)
  subset _ hid := mem_cons_of_mem _ (idsOf_subset hcs hid)

theorem inner_moved (hbody : ∀ c ∈ body, c ∈ n.children) (hcs : ∀ c ∈ cs, c ∈ n.children)
    (hmoved : Moved (idsOf k body) E s s') : Guides.Inner k s' n cs where
  keyAt_eq := (h.inner hbody).moved hmoved
  lt := h.id_lt.trans_le hmoved.next_le
  not_mem := (h.inner hcs).not_mem
  subset := (h.inner hcs).subset

/-- From inside the second body of a block, a search in the first one goes as before. -/
theorem sees (hn : n.shape.opening? = some (o, body, orelse))
    (houtside : ∀ id ∈ n.id :: enclosing, id ∉ idsOf k n.children) (hquiet : Quiet s s1) (hmoved : Moved (idsOf k body) E s1 s') (hsettled : ∀ b ∈ body, ∃ t, Settled k s1 s' b t) (s'' : Session)
    (A : NodeId → Prop) (hmoved' : Moved (idsOf k orelse) E s' s'')
    (hA : ∀ id, A id → id ∈ n.id :: enclosing ∨ id ∈ idsOf k orelse) (c : Node) (hc : c ∈ body) :
    Sees A (k + 2) s'' c := by
  have hsub : idsOf k body ⊆ idsOf k n.children := fun id hid => bodies_subset hn (idsOf_left hid)
  have hsub' : idsOf k orelse ⊆ idsOf k n.children := fun id hid => bodies_subset hn (idsOf_right hid)
  have hlt (id : NodeId) (hid : id ∈ idsOf k n.children) : id < s1.next := by
    rw [hquiet.next]
    exact h.lt id (mem_cons_of_mem _ hid)
  have hbody (id : NodeId) (hid : id ∈ c.ids k) : id ∈ idsOf k body := mem_flatMap.2 ⟨c, hc, hid⟩
  obtain ⟨_, _, hdisjoint⟩ := h.nodup_bodies hn
  obtain ⟨t, ht⟩ := hsettled c hc
  refine (ht.moved hmoved' (fun id hid => ?_) (fun id hid => hdisjoint id (hbody id hid))
    fun id hid => hlt id (hsub' hid)).sees fun id hid hAid => ?_
  · exact (hlt id (hsub (hbody id hid))).trans_le hmoved.next_le
  · rcases hA id hAid with hin | hin
    · exact houtside id hin (hsub (hbody id hid))
    · exact hdisjoint id (hbody id hid) hin

end Opened

/-! ### The pass -/

theorem elseOfLoops_plain (self : Rewrite) (n : Node) (h : n.isBlock = false) :
    elseOfLoops self n = Lowering.through self n := by
  obtain ⟨_, _, _, shape⟩ := n
  cases shape <;> first | rfl | cases h

abbrev lowerFrom (j : Nat) : Node → Analysis (List Node) := tie elseOfLoops (fun _ => fail .tooDeep) j

section

variable {j : Nat} {n0 test : Node} {head : Head}

theorem mem_ids_of_loopOf (h : Holds k s c) (hregular : Regular [c]) (f : Node) (hf : c.loopOf = some f) :
    f.Within c ∧ f.id ∈ c.ids k := by
  obtain ⟨n, hn, hwithin⟩ := hregular.within (Lowered.lastLoop_singleton c ▸ hf)
  rw [mem_singleton.1 hn] at hwithin
  exact ⟨hwithin, h.mem_ids hwithin⟩

theorem visit_leaf (hleaf : c.isLeaf = true) (hplain : c.Plain) (hready : Ready E k s chain c) (hkey : n0.key = c.key)
    (hk : k ≤ j) (hturned : Turned p.leaving p.watched marks c c none) : Passes E k p marks s c (lowerFrom j n0 s) := by
  obtain rfl := eq_of_key hkey (opening?_leaf hleaf)
  obtain ⟨s', hrun, hquiet⟩ := Lowering.tie_plain elseOfLoops_plain hready.holds hplain hk s (.refl s)
  have hmoved (I : List NodeId) : Moved I E s s' := .of_quiet hquiet
  have hready' := hready.moved (hmoved []) fun _ _ => not_mem_nil
  have hid : n0.id ∈ n0.ids k := hready.holds.mem_ids .self
  exact ⟨n0, s', n0, none, hrun, rfl, hmoved _, .of_ready hready' (.leaf hleaf .nil), hturned, hready'.branchOf_eq _ hid,
    nofun⟩

theorem Opened.parts_same (h : Opened E k s chain n) (hn : n.shape.opening? = some (o, body, orelse))
    (hplain : ∀ c ∈ o.parts, c.Plain) (hk : k ≤ j) : ∀ c ∈ o.parts, Yields (Quiet s) (Lowering.one (lowerFrom j) c) c :=
  fun c hc => Lowering.one_plain elseOfLoops_plain (h.ready c (mem_children_of_part hn hc)).holds (hplain c hc) hk

/-- From inside a branch, a search finds the last loop of its first body or else what it finds from outside. -/
theorem Opened.guides_branch (hopened : Opened E k s chain n) (hn : n.shape = .cond test body orelse)
    (hblock : test.isBlock = false) (hguides : Guides E (k + 1) s chain enclosing p.found [n])
    (houtside : ∀ id ∈ n.id :: enclosing, id ∉ idsOf k n.children) (hlimit : k + 3 ≤ nestingLimit) :
    Guides E k s (n.inside chain) (n.id :: enclosing) (p.inBranch body).found body ∧
      ∀ s1 s', Quiet s s1 → Moved (idsOf k body) E s1 s' → (∀ b ∈ body, ∃ t, Settled k s1 s' b t) →
        Guides E k s' (n.inside chain) (n.id :: enclosing) (p.inBranch body).found orelse := by
  have hopening := Guides.opening?_cond hn
  have hscope : n.inside chain = n.id :: chain := by simp [inside, opensScope, hn]
  have hbody (c : Node) (hc : c ∈ body) := mem_children_of_body hopening (.inl hc)
  have horelse (c : Node) (hc : c ∈ orelse) := mem_children_of_body hopening (.inr hc)
  have hinner := hopened.inner hbody
  have htest : Holds k s test := (hopened.ready test (by simp [Node.children, hn, Shape.children])).holds
  have hparts (id : NodeId) (hid : id ∈ test.ids k) :=
    hopened.parts_disjoint hopening id (by simpa [Opening.parts] using hid)
  rw [hscope]
  constructor
  · exact hguides.enter_branch hinner hn htest hblock
      (fun id hid => ⟨(hparts id hid).1, fun hmem => (hparts id hid).2 (idsOf_left hmem)⟩)
      (fun _ _ _ _ hsees => hsees) hlimit
  · intro s1 s' hquiet hmoved hsettled
    have hmoved' : Moved (idsOf k body) E s s' := (Moved.of_quiet hquiet).trans hmoved
    have hinner' := hopened.inner_moved hbody horelse hmoved'
    have htest' : Holds k s' test := hmoved'.holds htest (fun id hid => (hparts id hid).1)
      fun id hid hmem => (hparts id hid).2 (idsOf_left hmem)
    refine (hguides.moved (hinner.outer hmoved')).enter_branch hinner' hn htest' hblock
      (fun id hid => ⟨?_, fun hmem => (hparts id hid).2 (idsOf_right hmem)⟩)
      (fun s'' A hmoved'' hA _ => hopened.sees hopening houtside hquiet hmoved hsettled s'' A hmoved'' hA) hlimit
    exact (hparts id hid).1.trans_le hmoved'.next_le

theorem lowerFrom_loop {b0 e0 : List Node} (hn : n0.shape = head.shape b0 e0) :
    lowerFrom (j + 1) n0 = (prepareLoop n0 e0 >>= fun _ => markBlock (lowerFrom j) n0) := by
  obtain ⟨_, _, _, shape⟩ := n0
  cases head <;> cases hn <;> rfl

theorem Settled.loop {body' orelse' : List Node} (hready : Ready E (k + 1) s chain n) (hn : n.shape = head.shape body orelse)
    (hkept : Kept (n.ids (k + 1)) (k + 3) s1 s' (n.withShape (head.shape body' orelse'))) :
    Settled (k + 1) s1 s' n (n.withShape (head.shape body' orelse')) where
  id_eq := rfl
  kept := hkept
  regular := .loop rfl .nil
  loopOf_eq _ := by
    rw [loopOf_loop hn, loopOf_loop rfl]
    rfl
  mem_ids f hf := (mem_ids_of_loopOf hready.holds (.loop hn .nil) f hf).2

section

variable (hself : Visits E k (lowerFrom j)) (hctx : Context E s enclosing p (n.ids (k + 1)))
  (hguides : Guides E (k + 1) s chain enclosing p.found [n]) (hkey : n0.key = n.key) (hk : k ≤ j)
include hself hctx hguides hkey hk

theorem visit_branch (hready : Ready E (k + 1) s chain n) (hn : n.shape = .cond test body orelse) (hfree : test.Free)
    (hplain : test.Plain) (hfit : Fit (p.inBranch body) true body) (hfit' : Fit (p.inBranch body) false orelse)
    (hlimit : k + 3 ≤ nestingLimit) : Passes E (k + 1) p marks s n (lowerFrom (j + 1) n0 s) := by
  have hopening := Guides.opening?_cond hn
  have hopened := hready.opened
  have hregular : Regular [n] := .cond hn (hplain _ .self) hfit.regular .nil
  have hctx' := hctx.inBranch hopened body fun f hf =>
    hready.parted_iff f (mem_ids_of_loopOf hready.holds hregular f (loopOf_cond hn ▸ hf)).1
  obtain ⟨hguides1, hguides2⟩ :=
    hopened.guides_branch hn (hplain _ .self) hguides (fun id hid => (hctx'.outside id hid).2) hlimit
  obtain ⟨out, s', body', orelse', hblock, hid, hrebuilt⟩ := markBlock_ok hself hopening
    ⟨hopened, hfit, hfit', hctx', hctx', hguides1, hguides2⟩ hkey
    (hopened.parts_same hopening (by simpa [Opening.parts] using hplain) hk) rfl
  have hrun : lowerFrom (j + 1) n0 s = .ok [out] s' := by
    obtain ⟨b0, e0, hn0, _, _⟩ := opening?_of_key hkey hopening
    obtain ⟨hshape, _⟩ := eq_shape_of_opening? hn0
    obtain ⟨_, _, _, shape⟩ := n0
    cases hshape
    exact hblock
  refine ⟨out, s', n.withShape (.cond test body' orelse'), none, hrun, hid, hrebuilt.moved,
    ⟨rfl, hrebuilt.kept, .cond rfl (hplain _ .self) hrebuilt.lowered.regular .nil, fun hunparted => ?_,
      fun f hf => (mem_ids_of_loopOf hready.holds hregular f hf).2⟩,
    .same (by simp [withShape]) fun h =>
      .cond hn rfl hfree (hplain _ .self) hrebuilt.lowered hrebuilt.lowered_orelse h, ?_, by simp⟩
  · rw [loopOf_cond hn] at hunparted ⊢
    exact hrebuilt.lowered.lastLoop_eq hunparted
  · exact hrebuilt.branchOf_eq.trans (hready.branchOf_eq _ (id_mem_ids (by omega)))

/-- What the pass does with a loop, once there is a branch for it if it needs one. -/
theorem rebuild_loop (hopened : Opened E k s chain n) (hn : n.shape = head.shape body orelse)
    (hplain : ∀ c ∈ head.parts, c.Plain) (hfit : Fit (p.inLoop n) true body) (hfit' : Fit (p.inElse n) false orelse)
    (hparted : E n.id ↔ n.parted = true) (hbranch : n.parted = true → (s.branchOf n.id).isSome = true) :
    ∃ out s' body' orelse', markBlock (lowerFrom j) n0 s = .ok [out] s' ∧ out.id = n.id ∧
      Rebuilt E k (p.inLoop n) (p.inElse n) s s' n (.loop head) body orelse body' orelse' := by
  have hopening := Guides.opening?_loop hn
  have hbody (c : Node) (hc : c ∈ body) := mem_children_of_body hopening (.inl hc)
  have hinner := hopened.inner hbody
  refine markBlock_ok hself hopening ⟨hopened, hfit, hfit', hctx.inLoop hopened hparted hbranch, hctx.inElse hopened hparted,
    hguides.enter_loop hinner hn, fun s1 s' hquiet hmoved _ => ?_⟩ hkey (hopened.parts_same hopening hplain hk) rfl
  have hmoved' : Moved (idsOf k body) E s s' := (Moved.of_quiet hquiet).trans hmoved
  exact (hguides.moved (hinner.outer hmoved')).enter_loop
    (hopened.inner_moved hbody (fun c hc => mem_children_of_body hopening (.inr hc)) hmoved') hn

theorem visit_loop (hready : Ready E (k + 1) s chain n) (hn : n.shape = head.shape body []) (hfree : head.Free)
    (hplain : ∀ c ∈ head.parts, c.Plain) (hfit : Fit (p.inLoop n) true body) :
    Passes E (k + 1) p marks s n (lowerFrom (j + 1) n0 s) := by
  have hparted : n.parted = false := by simp [parted, elsePart_loop hn]
  obtain ⟨out, s', body', orelse', hblock, hid, hrebuilt⟩ := rebuild_loop hself hctx hguides hkey hk hready.opened hn hplain
    hfit .nil (hready.parted_iff n .self) (by simp [hparted])
  obtain rfl : orelse' = [] := by simpa using hrebuilt.ids_eq
  obtain ⟨b0, e0, hn0, _, he0⟩ := opening?_of_key hkey (Guides.opening?_loop hn)
  obtain rfl : e0 = [] := by simpa using he0
  have hlowered : Lowered false p.watched true body body' := by
    have hlowered := hrebuilt.lowered
    simpa [Place.leaving, Place.inLoop, hparted] using hlowered
  refine ⟨out, s', n.withShape (head.shape body' []), none, ?_, hid, hrebuilt.moved, .loop hready hn hrebuilt.kept,
    .same (by cases head <;> simp [withShape, Head.shape]) fun h => .loop rfl hn rfl hfree hlowered h, ?_, by simp⟩
  · rw [lowerFrom_loop (eq_shape_of_opening? hn0).1]
    exact (bind_ok rfl).trans hblock
  · exact hrebuilt.branchOf_eq.trans (hready.branchOf_eq _ (id_mem_ids (by omega)))

omit hself hctx hguides hkey hk in
/-- The branch for a loop, when the else part of the loop was gone through. -/
theorem Prepared.kept_branch {b : Node} {orelse0 orelse' : List Node} (h : Prepared E s s1 n.id b test orelse0)
    (hmoved : Moved (n.ids (k + 1)) E s1 s') (hlt : ∀ id ∈ n.ids (k + 1), id < s.next)
    (hids : orelse'.map (·.id) = orelse0.map (·.id)) (hkept : ∀ t ∈ orelse', Kept (n.ids (k + 1)) (k + 2) s1 s' t) :
    Kept (n.ids (k + 1)) (k + 3) s s' (b.withShape (.cond test orelse' [])) := by
  have hnew (id : NodeId) (hid : s.next ≤ id) : id ∉ n.ids (k + 1) := fun hmem => Nat.not_lt.2 hid (hlt id hmem)
  have hb : b = b.withShape (.cond test orelse0 []) := by
    obtain ⟨_, _, _, shape⟩ := b
    cases h.shape_eq
    rfl
  refine .block (o := .cond test) nofun ?_ (.inr ⟨h.le, h.lt.trans_le hmoved.next_le⟩) fun c hc => ?_
  · rw [hmoved.keyAt_eq _ h.lt (hnew _ h.le), h.keyAt_eq, hb]
    exact congrArg some (key_withShape (o := .cond test) nofun nofun hids.symm rfl)
  · rw [append_nil] at hc
    rcases mem_append.1 hc with hc | hc
    · obtain rfl := mem_singleton.1 hc
      exact ((h.kept.moved hmoved (by simp) (by simp) hlt).mono (by omega)).weaken (nil_subset _) le_rfl
    · exact (hkept c hc).weaken (List.Subset.refl _) h.moved.next_le

theorem visit_loopElse {first : Node} {rest : List Node} (hready : Ready E (k + 1) s chain n)
    (hn : n.shape = head.shape body (first :: rest)) (hfree : head.Free) (hplain : ∀ c ∈ head.parts, c.Plain)
    (hmarks : marks = true) (hwatched : p.watched = false) (hline : first.line.isSome = true)
    (hfit : Fit (p.inLoop n) true body) (hfit' : Fit (p.inElse n) false (first :: rest)) :
    Passes E (k + 1) p marks s n (lowerFrom (j + 1) n0 s) := by
  have hparted : n.parted = true := by simp [parted, elsePart_loop hn]
  have hparted_iff := hready.parted_iff n .self
  have hid : n.id ∈ n.ids (k + 1) := id_mem_ids (by omega)
  have hid0 := id_of_key hkey
  -- the branch is made first
  obtain ⟨b0, e0, hn0, _, he0⟩ := opening?_of_key hkey (Guides.opening?_loop hn)
  obtain ⟨first0, rest0, rfl⟩ : ∃ first0 rest0, e0 = first0 :: rest0 := by
    cases e0 with
    | nil => cases he0
    | cons first0 rest0 => exact ⟨first0, rest0, rfl⟩
  obtain ⟨hfirst, hrest⟩ : first0.id = first.id ∧ _ := List.cons.inj he0
  obtain ⟨line, hline⟩ := Option.isSome_iff_exists.1 hline
  have hmem : first ∈ n.children := mem_children_of_body (Guides.opening?_loop hn) (.inr mem_cons_self)
  have hkeyfirst : s.keyAt first.id = some first.key := hready.holds.keyAt (.part hmem .self)
  obtain ⟨s1, b, test, hprepare, hprepared⟩ := prepareLoop_ok (E := E) (n := n0) rest0 hkeyfirst hfirst hline
    (hid0 ▸ hparted_iff.2 hparted) (hid0 ▸ hready.lt n.id hid)
  rw [hid0] at hprepared
  have hmoved1 : Moved (n.ids (k + 1)) E s s1 := hprepared.moved.mono (by simp [hid])
  have hmoved1' : Moved (idsOf (k + 1) [n]) E s s1 := hmoved1.mono (by simp)
  -- then the loop is gone through like any other
  obtain ⟨out, s', body', orelse', hblock, hout, hrebuilt⟩ :=
    rebuild_loop hself (hctx.moved hmoved1) (hguides.moved hmoved1') hkey hk
      (hready.opened.moved hprepared.moved hprepared.content_eq) hn hplain hfit hfit' hparted_iff
      fun _ => by rw [hprepared.branchOf_eq]; rfl
  have hlowered : Lowered true true true body body' := by
    have hlowered := hrebuilt.lowered
    simpa [Place.leaving, Place.inLoop, hparted] using hlowered
  have hlowered' : Lowered p.leaving false false (first :: rest) orelse' := hwatched ▸ hrebuilt.lowered_orelse
  refine ⟨out, s', n.withShape (head.shape body' orelse'), some (b.withShape (.cond test orelse' [])), ?_, hout,
    hmoved1.trans hrebuilt.moved, ?_, ?_, ?_, ?_⟩
  · rw [lowerFrom_loop (eq_shape_of_opening? hn0).1]
    exact (bind_ok hprepare).trans hblock
  · exact .loop hready hn (hrebuilt.kept.weaken (List.Subset.refl _) hmoved1.next_le)
  · subst hmarks
    rw [hwatched]
    exact .branch rfl (hctx.leaving_eq_false hwatched) fun hm h =>
      .loopElse rfl hn rfl (cons_ne_nil _ _) hfree hm rfl hprepared.tests hlowered hlowered' h
  · exact hrebuilt.branchOf_eq.trans hprepared.branchOf_eq
  · rintro _ ⟨⟩
    refine hprepared.kept_branch hrebuilt.moved hready.lt (hrebuilt.ids_eq.trans he0.symm) fun t ht => ?_
    refine (hrebuilt.kept_orelse t ht).weaken (fun id h => mem_cons_of_mem _ ?_) le_rfl
    exact bodies_subset (Guides.opening?_loop hn) (idsOf_right h)

end

theorem plain_of_jump (h : c.shape = .breakLoop ∨ c.shape = .continueLoop) : c.Plain := by
  intro m hm
  cases hm with
  | self => rcases h with h | h <;> simp [isBlock, h]
  | part hc _ => rcases h with h | h <;> simp [Node.children, h, Shape.children] at hc

theorem visits (hk : k ≤ j) (hlimit : k + 2 ≤ nestingLimit) : Visits E k (lowerFrom j) := by
  induction k generalizing j with
  | zero => exact fun _ _ hready => hready.holds.elim
  | succ k ih =>
    obtain ⟨i, rfl⟩ := exists_succ_of_lt hk
    have hself : Visits E k (lowerFrom i) := ih (by omega) (by omega)
    intro s chain enclosing p marks c0 c hkey hfit hready hctx hguides
    cases hfit with
    | simple hn hfree hplain _ =>
      refine visit_leaf (by simp [isLeaf, hn]) hplain hready hkey hk (.same ?_ fun h => .simple hn hfree h)
      intro hbreak
      simp [isSimple, hbreak] at hn
    | leave hn _ _ _ _ =>
      exact visit_leaf (by simp [isLeaf, hn]) (plain_of_jump (.inl hn)) hready hkey hk (.leave hn rfl)
    | again hn _ =>
      refine visit_leaf (by simp [isLeaf, hn]) (plain_of_jump (.inr hn)) hready hkey hk (.same ?_ fun h => .again hn h)
      intro hbreak
      rw [hn] at hbreak
      cases hbreak
    | cond hn hfree hplain hbody horelse _ =>
      exact visit_branch hself hctx hguides hkey (by omega) hready hn hfree hplain hbody horelse (by omega)
    | @loop _ _ _ head body orelse _ hn hfree hplain helse hbody horelse _ =>
      cases orelse with
      | nil => exact visit_loop hself hctx hguides hkey (by omega) hready hn hfree hplain hbody
      | cons first rest =>
        obtain ⟨hmarks, hwatched, e, ⟨⟩, hline⟩ := helse (by simp)
        exact visit_loopElse hself hctx hguides hkey (by omega) hready hn hfree hplain hmarks hwatched hline hbody horelse

end
end Polyglot
