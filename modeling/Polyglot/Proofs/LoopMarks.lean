import Polyglot.Proofs.LoopGuide

/-!
# Setting the mark

What the pass does in the body of a block, once the statements in it were gone through: a loop that has an else part
is followed by the branch that was made for it, and the mark is set before such loops and before the breaks that leave
them. One assignment serves the whole body.
-/
namespace Polyglot

open Effect Session Blocks List Option Node

attribute [local simp] Node.children Shape.children

variable {I : List NodeId} {E : NodeId → Prop} {ns : List Node}

theorem new_ids {first id next : Nat} (h : id = first + 1 + 1 ∨ id = first ∨ id = first + 1) (hnext : first + 3 ≤ next) :
    id ∈ ([] : List Nat) ∨ first ≤ id ∧ id < next :=
  .inr (by omega)

theorem newMark_ok (scopes : List NodeId) (value : Bool) (s : Session) :
    ∃ m s', newMark scopes value s = .ok m s' ∧ Moved I E s s' ∧ Kept [] 2 s s' m ∧ SetsMark m value := by
  have hname : s.next ≤ s.next := le_rfl
  have hvalue : s.next ≤ s.next + 1 := Nat.le_add_right _ 1
  have hmark : s.next ≤ s.next + 1 + 1 := Nat.le_add_right _ 2
  refine ⟨_, _, rfl, ?_, ⟨?_, ?_⟩, ?_⟩
  · exact (((((((Moved.refl s).add hname (Nat.le_succ _)).add hname le_rfl).scopes hname).add hvalue
      (Nat.le_succ _)).scopes hvalue).add hmark (Nat.le_succ _)).add hmark le_rfl
  · have hne : s.next + 1 + 1 ≠ s.next := Nat.ne_of_gt (by omega)
    simp [Holds, keyAt, Std.TreeMap.getElem?_insert, hne]
  · intro id hid
    exact new_ids (by simpa [Node.ids] using hid) le_rfl
  · exact ⟨_, _, _, _, rfl, rfl, rfl⟩

/-- What is known when a branch was made for a loop: it is remembered, and new like the condition in it. -/
structure Prepared (E : NodeId → Prop) (s s' : Session) (loop : NodeId) (b test : Node) (orelse : List Node) :
    Prop where
  moved : Moved [loop] E s s'
  content_eq : s'.keyAt loop = s.keyAt loop
  branchOf_eq : s'.branchOf loop = some b.id
  shape_eq : b.shape = .cond test orelse []
  keyAt_eq : s'.keyAt b.id = some b.key
  le : s.next ≤ b.id
  lt : b.id < s'.next
  kept : Kept [] 2 s s' test
  tests : TestsMark test

theorem prepareLoop_ok {s : Session} {n first first0 : Node} {l : Nat} (rest0 : List Node)
    (hfirst : s.keyAt first.id = some first.key) (hid : first0.id = first.id) (hline : first.line = some l)
    (hE : E n.id) (hlt : n.id < s.next) :
    ∃ s' b test, prepareLoop n (first0 :: rest0) s = .ok () s' ∧ Prepared E s s' n.id b test (first0 :: rest0) := by
  obtain ⟨c, hc, hckey⟩ := current_of_keyAt (n := first0) (m := first) (hid ▸ hfirst)
  have hcline : lineOf c s = .ok l s := by
    rw [lineOf, show c.line = first.line from congrArg (·.line) (withShape_of_key hckey), hline]
    rfl
  have hname : s.next ≤ s.next := le_rfl
  have hyes : s.next ≤ s.next + 1 := Nat.le_add_right _ 1
  have htest : s.next ≤ s.next + 1 + 1 := Nat.le_add_right _ 2
  have hbranch : s.next ≤ s.next + 1 + 1 + 1 := Nat.le_add_right _ 3
  have hne1 : s.next + 1 + 1 + 1 ≠ s.next := Nat.ne_of_gt (by omega)
  have hne2 : s.next + 1 + 1 ≠ s.next := Nat.ne_of_gt (by omega)
  let test : Node := ⟨s.next + 1 + 1, none, none, .compare ⟨s.next, none, none, .name leftEarly .unset⟩ [.notEq]
    [⟨s.next + 1, none, none, .constant (.bool true) false⟩]⟩
  unfold prepareLoop
  simp only
  rw [bind_ok hc, bind_ok hcline]
  refine ⟨_, ⟨s.next + 1 + 1 + 1, some l, none, .cond test (first0 :: rest0) []⟩, test, rfl, ?_, ?_, ?_, rfl, ?_,
    hbranch, Nat.lt_succ_self _, ⟨?_, ?_⟩, ?_⟩
  · exact ((((((((Moved.refl s).add hname (Nat.le_succ _)).add hyes (Nat.le_succ _)).add htest
      (Nat.le_succ _)).add hbranch (Nat.le_succ _)).add hbranch le_rfl).scopes htest).scopes hyes).branch hE
      mem_cons_self
  · have hnew (i : Nat) : s.next + i ≠ n.id := Nat.ne_of_gt (hlt.trans_le (Nat.le_add_right _ i))
    have hold : s.next ≠ n.id ∧ s.next + 1 ≠ n.id ∧ s.next + 1 + 1 ≠ n.id ∧ s.next + 1 + 1 + 1 ≠ n.id :=
      ⟨hnew 0, hnew 1, hnew 2, hnew 3⟩
    simp [keyAt, Std.TreeMap.getElem?_insert, hold]
  · simp [branchOf]
  · simp [test, keyAt]
  · simp [test, Holds, keyAt, Std.TreeMap.getElem?_insert, Std.TreeMap.getElem_insert, hne1, hne2]
  · intro id hid
    exact new_ids (by simpa [test, Node.ids] using hid) (Nat.le_succ _)
  · exact ⟨_, _, _, _, rfl, rfl, rfl⟩

/-! ### Statements that were gone through -/

/-- What the pass knows about a place: the loops around are known by their identities and are not gone through any
more, and exactly those that have an else part have a branch. -/
structure Context (E : NodeId → Prop) (s : Session) (enclosing : List NodeId) (p : Place) (I : List NodeId) : Prop where
  loop_mem : ∀ l, p.loop = some l → l.id ∈ enclosing
  branchOf_loop : ∀ l, p.loop = some l → l.parted = true → p.watched = true ∧ (s.branchOf l.id).isSome = true
  found_iff : ∀ f, p.found = some f → (E f.id ↔ f.parted = true)
  branchOf_eq : ∀ id, ¬ E id → s.branchOf id = none
  outside : ∀ id ∈ enclosing, id < s.next ∧ id ∉ I

/-- What becomes of a statement, and the branch that follows it if it is a loop that has an else part. A break is
looked at only when the mark is set. -/
inductive Turned (l w marks : Bool) (c t : Node) : Option Node → Prop
  | same (hbreak : t.shape ≠ .breakLoop)
      (h : ∀ {ns ns' : List Node}, Lowered l w marks ns ns' → Lowered l w marks (c :: ns) (t :: ns')) :
      Turned l w marks c t none
  | leave (hc : c.shape = .breakLoop) (ht : t = c) : Turned l w marks c t none
  | branch {b : Node} (hmarks : marks = true) (hl : l = false)
      (h : ∀ {m : Node} {ns ns' : List Node}, SetsMark m false → Lowered l w marks ns ns' →
        Lowered l w marks (c :: ns) (m :: t :: b :: ns')) : Turned l w marks c t (some b)

structure Visited (p : Place) (marks : Bool) (k : Nat) (s s' : Session) (c t : Node) (b : Option Node) : Prop where
  settled : Settled k s s' c t
  turned : Turned p.leaving p.watched marks c t b
  branchOf_eq : s'.branchOf c.id = b.map (·.id)
  kept : ∀ d, b = some d → Kept (c.ids k) (k + 2) s s' d

/-- What stands for a statement in a body, with the mark set before it if it has to be. -/
structure Marked (l w : Bool) (c : Node) (ts : List Node) (set : Option Bool) : Prop where
  value_eq : ∀ v, set = some v → v = l
  lowered : ∀ {m : Node} {ns ns' : List Node}, (set.isSome = true → SetsMark m l) → Lowered l w true ns ns' →
    Lowered l w true (c :: ns) ((if set.isSome then m :: ts else ts) ++ ns')

section

variable {p : Place} {marks : Bool} {k : Nat} {s s' : Session} {c t out n : Node} {b : Option Node}
  {scopes enclosing : List NodeId}

theorem Fit.of_break (h : Fit p marks [c]) (hc : c.shape = .breakLoop) :
    ∃ l, p.loop = some l ∧ (l.parted = true → marks = true ∧ p.found = some l) ∧
      (l.parted = false → marks = true → ∀ f, p.found = some f → f.parted = false) := by
  cases h with
  | simple hn => simp [Node.isSimple, hc] at hn
  | leave _ hl hparted hfound _ => exact ⟨_, hl, hparted, hfound⟩
  | again hn | cond hn => rw [hc] at hn; cases hn
  | @loop _ _ _ head _ _ _ hn => rw [hc] at hn; cases head <;> cases hn

theorem leaving_eq {l : Node} (hl : p.loop = some l) : p.leaving = l.parted := by
  rw [Place.leaving, hl, any_some]

/-- The mark is set at a break exactly if the loop that is left has an else part. -/
theorem markStep_break (hctx : Context E s enclosing p I) (hfit : Fit p true [c]) (hc : c.shape = .breakLoop)
    (hcurrent : current out s = .ok c s) (hbranch : s.branchOf c.id = none)
    (hsearch : Finds (Scope.findByKind isLoop scopes) s p.found) :
    ∃ set, markStep scopes out s = .ok (set, [c]) s ∧ Marked p.leaving p.watched c [c] set := by
  obtain ⟨l, hl, hparted, hfound⟩ := hfit.of_break hc
  obtain ⟨o, ho, hoid⟩ := hsearch
  have hstep : markStep scopes out s =
      .ok (if (o.bind fun f => s.branchOf f.id).isSome then some true else none, [c]) s := by
    have hnone : (s.facts.getD c.id {}).afterLoop = none := hbranch
    unfold markStep
    rw [bind_ok hcurrent, bind_ok (show factsOf c.id s = .ok (s.facts.getD c.id {}) s from rfl)]
    simp only [hnone, hc, if_true]
    rw [bind_ok ho]
    cases o <;> rfl
  refine ⟨_, hstep, ?_⟩
  have hbranches : (o.bind fun f => s.branchOf f.id) = p.found.bind fun f => s.branchOf f.id := by
    cases o with
    | none =>
      have hnone : p.found = none := by simpa using hoid.symm
      rw [hnone]
    | some f =>
      obtain ⟨g, hg, hid⟩ := map_eq_some_iff.1 hoid.symm
      rw [hg, bind_some, bind_some, hid]
  rw [hbranches, leaving_eq hl]
  cases hp : l.parted with
  | true =>
    obtain ⟨hwatched, hsome⟩ := hctx.branchOf_loop l hl hp
    rw [(hparted hp).2, bind_some, if_pos hsome, hwatched]
    exact ⟨fun v hv => by simpa using hv.symm, fun hm h => .leaveMarked hc (hm rfl) h⟩
  | false =>
    have hnone : (p.found.bind fun f => s.branchOf f.id) = none := by
      rw [bind_eq_none_iff]
      intro f hf
      refine hctx.branchOf_eq f.id fun hE => ?_
      rw [hctx.found_iff f hf, hfound hp rfl f hf] at hE
      cases hE
    rw [hnone]
    exact ⟨fun v hv => by simp at hv, fun _ h => .leave hc h⟩

theorem markStep_ok (hv : Visited p true k s s' c t b) (hctx : Context E s' enclosing p I) (hfit : Fit p true [c])
    (hid : out.id = c.id) (hsearch : c.shape = .breakLoop → Finds (Scope.findByKind isLoop scopes) s' p.found) :
    ∃ set ss, markStep scopes out s' = .ok (set, ss) s' ∧ ss.map (·.id) = (t :: b.toList).map (·.id) ∧
      Marked p.leaving p.watched c (t :: b.toList) set := by
  obtain ⟨d, hd, hdkey⟩ := current_of_keyAt
    (show s'.keyAt out.id = some t.key by rw [hid, ← hv.settled.id_eq, hv.settled.kept.holds.1])
  have hdid : d.id = c.id := (id_of_key hdkey).trans hv.settled.id_eq
  have hfacts : factsOf d.id s' = .ok (s'.facts.getD d.id {}) s' := rfl
  have hbranch : (s'.facts.getD d.id {}).afterLoop = b.map (·.id) := hdid ▸ hv.branchOf_eq
  cases hv.turned with
  | @branch e _ hl hlowered =>
    obtain ⟨f, hf, hfkey⟩ := Guides.nodeOf_of_keyAt (hv.kept e rfl).holds.1
    refine ⟨some false, [d, f], ?_, ?_, ⟨?_, ?_⟩⟩
    · unfold markStep
      rw [bind_ok hd, bind_ok hfacts]
      simp only [hbranch, map_some]
      rw [bind_ok hf]
      rfl
    · simp [id_of_key hdkey, id_of_key hfkey]
    · intro v hv
      rw [hl]
      exact (some.inj hv).symm
    · intro m ns ns' hm h
      exact hlowered (hl ▸ hm rfl) h
  | same hbreak hlowered =>
    have hd' : d.shape ≠ .breakLoop := by
      intro hshape
      have heq := eq_of_key hdkey.symm (by rw [hshape]; rfl)
      exact hbreak (heq ▸ hshape)
    refine ⟨none, [d], ?_, ?_, ⟨fun v hv => by simp at hv, fun _ h => hlowered h⟩⟩
    · unfold markStep
      rw [bind_ok hd, bind_ok hfacts]
      simp only [hbranch, map_none]
      rfl
    · simp [id_of_key hdkey]
  | leave hc ht =>
    subst ht
    obtain rfl := eq_of_key hdkey (by rw [hc]; rfl)
    obtain ⟨set, hset, hmarked⟩ := markStep_break hctx hfit hc hd hbranch (hsearch hc)
    exact ⟨set, [d], hset, rfl, hmarked⟩

/-- What stands in a body in the end, if the mark is set by `m`. -/
def markedWith (m : Node) (steps : List (Option Bool × List Node)) : List Node :=
  (steps.map fun (v, ss) => if v.isSome then m :: ss else ss).flatten

/-- The trees that stand in a body in the end: what became of its statements and, where it is needed, the mark. -/
structure Composed (k : Nat) (p : Place) (s s' : Session) (cs : List Node) (steps : List (Option Bool × List Node))
    (m : Node) (body : List Node) : Prop where
  ids_eq : (markedWith m steps).map (·.id) = body.map (·.id)
  lowered : Lowered p.leaving p.watched true cs body
  mem : ∀ t ∈ body, (t = m ∧ ∃ step ∈ steps, step.1.isSome = true) ∨ Kept (idsOf k cs) (k + 2) s s' t

theorem Fit.tail (h : Fit p marks (n :: ns)) : Fit p marks [n] ∧ Fit p marks ns := by
  cases h with
  | simple hn hfree hplain h => exact ⟨.simple hn hfree hplain .nil, h⟩
  | leave hn hl hparted hfound h => exact ⟨.leave hn hl hparted hfound .nil, h⟩
  | again hn h => exact ⟨.again hn .nil, h⟩
  | cond hn hfree hplain hbody horelse h => exact ⟨.cond hn hfree hplain hbody horelse .nil, h⟩
  | loop hn hfree hplain helse hbody horelse h => exact ⟨.loop hn hfree hplain helse hbody horelse .nil, h⟩

theorem Fit.of_mem (h : Fit p marks ns) (hc : c ∈ ns) : Fit p marks [c] := by
  induction ns with
  | nil => cases hc
  | cons n ns ih =>
    rcases mem_cons.1 hc with rfl | hc
    · exact h.tail.1
    · exact ih h.tail.2 hc

variable {cs outs : List Node} (hv : ∀ c ∈ cs, ∃ t b, Visited p true k s s' c t b) (hctx : Context E s' enclosing p I)
  (hfit : Fit p true cs) (hids : outs.map (·.id) = cs.map (·.id))
  (hsearch : ∀ c ∈ cs, c.shape = .breakLoop → Finds (Scope.findByKind isLoop scopes) s' p.found)
include hv hctx hfit hids hsearch

theorem markSteps_ok :
    ∃ steps, outs.mapM (markStep scopes) s' = .ok steps s' ∧
      (∀ step ∈ steps, ∀ v, step.1 = some v → v = p.leaving) ∧
      ∀ m : Node, ((∃ step ∈ steps, step.1.isSome = true) → SetsMark m p.leaving) →
        ∃ body, Composed k p s s' cs steps m body := by
  replace hids := forall₂_of_map_id hids
  induction hids with
  | nil => exact ⟨[], rfl, by simp, fun m _ => ⟨[], rfl, .nil, by simp⟩⟩
  | @cons out c outs cs hid _ ih =>
    obtain ⟨t, b, hc⟩ := hv c mem_cons_self
    obtain ⟨set, ss, hstep, hss, hmarked⟩ := markStep_ok hc hctx hfit.tail.1 hid (hsearch c mem_cons_self)
    obtain ⟨steps, hsteps, hvalue, hbody⟩ := ih (fun d hd => hv d (mem_cons_of_mem _ hd)) hfit.tail.2
      fun d hd => hsearch d (mem_cons_of_mem _ hd)
    refine ⟨(set, ss) :: steps, ?_, ?_, fun m hm => ?_⟩
    · rw [mapM_cons, bind_ok hstep, bind_ok hsteps]
      rfl
    · exact forall_mem_cons.2 ⟨hmarked.value_eq, hvalue⟩
    · obtain ⟨body, hcomposed⟩ := hbody m fun ⟨step, hstep, h⟩ => hm ⟨step, mem_cons_of_mem _ hstep, h⟩
      have hkept (d : Node) (hd : d ∈ t :: b.toList) : Kept (c.ids k) (k + 2) s s' d := by
        rcases mem_cons.1 hd with rfl | hd
        · exact hc.settled.kept
        · exact hc.kept d (by simpa using hd)
      refine ⟨_, ?_, hmarked.lowered (fun h => hm ⟨_, mem_cons_self, h⟩) hcomposed.lowered, fun d hd => ?_⟩
      · rw [map_append, ← hcomposed.ids_eq, markedWith, map_cons, flatten_cons, map_append]
        congr 1
        cases set <;> simp [hss]
      · rcases mem_append.1 hd with hd | hd
        · have hd' : (d = m ∧ set.isSome = true) ∨ d ∈ t :: b.toList := by
            split at hd
            · rename_i hset
              exact (mem_cons.1 hd).imp_left fun h => ⟨h, hset⟩
            · exact .inr hd
          rcases hd' with ⟨rfl, hset⟩ | hd'
          · exact .inl ⟨rfl, _, mem_cons_self, hset⟩
          · exact .inr ((hkept d hd').weaken (by simp) le_rfl)
        · rcases hcomposed.mem d hd with ⟨rfl, step, hstep, h⟩ | h
          · exact .inl ⟨rfl, step, mem_cons_of_mem _ hstep, h⟩
          · exact .inr (h.weaken (by simp) le_rfl)

theorem markBody_ok (hscopes : s'.scopesOf n.id = some scopes) (hlt : ∀ id ∈ idsOf k cs, id < s'.next)
    (hs : s.next ≤ s'.next) :
    ∃ outs' body s'', markBody n outs s' = .ok outs' s'' ∧ Moved [] E s' s'' ∧
      outs'.map (·.id) = body.map (·.id) ∧ Lowered p.leaving p.watched true cs body ∧
      ∀ t ∈ body, Kept (idsOf k cs) (k + 2) s s'' t := by
  obtain ⟨steps, hsteps, hvalue, hbody⟩ := markSteps_ok hv hctx hfit hids hsearch
  have hchain : Scope.chain? n s' = .ok (some scopes) s' := by
    rw [← hscopes]
    rfl
  cases hlast : (steps.filterMap (·.1)).getLast? with
  | none =>
    have hnone (step : Option Bool × List Node) (hstep : step ∈ steps) : step.1 = none := by
      rw [getLast?_eq_none_iff, filterMap_eq_nil_iff] at hlast
      exact hlast step hstep
    obtain ⟨body, hcomposed⟩ := hbody n fun ⟨step, hstep, h⟩ => by simp [hnone step hstep] at h
    refine ⟨(steps.map (·.2)).flatten, body, s', ?_, .refl s', ?_, hcomposed.lowered, fun t ht => ?_⟩
    · unfold markBody
      rw [bind_ok hchain, getD_some, bind_ok hsteps]
      simp only [hlast]
      rfl
    · rw [← hcomposed.ids_eq, markedWith]
      congr 2
      refine map_congr_left fun step hstep => ?_
      simp [hnone step hstep]
    · rcases hcomposed.mem t ht with ⟨_, step, hstep, h⟩ | h
      · simp [hnone step hstep] at h
      · exact h
  | some value =>
    obtain ⟨step, hstep, hset⟩ := mem_filterMap.1 (mem_of_getLast? hlast)
    obtain rfl := hvalue step hstep value hset
    obtain ⟨m, s'', hm, hmoved, hmkept, hsets⟩ := newMark_ok (I := []) (E := E) scopes p.leaving s'
    obtain ⟨body, hcomposed⟩ := hbody m fun _ => hsets
    refine ⟨markedWith m steps, body, s'', ?_, hmoved, hcomposed.ids_eq, hcomposed.lowered, fun t ht => ?_⟩
    · unfold markBody
      rw [bind_ok hchain, getD_some, bind_ok hsteps]
      simp only [hlast]
      rw [bind_ok hm]
      rfl
    · rcases hcomposed.mem t ht with ⟨rfl, _⟩ | h
      · exact (hmkept.mono (by omega)).weaken (nil_subset _) hs
      · exact h.moved hmoved hlt (fun _ _ => not_mem_nil) (fun _ h => absurd h not_mem_nil)

end
end Polyglot
