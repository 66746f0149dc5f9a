import Mathlib
import Polyglot.Proofs.Counting
import Polyglot.Proofs.ReturnTypes

/-!
# Analyses once more

A program is analysed before and after it is lowered, and the second time all that was found the first time is still
known. What is declared where is found out anew, and the rest is added to. For calls that add to lists, functions that
can fail, variables that change and results it is said here when nothing changes.
-/
namespace Polyglot

open Session Effect Inference List Shape Mutation Option Facts

variable {k i j : Nat} {s s' t t' : Session} {c m n : Node} {chain old : List NodeId} {others : List (String × Node)}

/-! ### Scopes once more -/

theorem assignStep_eq_ok {self : Node → Analysis Unit} (hopen : t.openScopes = chain.reverse)
    (h : Scope.assignStep self c t = .ok () t') :
    ∃ u u' : Session, Pass.below self c u = .ok () u' ∧ u.nodes = t.nodes ∧ u.openScopes = (c.inside chain).reverse ∧
      (∀ id, u.scopesOf id = if c.id = id then some (c.inside chain).reverse else t.scopesOf id) ∧
      ∀ id, t'.scopesOf id = u'.scopesOf id := by
  have hnote (u : Session) (hfacts : u.facts = t.facts) (hscopes : u.openScopes = (c.inside chain).reverse) (id : NodeId) :
      scopesOf { u with facts := u.facts.insert c.id { u.facts.getD c.id {} with scopes := some u.openScopes } } id =
        if c.id = id then some (c.inside chain).reverse else t.scopesOf id := by
    refine (congrArg Facts.scopes (known_note u c.id id _)).trans ?_
    rw [apply_ite Facts.scopes, hscopes, known, hfacts]
    rfl
  unfold Scope.assignStep Scope.within at h
  by_cases hscope : c.opensScope = true
  · have hopen' : t.openScopes ++ [c.id] = (c.inside chain).reverse := by
      rw [Node.inside, if_pos hscope, reverse_cons, hopen]
    rw [if_pos hscope] at h
    obtain ⟨_, u, ⟨⟩, h⟩ := bind_eq_ok.1 h
    obtain ⟨_, u', hbelow, ⟨⟩⟩ := bind_eq_ok.1 h
    exact ⟨_, u', hbelow, rfl, hopen', hnote _ rfl hopen', fun _ => rfl⟩
  · have hopen' : t.openScopes = (c.inside chain).reverse := by rw [Node.inside, if_neg hscope, hopen]
    rw [if_neg hscope] at h
    exact ⟨_, t', h, rfl, hopen', hnote t rfl hopen', fun _ => rfl⟩

theorem assignFrom_name (hname : c.name?.isSome) (hopen : t.openScopes = chain.reverse)
    (h : assignFrom j c t = .ok () t') {id : NodeId} (hid : id ≠ c.id) : t'.scopesOf id = t.scopesOf id := by
  cases j with
  | zero => cases h
  | succ j =>
    obtain ⟨u, u', hbelow, _, _, hat, hscopes⟩ := assignStep_eq_ok hopen h
    unfold Pass.below at hbelow
    rw [Node.children_of_name hname] at hbelow
    cases hbelow
    rw [hscopes, hat, if_neg (Ne.symm hid)]

/-- Where a program is laid out, each of its nodes is given the scopes that it lies in already. -/
theorem Session.Laid.assignFrom_kept (h : s.Laid k n) (hm : m.Within n) (hchained : Chained i s chain m)
    (ht : t.nodes = s.nodes) (hopen : t.openScopes = chain.reverse) (hsame : ∀ id ∈ n.ids k, t.scopesOf id = s.scopesOf id)
    (hrun : assignFrom j (s.content m.id) t = .ok () t') : ∀ id ∈ n.ids k, t'.scopesOf id = s.scopesOf id := by
  induction j generalizing m i chain t t' with
  | zero => cases hrun
  | succ j ih =>
    cases i with
    | zero => exact hchained.elim
    | succ i =>
      have hcid : (s.content m.id).id = m.id := h.sound.content_id (h.mem_ids m hm)
      have hinside : (s.content m.id).inside chain = m.inside chain := by
        rw [Node.inside, Node.inside, h.opensScope_eq m hm, hcid]
      obtain ⟨u, u', hbelow, hu, huopen, hat, hscopes⟩ := assignStep_eq_ok hopen hrun
      rw [hinside] at huopen hat
      have husame (id : NodeId) (hid : id ∈ n.ids k) : u.scopesOf id = s.scopesOf id := by
        rw [hat, hcid]
        split
        · rw [← ‹m.id = id›, hchained.1]
        · exact hsame id hid
      simp only [hscopes]
      -- the parts are gone through one after the other
      have heach {cs : List Node} (hcs : cs ⊆ (s.content m.id).children) {u : Session} (hu : u.nodes = s.nodes)
          (huopen : u.openScopes = (m.inside chain).reverse) (husame : ∀ id ∈ n.ids k, u.scopesOf id = s.scopesOf id)
          (hrun : Pass.each (assignFrom j) cs u = .ok () u') : ∀ id ∈ n.ids k, u'.scopesOf id = s.scopesOf id := by
        induction cs generalizing u with
        | nil =>
          cases hrun
          exact husame
        | cons c cs ihcs =>
          obtain ⟨hc, hcs⟩ := cons_subset.1 hcs
          obtain ⟨w, hstep, hrun⟩ := each_cons_eq_ok.1 hrun
          have hnoted : Noted (fun _ : Facts => ()) u w :=
            of_tie (fun _ => notes_assignStep fun _ _ => rfl) (fun _ => .throw) j _ u () w hstep
          refine ihcs hcs (hnoted.nodes_eq.trans hu) (hnoted.openScopes_eq.trans huopen) ?_ hrun
          rcases h.parts m hm c hc with ⟨d, hd, hid⟩ | ⟨hnew, hname⟩
          · have hnow : u.now c = s.content d.id := by
              refine now_of_getElem? ?_
              rw [hu, ← hid, h.sound.getElem? (h.mem_ids d (hm.child hd))]
            rw [hnow] at hstep
            exact ih (hm.child hd) (hchained.2 d hd) hu huopen husame hstep
          · -- a part that was added in the meantime is a name, and no node of the program
            obtain ⟨x, hx, _⟩ := hname.2
            have hnow : u.now c = s.content c.id := by
              rw [content_of_getElem? hx]
              exact now_of_getElem? (hu ▸ hx)
            have hnowid : (s.content c.id).id = c.id := by
              rw [content_of_getElem? hx]
              exact h.sound.keyed _ x hx
            rw [hnow] at hstep
            intro id hid
            rw [assignFrom_name hname.name? huopen hstep fun heq => hnew (hnowid ▸ heq ▸ hid), husame id hid]
      exact heach (List.Subset.refl _) (hu.trans ht) huopen husame hbelow

namespace Session.Laid

variable (h : s.Laid k n)

include h

theorem of_nodes (hnodes : s'.nodes = s.nodes) (hnext : s'.next = s.next) (hchained : Chained k s' [] n) : s'.Laid k n := by
  have hcontent (id : NodeId) : s'.content id = s.content id := by rw [content, content, hnodes]
  have hname (id : NodeId) (hid : s.IsName id) : s'.IsName id := by
    obtain ⟨hlt, m, hm, hname⟩ := hid
    exact ⟨hnext ▸ hlt, m, hnodes ▸ hm, hname⟩
  have hreturns (j : Nat) (id : NodeId) : s'.returnsBelow j id = s.returnsBelow j id := by
    induction j generalizing id with
    | zero => rfl
    | succ j ih => rw [returnsBelow, returnsBelow, hcontent, funext ih]
  refine
    { sound :=
        { keyed := by rw [Keyed, hnodes]; exact h.sound.keyed
          known := fun id hid => by rw [hnodes, hnext]; exact h.sound.known id hid
          parts := fun id hid c hc => (h.sound.parts id hid c (hcontent id ▸ hc)).imp_right (hname _)
          scopes := fun id chain hid hchain i hi => ?_
          apart := fun f g r hf hg hfr hgr => h.sound.apart f g r hf hg (hcontent f ▸ hfr) (hcontent g ▸ hgr) }
      nodup := h.nodup
      mem_ids := h.mem_ids
      chained := hchained
      opensScope_eq := fun m hm => hcontent m.id ▸ h.opensScope_eq m hm
      parts := fun m hm c hc => (h.parts m hm c (hcontent m.id ▸ hc)).imp_right fun hnew => ⟨hnew.1, hname _ hnew.2⟩
      parts_kept := fun m hm d hd => hcontent m.id ▸ h.parts_kept m hm d hd
      returns := (hreturns _ _).trans h.returns }
  obtain ⟨m, hm, rfl⟩ := Node.exists_within hid
  obtain ⟨c, hscopes, hmem⟩ := hchained.scopesOf hm
  obtain rfl : c = chain := some.inj (hscopes.symm.trans hchain)
  exact (hmem i hi).resolve_left not_mem_nil

theorem of_noted (hs : Noted scopes s s') : s'.Laid k n :=
  h.of_nodes hs.nodes_eq hs.next_eq (h.chained.congr fun id _ => hs.view_eq id)

theorem assign (hopen : s.openScopes = []) (hrun : Scope.assign n s = .ok () s') : s'.Laid k n := by
  have hnoted : Noted (fun _ : Facts => ()) s s' := notes_assign (fun _ _ => rfl) n s () s' hrun
  obtain ⟨c, t, ⟨⟩, hrun⟩ := bind_eq_ok.1 hrun
  rw [← now, now_of_getElem? (h.sound.getElem? (h.mem_ids n .self))] at hrun
  have hopen : s.openScopes = [].reverse := hopen
  exact h.of_nodes hnoted.nodes_eq hnoted.next_eq
    (h.chained.congr (h.assignFrom_kept .self h.chained rfl hopen (fun _ _ => rfl) hrun))

theorem follows {js : List (NodeId × String)} (hs : Follows (· ∈ n.ids k) s js s') : s'.Laid k n where
  sound := hs.sound
  nodup := h.nodup
  mem_ids := h.mem_ids
  chained := h.chained.congr fun id _ => hs.scopesOf_eq id
  opensScope_eq m hm := (hs.opensScope_eq (h.mem_ids m hm)).trans (h.opensScope_eq m hm)
  parts m hm c hc := by
    rcases hs.parts (h.mem_ids m hm) hc with ⟨d, hd, hid⟩ | hnew
    · exact hid ▸ (h.parts m hm d hd).imp_right fun hnew => ⟨hnew.1, hs.isName _ hnew.2⟩
    · exact .inr hnew
  parts_kept m hm d hd := by
    obtain ⟨c, hc, hcd⟩ := h.parts_kept m hm d hd
    obtain ⟨b, hb, hbc⟩ := hs.parts_kept (h.mem_ids m hm) hc
    exact ⟨b, hb, hbc.trans hcd⟩
  returns := (hs.returnsBelow_eq _ (.inl (h.mem_ids n .self))).trans h.returns

end Session.Laid

/-- A program is recorded: the session has the current content of each of its nodes, which is no more than `k` levels deep. -/
structure Session.Recorded (k : Nat) (s : Session) (n : Node) : Prop where
  keyed : s.Keyed
  holds : Holds k s n
  nodup : (n.ids k).Nodup
  lt : ∀ id ∈ n.ids k, id < s.next

namespace Session.Recorded

variable (h : s.Recorded k n)

include h

theorem of_noted {γ : Type} {π : Facts → γ} (hs : Noted π s s') : s'.Recorded k n where
  keyed := by rw [Keyed, hs.nodes_eq]; exact h.keyed
  holds := h.holds.congr fun id _ => by rw [keyAt, keyAt, hs.nodes_eq]
  nodup := h.nodup
  lt := by rw [hs.next_eq]; exact h.lt

theorem prepared (hk : k ≤ nestingLimit) (hopen : s.openScopes = []) (hrun : Scope.assign n s = .ok () s') :
    s'.Prepared k n := by
  have hnoted : Noted (fun _ : Facts => ()) s s' := notes_assign (fun _ _ => rfl) n s () s' hrun
  obtain ⟨t, hassign, -, hchained⟩ := exists_assign h.holds h.nodup hopen hk
  cases hrun.symm.trans hassign
  obtain ⟨hkeyed, hholds, hnodup, hlt⟩ := h.of_noted hnoted
  exact ⟨hkeyed, hholds, hnodup, hlt, hchained⟩

end Session.Recorded

namespace Run

variable {γ : Type} {π : Facts → γ} {b : Bool}

/-! ### What each pass leaves alone -/

/-- A view of the facts that does not show where things are declared. -/
structure Elsewhere (π : Facts → γ) : Prop where
  vars : ∀ (f : Facts) vars bodyVars elseVars assignedFrom importedFrom,
    π { f with vars, bodyVars, elseVars, assignedFrom, importedFrom } = π f := by intros; rfl
  scopes : ∀ (f : Facts) scopes, π { f with scopes } = π f := by intros; rfl
  isTarget : ∀ (f : Facts) isTarget, π { f with isTarget } = π f := by intros; rfl

/-- A view of the facts that does not show what the passes after the survey note. -/
structure Unexplored (π : Facts → γ) : Prop where
  calls : ∀ (f : Facts) calls, π { f with calls } = π f := by intros; rfl
  mutableVars : ∀ (f : Facts) mutableVars, π { f with mutableVars } = π f := by intros; rfl
  level : ∀ (f : Facts) level, π { f with level } = π f := by intros; rfl
  raises : ∀ (f : Facts) raises, π { f with raises } = π f := by intros; rfl
  inHint : ∀ (f : Facts) inHint, π { f with inHint } = π f := by intros; rfl

theorem notes_survey (hπ : Elsewhere π) (others : List (String × Node)) (n : Node) : Notes π (survey others n) :=
  (notes_declare hπ.vars others n).bind fun _ => (notes_assign hπ.scopes n).bind fun _ => notes_targets hπ.isTarget n

theorem notes_collect (hπ : ∀ (f : Facts) calls, π { f with calls } = π f) (n : Node) : Notes π (ListGrowth.collect n) := by
  intro s _ s' h
  refine (collect_appends h).noted.mono fun x y hxy => ?_
  rw [← hπ x none, hxy, hπ]

theorem notes_raising (hπ : ∀ (f : Facts) raises, π { f with raises } = π f) (n : Node) : Notes π (Raising.detect n) := by
  intro s _ s' h
  refine (detect_marked h).noted.mono fun x y hxy => ?_
  rw [← hπ x false, hxy, hπ]

/-- The passes of an analysis, each from the session in which the one before it ends. -/
structure Passes (others : List (String × Node)) (n : Node) (s : Session) (b : Bool) (s' : Session) where
  surveyed : Session
  collected : Session
  counted : Session
  levelled : Session
  raised : Session
  explored : Session
  inferred : Session
  survey_ok : survey others n s = .ok () surveyed
  collect_ok : ListGrowth.collect n surveyed = .ok () collected
  detect_ok : Mutation.detect n collected = .ok () counted
  levels_ok : Marks.levels n counted = .ok () levelled
  raising_ok : Raising.detect n levelled = .ok () raised
  hints_ok : Marks.hints n raised = .ok () explored
  infer_ok : Inference.infer Inference.rules n explored = .ok b inferred
  imports_ok : Marks.imports n inferred = .ok () s'

theorem exists_passes (h : analyse others n false s = .ok b s') : Nonempty (Passes others n s b s') := by
  simp only [analyse, explore, bind_eq_ok, Bool.false_eq_true, if_false] at h
  obtain ⟨_, v, ⟨_, u, hsurvey, _, a, hcollect, _, c, hdetect, _, d, hlevels, _, e, hraising, hhints⟩, b', w, hinfer, _, x,
    himports, ⟨⟩⟩ := h
  exact ⟨⟨u, a, c, d, e, v, w, hsurvey, hcollect, hdetect, hlevels, hraising, hhints, hinfer, himports⟩⟩

namespace Passes

variable (p : Passes others n s b s')

theorem explore_ok : explore others n s = .ok () p.explored :=
  (bind_ok p.survey_ok).trans <| (bind_ok p.collect_ok).trans <| (bind_ok p.detect_ok).trans <|
    (bind_ok p.levels_ok).trans <| (bind_ok p.raising_ok).trans p.hints_ok

/-- In the survey of a program its scopes are assigned, and besides no scopes change. -/
theorem exists_assigned (hopen : s.openScopes = []) : ∃ t u, Noted scopes s t ∧ t.openScopes = [] ∧
    Scope.assign n t = .ok () u ∧ Noted scopes u p.surveyed ∧ p.surveyed.openScopes = [] := by
  obtain ⟨_, t, hdeclare, hrest⟩ := bind_eq_ok.1 p.survey_ok
  obtain ⟨_, u, hassign, htargets⟩ := bind_eq_ok.1 hrest
  have ht : Noted scopes s t := notes_declare (fun _ _ _ _ _ _ => rfl) others n s () t hdeclare
  have hu : Noted (fun _ : Facts => ()) t u := notes_assign (fun _ _ => rfl) n t () u hassign
  have hv : Noted scopes u p.surveyed := notes_targets (fun _ _ => rfl) n u () _ htargets
  have htopen : t.openScopes = [] := ht.openScopes_eq.trans hopen
  exact ⟨t, u, ht, htopen, hassign, hv, by rw [hv.openScopes_eq, hu.openScopes_eq, htopen]⟩

theorem laid_of_recorded (h : s.Recorded k n) (hk : k ≤ nestingLimit) (hopen : s.openScopes = []) :
    p.surveyed.Laid k n ∧ p.surveyed.openScopes = [] := by
  obtain ⟨t, u, ht, htopen, hassign, hv, hvopen⟩ := p.exists_assigned hopen
  exact ⟨(((h.of_noted ht).prepared hk htopen hassign).laid hk).of_noted hv, hvopen⟩

theorem laid_surveyed (h : s.Laid k n) (hopen : s.openScopes = []) :
    p.surveyed.Laid k n ∧ p.surveyed.openScopes = [] := by
  obtain ⟨t, u, ht, htopen, hassign, hv, hvopen⟩ := p.exists_assigned hopen
  exact ⟨((h.of_noted ht).assign htopen hassign).of_noted hv, hvopen⟩

theorem noted_surveyed (hπ : Elsewhere π) : Noted π s p.surveyed := notes_survey hπ others n s () _ p.survey_ok

/-- Between the survey and the inference of types, what a view shows stays the same, unless a pass writes it. -/
theorem noted_explored (hπ : Unexplored π) : Noted π p.surveyed p.explored :=
  (notes_collect hπ.calls n _ () _ p.collect_ok).trans <|
    (notes_detect hπ.mutableVars n _ () _ p.detect_ok).trans <|
    (notes_levels hπ.level n _ () _ p.levels_ok).trans <|
    (notes_raising hπ.raises n _ () _ p.raising_ok).trans (notes_hints hπ.inHint n _ () _ p.hints_ok)

theorem same_nodes : Noted (fun _ : Facts => ()) s p.explored ∧ Noted (fun _ : Facts => ()) p.inferred s' :=
  ⟨(p.noted_surveyed {}).trans (p.noted_explored {}), notes_imports (fun _ _ _ => rfl) n _ () s' p.imports_ok⟩

variable (h : p.surveyed.Laid k n)
include h

theorem laid_explored : p.explored.Laid k n := h.of_noted (p.noted_explored {})

theorem exists_follows : ∃ js, Follows (· ∈ n.ids k) p.explored js p.inferred := by
  have hlaid := p.laid_explored h
  obtain ⟨rs, hfollows, _⟩ :=
    Inference.reports_infer (hlaid.mem_ids n .self) p.explored [] b p.inferred (.refl hlaid.sound) p.infer_ok
  exact ⟨_, hfollows⟩

theorem laid (hopen : p.surveyed.openScopes = []) : s'.Laid k n ∧ s'.openScopes = [] := by
  obtain ⟨js, hfollows⟩ := p.exists_follows h
  have hexplored : Noted scopes p.surveyed p.explored := p.noted_explored {}
  have himports : Noted scopes p.inferred s' := notes_imports (fun _ _ _ => rfl) n p.inferred () s' p.imports_ok
  refine ⟨((p.laid_explored h).follows hfollows).of_noted himports, ?_⟩
  rw [himports.openScopes_eq, hfollows.openScopes_eq, hexplored.openScopes_eq, hopen]

/-- While types are inferred, and after that, only facts about types and imports change. -/
theorem view_explored (huntyped : ∀ f : Facts, π f.untyped = π f)
    (himports : ∀ (f : Facts) imports importedFrom, π { f with imports, importedFrom } = π f) (id : NodeId) :
    π (s'.known id) = π (p.explored.known id) := by
  obtain ⟨js, hfollows⟩ := p.exists_follows h
  rw [(notes_imports himports n p.inferred () s' p.imports_ok).view_eq id, ← huntyped, (hfollows.retyped id).untyped_eq, huntyped]

theorem calls_eq (id : NodeId) :
    (s'.known id).calls =
      grown (s.known id).calls (callsTo id (p.surveyed.additions nestingLimit (p.surveyed.now n))) := by
  have hbefore : Noted calls s p.surveyed := p.noted_surveyed {}
  have hafter : Noted calls p.collected p.explored :=
    (notes_detect (fun _ _ => rfl) n _ () _ p.detect_ok).trans <|
      (notes_levels (fun _ _ => rfl) n _ () _ p.levels_ok).trans <|
      (notes_raising (fun _ _ => rfl) n _ () _ p.raising_ok).trans (notes_hints (fun _ _ => rfl) n _ () _ p.hints_ok)
  have hlast : (s'.known id).calls = (p.explored.known id).calls :=
    p.view_explored h (fun _ => rfl) (fun _ _ _ => rfl) id
  rw [hlast, hafter.view_eq, (collect_appends p.collect_ok).calls_eq, hbefore.view_eq]

theorem calls_kept_iff :
    (∀ id, (s'.known id).calls = (s.known id).calls) ↔ p.surveyed.additions nestingLimit (p.surveyed.now n) = [] := by
  simp only [p.calls_eq h, grown_eq_self_iff]
  generalize p.surveyed.additions nestingLimit (p.surveyed.now n) = js
  constructor
  · intro hnone
    cases js with
    | nil => rfl
    | cons j js => simpa [callsTo] using hnone j.1
  · rintro rfl id
    rfl

/-- The variables that are known to change stay the same if a count agrees with them, and, if each function is counted once,
only then. -/
theorem mutableVars_kept :
    (Mutation.Agrees p.surveyed n → ∀ id, (s'.known id).mutableVars = (s.known id).mutableVars) ∧
      ((p.surveyed.counted nestingLimit (p.surveyed.now n)).Nodup →
        (∀ id, (s'.known id).mutableVars = (s.known id).mutableVars) → Mutation.Agrees p.surveyed n) := by
  have hbefore : Noted mutableVars s p.surveyed := p.noted_surveyed {}
  have hcollected : Noted counting p.surveyed p.collected := notes_collect (fun _ _ => rfl) n _ () _ p.collect_ok
  have hafter : Noted mutableVars p.counted p.explored :=
    (notes_levels (fun _ _ => rfl) n _ () _ p.levels_ok).trans <|
      (notes_raising (fun _ _ => rfl) n _ () _ p.raising_ok).trans (notes_hints (fun _ _ => rfl) n _ () _ p.hints_ok)
  have hlast (id : NodeId) : (s'.known id).mutableVars = (p.counted.known id).mutableVars :=
    (p.view_explored h (fun _ => rfl) (fun _ _ _ => rfl) id).trans (hafter.view_eq id)
  have hfirst (id : NodeId) : (p.collected.known id).mutableVars = (s.known id).mutableVars :=
    (Prod.mk.inj (hcollected.view_eq id)).2.trans (hbefore.view_eq id)
  simp only [hlast, ← hfirst]
  refine ⟨fun hagrees id => ?_, fun hnodup => (mutableVars_kept_iff hnodup hcollected p.detect_ok).1⟩
  rw [(detect_same hagrees hcollected p.detect_ok).view_eq id]

theorem marks_eq :
    s'.marks = (p.surveyed.lookedAt nestingLimit (p.surveyed.now n)).foldl p.surveyed.look s.marks := by
  have hbefore : Noted raises s p.surveyed := p.noted_surveyed {}
  have hlevelled : Noted (fun f => (f.places, f.raises)) p.surveyed p.levelled :=
    (notes_collect (fun _ _ => rfl) n _ () _ p.collect_ok).trans <|
      (notes_detect (fun _ _ => rfl) n _ () _ p.detect_ok).trans (notes_levels (fun _ _ => rfl) n _ () _ p.levels_ok)
  have hafter : Noted raises p.raised p.explored := notes_hints (fun _ _ => rfl) n _ () _ p.hints_ok
  have hplaces : Noted places p.surveyed p.levelled := hlevelled.mono fun _ _ hview => (Prod.mk.inj hview).1
  have hlast : s'.marks = p.raised.marks := funext fun id => congrArg (· = true)
    ((p.view_explored h (fun _ => rfl) (fun _ _ _ => rfl) id).trans (hafter.view_eq id))
  have hfirst : p.levelled.marks = s.marks := funext fun id => congrArg (· = true)
    ((Prod.mk.inj (hlevelled.view_eq id)).2.trans (hbefore.view_eq id))
  rw [hlast, (detect_marked p.raising_ok).marks_eq, hplaces.lookedAt_eq, hplaces.look_eq, hplaces.now_eq, hfirst]

theorem raises_kept_iff :
    (∀ id, (s'.known id).raises = (s.known id).raises) ↔ p.surveyed.RaisesClosed nestingLimit (p.surveyed.now n) := by
  have hbefore : Noted raises s p.surveyed := p.noted_surveyed {}
  have hmarks : p.surveyed.marks = s.marks := funext fun id => congrArg (· = true) (hbefore.view_eq id)
  rw [raisesClosed_iff, ← foldl_look_eq_iff, hmarks, ← p.marks_eq h]
  simp only [funext_iff, eq_iff_iff]
  exact forall_congr' fun _ => Bool.eq_iff_iff

theorem outcome_kept_iff
    (hreturns : ((n.returnsIn k []).map Prod.fst).Nodup) {f : Node} (hf : f.Within n) {o : Outcome}
    (ho : s.outcome f.id = some o) :
    s'.outcome f.id = some o ↔ ∀ t ∈ p.explored.told k n f.id, o.Admits t := by
  have hlaid := p.laid_explored h
  obtain ⟨js, hfollows, htold⟩ := Inference.exists_told hlaid hreturns p.infer_ok
  obtain ⟨hexplored, himports⟩ := p.same_nodes
  have hsame {t t' : Session} (hnodes : t'.nodes = t.nodes) : t'.outcome f.id = t.outcome f.id := by
    have hcontent : t'.content = t.content := funext fun id => by rw [content, content, hnodes]
    have hsaid : t'.saidBy = t.saidBy := funext fun id => by rw [saidBy, saidBy, hcontent]
    rw [outcome, outcome, hcontent, hsaid]
  rw [hsame himports.nodes_eq, hfollows.outcome_eq f.id (hlaid.mem_ids f hf), hsame hexplored.nodes_eq, ho, map_some,
    htold, some.injEq, Outcome.foldl_join_eq_self_iff]

theorem hint_kept (id : NodeId) (hid : (s.known id).hint.isSome) :
    (s'.known id).hint.isSome := by
  obtain ⟨js, hfollows⟩ := p.exists_follows h
  have hbefore : Noted hint s p.explored := (p.noted_surveyed {}).trans (p.noted_explored {})
  have hafter : Noted hint p.inferred s' := notes_imports (fun _ _ _ => rfl) n _ () s' p.imports_ok
  rw [hafter.view_eq]
  exact (hfollows.retyped id).hint_isSome (by rwa [hbefore.view_eq])

end Passes

theorem recorded_of_recordAll {next : NodeId} (hdepth : n.Shallow k) (hnodup : (n.ids k).Nodup) (hk : k ≤ nestingLimit)
    (hlt : ∀ id ∈ n.ids k, id < next) : (after (recordAll nestingLimit n { next })).Recorded k n := by
  obtain ⟨nodes, hrecord, hholds, _⟩ := recordAll_ok hdepth hnodup hk { next }
  rw [hrecord]
  exact ⟨(ensures_recordAll _ _ _ () _ (fun _ _ h => by simp at h) hrecord).1, hholds, hnodup, hlt⟩

def returnsTwiceRecorded : Session := after (recordAll nestingLimit returnsTwice { next := 11 })

theorem recorded_returnsTwice : returnsTwiceRecorded.Recorded 5 returnsTwice :=
  recorded_of_recordAll (by decide) (by decide) (le_nestingLimit (by decide)) (by decide)

def returnsTwiceAnalysed : Session := after (analyse [] returnsTwice false returnsTwiceRecorded)

def analysed (times : Nat) (source : String) : Option (Node × Session) :=
  match (do
    let n ← readProgram source
    (List.range times).forM fun _ => discard (analyse [] n)
    refresh n) {} with
  | .ok n s => some (n, s)
  | .error _ _ => none

def resultsAfter (times : Nat) (source : String) : Option (List (String × Option String)) :=
  (analysed times source).map fun p => functionsIn 9 p.1

def factsAfter {γ : Type} (π : Facts → γ) (times : Nat) (source : String) : Option (List γ) :=
  (analysed times source).map fun p => p.2.facts.values.map π

end Run

/-- A node and all below it, for so many levels, without the annotations for results. -/
def Node.source : Nat → Node → Node
  | 0, n => n.stub
  | k + 1, n => n.withShape (n.shape.unsaid.map (source k))

/-- The node of an identity and all below it as a session has them, without the annotations for results. -/
def Session.source (s : Session) : Nat → NodeId → Node
  | 0, id => ⟨id, none, none, .pass⟩
  | k + 1, id => (s.content id).withShape ((s.content id).shape.unsaid.map fun c => s.source k c.id)

theorem Shape.mem_children_of_unsaid {α : Type} {c : α} {shape : Shape α} (h : c ∈ shape.unsaid.children) : c ∈ shape.children := by
  cases shape with
  | functionDef f =>
    simp only [unsaid, children, toList_none, append_nil] at h
    exact mem_append_left _ h
  | _ => exact h

namespace Node

theorem withShape_of_unsaid (h : m.unsaid = n.unsaid) (f : NodeId → Node) :
    m.withShape (m.shape.unsaid.map fun c => f c.id) = n.withShape (n.shape.unsaid.map fun c => f c.id) := by
  have hunsaid (n : Node) :
      n.withShape (n.shape.unsaid.map fun c => f c.id) = n.unsaid.withShape (n.unsaid.shape.map fun c => f c.id) := by
    have hshape : n.unsaid.shape = n.shape.unsaid.map stub := by
      obtain ⟨_, _, _, shape⟩ := n
      cases shape <;> rfl
    rw [hshape, Shape.map_map]
    rfl
  rw [hunsaid m, h, ← hunsaid]

theorem nodup_childIds (h : Holds k s n) (hnodup : (n.ids k).Nodup) (hm : m.Within n) : (m.children.map (·.id)).Nodup := by
  induction k generalizing n with
  | zero => exact h.elim
  | succ k ih =>
    have hparts := (nodup_cons.1 hnodup).2
    cases hm with
    | self =>
      have hheld := h.2
      refine hparts.sublist ?_
      generalize m.children = cs at hheld
      induction cs with
      | nil => exact .slnil
      | cons c cs ihcs =>
        obtain ⟨hc, hcs⟩ := forall_mem_cons.1 hheld
        cases k with
        | zero => exact hc.elim
        | succ k => exact ((ihcs hcs).trans (sublist_append_right _ _)).cons_cons c.id
    | part hc hm => exact ih (h.2 _ hc) ((nodup_flatMap.1 hparts).1 _ hc) hm

/-- What is a part of a node otherwise is not the annotation for a result. -/
theorem not_result (h : Holds k s n) (hnodup : (n.ids k).Nodup) (hm : m.Within n) (hc : c ∈ m.shape.unsaid.children)
    {g : Node} (hg : g.Within n) : g.result? ≠ some (some c.id) := by
  intro hresult
  obtain ⟨r, hr, hid⟩ := mem_children_of_result hresult
  obtain rfl := hg.eq_of_child h hnodup hm hr (mem_children_of_unsaid hc) hid
  have hnodup := nodup_childIds h hnodup hm
  obtain ⟨_, _, _, shape⟩ := g
  cases shape with
  | functionDef f =>
    obtain ⟨r, hr, hid⟩ := map_eq_some_iff.1 (some.inj hresult)
    have hc : c.id ∈ (f.args :: f.body ++ f.decorators).map (·.id) := by
      simpa [Shape.unsaid, Shape.children] using mem_map_of_mem hc
    rw [children, Shape.children, hr, map_append] at hnodup
    exact (nodup_append.1 hnodup).2.2 _ hc _ (by simp [hid]) rfl
  | _ => cases hresult

end Node

/-- Where all nodes but the names of results are as they were, so is the program. -/
theorem Session.Recorded.source_eq (h : s.Recorded k n)
    (hunsaid : ∀ m : Node, m.Within n → (∀ g : Node, g.Within n → g.result? ≠ some (some m.id)) →
      (s'.content m.id).unsaid = m.unsaid) (j : Nat) : s'.source j n.id = n.source j := by
  have hall (m : Node) (hm : m.Within n) (hfree : ∀ g : Node, g.Within n → g.result? ≠ some (some m.id)) :
      s'.source j m.id = m.source j := by
    induction j generalizing m with
    | zero => rfl
    | succ j ih =>
      rw [Session.source, Node.withShape_of_unsaid (hunsaid m hm hfree), Node.source]
      refine congrArg m.withShape (ext_children (by rw [frame_map, frame_map]) ?_)
      rw [children_map, children_map]
      exact map_congr_left fun c hc =>
        ih c (hm.child (mem_children_of_unsaid hc)) fun g hg => Node.not_result h.holds h.nodup hm hc hg
  refine hall n .self fun g hg hresult => ?_
  obtain ⟨r, hr, hid⟩ := Node.mem_children_of_result hresult
  exact hg.child_ne h.holds h.nodup hr hid

namespace Run

variable {b : Bool}

/-- An analysis leaves the program as it was, the annotations for results apart. -/
theorem analyse_keeps_source (h : s.Recorded k n) (hk : k ≤ nestingLimit) (hopen : s.openScopes = [])
    (hrun : analyse others n false s = .ok b s') (j : Nat) : s'.source j n.id = n.source j := by
  obtain ⟨p⟩ := exists_passes hrun
  obtain ⟨hexplored, himports⟩ := p.same_nodes
  obtain ⟨js, hfollows⟩ := p.exists_follows (p.laid_of_recorded h hk hopen).1
  have houtline {m : Node} (hm : m.Within n) := (h.of_noted hexplored).holds.content_outline hm
  refine h.source_eq (fun m hm hfree => ?_) j
  rw [himports.content_eq, hfollows.unsaid_eq m.id (h.holds.mem_ids hm) (.inr fun f hf hresult => ?_),
    Node.unsaid_of_outline (houtline hm)]
  obtain ⟨g, hg, rfl⟩ := Node.exists_within hf
  exact hfree g hg (Node.result?_of_outline (houtline hg) ▸ hresult)

theorem returnsTwice_kept :
    returnsTwiceRecorded.Recorded 5 returnsTwice ∧ ∃ b s, analyse [] returnsTwice false returnsTwiceRecorded = .ok b s ∧
      s.source 5 returnsTwice.id = returnsTwice.source 5 ∧ s.outcome 9 ≠ returnsTwiceRecorded.outcome 9 := by
  have hreturned : returned (analyse [] returnsTwice false returnsTwiceRecorded) = true := by decide +kernel
  obtain ⟨b, hrun⟩ := ok_after_of_returned hreturned
  exact ⟨recorded_returnsTwice, b, _, hrun, analyse_keeps_source recorded_returnsTwice (le_nestingLimit (by decide)) (by decide +kernel) hrun 5,
    by decide +kernel⟩

end Run

end Polyglot
