import Polyglot.Proofs.Findings
import Polyglot.Proofs.NestedTypes

/-!
# Reading types again

To read a type is to note containers, so that a type is never read in the same session twice. But what was noted makes no
difference to what a type is read as: computations are considered that take the same course in all sessions which differ
in containers only, and reading a type is one of them.
-/
namespace Polyglot

open Session Effect

variable {self : Option Node → Analysis TypeTerm} {u : Usage} {n : Node} {r : TypeTerm} (id : NodeId) {γ : Type}

namespace Session

variable {α β : Type} {x : Analysis α} {f : α → Analysis β}

/-- A computation that changes no more than containers, and goes the same way whatever containers there are. -/
def Overlooks (x : Analysis α) : Prop :=
  ∀ ⦃s s' : Session⦄ ⦃a : α⦄ ⦃t : Session⦄, Unmoved s s' → x s = .ok a t → Unmoved s t ∧ ∃ t', x s' = .ok a t'

namespace Overlooks

theorem pure (a : α) : Overlooks (Pure.pure a : Analysis α) := by
  intro s s' b t _ hrun
  cases hrun
  exact ⟨.refl s, s', rfl⟩

theorem throw {e : Fault} : Overlooks (throw e : Analysis α) := nofun

theorem bind (hx : Overlooks x) (hf : ∀ a, Overlooks (f a)) : Overlooks (x >>= f) := by
  intro s s' b u hs hrun
  obtain ⟨a, t, hxs, hft⟩ := bind_eq_ok.1 hrun
  obtain ⟨hst, t', hxs'⟩ := hx hs hxs
  have hst' : Unmoved s' t' := (hx hs.symm hxs').1
  obtain ⟨htu, u', hft'⟩ := hf a (hst.symm.trans (hs.trans hst')) hft
  exact ⟨hst.trans htu, u', (bind_ok hxs').trans hft'⟩

theorem map (g : α → β) (hx : Overlooks x) : Overlooks (g <$> x) := by
  exact hx.bind fun a => .pure (g a)

theorem mapM (hf : ∀ a, Overlooks (f a)) (as : List α) : Overlooks (as.mapM f) :=
  Sequential.mapM (P := Overlooks) ⟨pure, bind⟩ fun a _ => hf a

theorem tryCatch {h : Fault → Analysis α} (hx : Overlooks x) (hh : ∀ e s a t, h e s ≠ .ok a t) :
    Overlooks (tryCatch x h) := by
  intro s s' a t hs hrun
  obtain ⟨hst, t', hxs'⟩ := hx hs (ok_of_catch hh hrun)
  exact ⟨hst, t', catch_ok hxs'⟩

theorem of_looks (hx : Looks Facts.uncontained x) : Overlooks x := by
  intro s s' a t hs hrun
  obtain ⟨rfl, hrun'⟩ := hx _ _ _ _ hs.toNoted hrun
  exact ⟨.refl t, s', hrun'⟩

end Overlooks

theorem overlooks_throwAt {c : Cause} {text : Option String} : Overlooks (throwAt c text n : Analysis α) :=
  fun _ _ _ _ _ hrun => absurd hrun throwAt_ne_ok

theorem overlooks_current (n : Node) : Overlooks (current n) := .of_looks (looks_current n)

theorem overlooks_facts {id : NodeId} {f : Facts → Analysis α} (hview : ∀ x y, x.uncontained = y.uncontained → f x = f y)
    (hf : ∀ x, Overlooks (f x)) : Overlooks (factsOf id >>= f) := by
  intro s s' a t hs hrun
  rw [bind_ok (factsOf_ok s' id), hview _ _ (hs.view_eq id)]
  exact hf _ hs hrun

theorem overlooks_noting (c : TypeTerm × TypeTerm) : Overlooks (note id ({ · with container := some c })) := by
  intro s s' a t _ hrun
  cases hrun
  exact ⟨(Unmoved.refl s).noting id c.1 c.2, _, rfl⟩

theorem mention_eq {s s' : Session} (h : Unmoved s s') (n : Node) : s'.mention n = s.mention n := by
  have hnow : s'.now = s.now := funext h.toNoted.now_eq
  have hcontent : s'.content = s.content := funext h.toNoted.content_eq
  rw [mention, mention, inferred, inferred, hnow, hcontent, h.hint_eq]

theorem overlooks_hint? (n : Node) : Overlooks (hint? n) := by
  intro s s' a t hs hrun
  rw [hint?_ok] at hrun
  cases hrun
  exact ⟨.refl s, s', by rw [hint?_ok, mention_eq hs]⟩

end Session

namespace TypeStyle

/-- A way of naming types that does not go by what was noted. -/
structure Overlooking (st : TypeStyle) : Prop where
  nameType : ∀ m name l, Looks Facts.uncontained (st.nameType m name l)
  combine : ∀ value index, Looks Facts.uncontained (st.combine value index)
  container : ∀ m value index, Looks Facts.uncontained (st.container m value index)
  functionType : st.functionType = none

variable {st : TypeStyle}

theorem overlooks_mapsOf : Overlooks st.mapsOf := by
  intro s s' a t hs hrun
  cases hrun
  refine ⟨.refl s, s', ?_⟩
  have hmaps : st.mapsIn s' = st.mapsIn s := by rw [mapsIn, mapsIn, hs.maps_eq]
  exact congrArg (EStateM.Result.ok · s') hmaps

theorem overlooks_parameterOf (n i : Node) : Overlooks (parameterOf n i) :=
  of_ite overlooks_throwAt (overlooks_current i)

theorem overlooks_containerName (m : TypeMaps) (value : TypeTerm) : Overlooks (containerName m value) := by
  cases value with
  | many => exact .throw
  | _ => exact .pure _

theorem looks_commonContainer {π : Facts → γ} {combine : TypeTerm → TypeTerm → Analysis TypeTerm}
    (hcombine : ∀ value index, Looks π (combine value index)) (m : TypeMaps) (value index : TypeTerm) :
    Looks π (commonContainer combine m value index) := by
  cases index with
  | many ts =>
    refine of_ite (.pure _) (of_ite .throw ((Looks.mapM (fun t => ?_) ts).bind fun _ => of_ite (.pure _) (hcombine _ _)))
    cases t with
    | text => exact .pure _
    | _ => exact .throw
  | _ => exact of_ite (.pure _) (hcombine _ _)

namespace Overlooking

variable (hst : st.Overlooking)
include hst

theorem readNode (hself : ∀ n?, Overlooks (self n?)) (n? : Option Node) : Overlooks (st.readNode self n?) := by
  refine overlooks_mapsOf.bind fun m => ?_
  cases n? with
  | none => exact .pure _
  | some n =>
    dsimp only
    split
    case h_1 =>
      refine overlooks_facts (fun x y hxy => ?_) fun x => (Overlooks.of_looks (hst.nameType _ _ _)).map _
      rw [show x.lifetime = y.lifetime from (congrArg Facts.lifetime hxy :)]
    case h_5 => exact (Overlooks.mapM (fun e => (overlooks_current e).bind fun c => hself (some c)) _).bind fun _ => .pure _
    case h_7 =>
      refine (overlooks_parameterOf n _).bind fun i => (overlooks_current _).bind fun v => (hself (some v)).bind fun value =>
        (hself (some i)).bind fun index => (overlooks_containerName m value).bind fun c => ?_
      exact (overlooks_noting n.id (c, st.settle c index)).bind fun _ =>
        (Overlooks.of_looks (hst.combine _ _)).map _
    all_goals exact .pure _

theorem ofNode (n? : Option Node) : Overlooks (st.ofNode n?) := of_tie (fun _ => hst.readNode) (fun _ => .throw) nestingLimit n?

theorem readNode_noted (hself : ∀ n?, Overlooks (self n?)) {v i : Node} {s s' t : Session} (hn : n.shape = .subscript v i u)
    (hs : Unmoved s s') (hread : st.readNode self (some n) s = .ok r t) : ∃ c t', (t.known n.id).container = some c ∧
      st.readNode self (some n) s' = .ok r t' ∧ (t'.known n.id).container = some c := by
  -- All that comes before the note is one computation, and what comes after it changes nothing.
  let before : Analysis (TypeTerm × TypeTerm) := do
    let m ← st.mapsOf
    let index ← parameterOf n i
    let value ← self (some (← current v))
    let index ← self (some index)
    let value ← containerName m value
    return (value, st.settle value index)
  have hbefore : Overlooks before :=
    overlooks_mapsOf.bind fun m => (overlooks_parameterOf n i).bind fun index => (overlooks_current v).bind fun v =>
      (hself (some v)).bind fun value => (hself (some index)).bind fun index => (overlooks_containerName m value).bind fun c =>
        .pure (c, st.settle c index)
  have hsplit : st.readNode self (some n) = (do
      let c ← before
      note n.id ({ · with container := some c })
      st.adjust <$> st.combine c.1 c.2) := by
    simp only [TypeStyle.readNode, hn, before, bind_assoc, pure_bind]
  have hafter (c : TypeTerm × TypeTerm) : Looks Facts.uncontained (st.adjust <$> st.combine c.1 c.2) := by
    exact (hst.combine c.1 c.2).bind fun a => .pure _
  rw [hsplit] at hread ⊢
  obtain ⟨c, t1, hc, hread⟩ := bind_eq_ok.1 hread
  obtain ⟨-, t1', hc'⟩ := hbefore hs hc
  have hs1 : Unmoved t1 t1' := (hbefore hs hc).1.symm.trans (hs.trans (hbefore hs.symm hc').1)
  have hs2 : Unmoved (t1.noting n.id c.1 c.2) (t1'.noting n.id c.1 c.2) :=
    (((Unmoved.refl t1).noting n.id c.1 c.2).symm.trans hs1).noting n.id c.1 c.2
  obtain ⟨rfl, hread'⟩ := hafter c _ _ _ _ hs2.toNoted hread
  refine ⟨c, t1'.noting n.id c.1 c.2, noting_container n.id c.1 c.2, (bind_ok hc').trans ((bind_ok rfl).trans hread'), ?_⟩
  exact noting_container n.id c.1 c.2

/-- A container that is read is noted last of all, and the same one is noted whatever containers there were. -/
theorem ofNode_noted {v i : Node} {s s' t : Session} (hn : n.shape = .subscript v i u) (hs : Unmoved s s')
    (hread : st.ofNode (some n) s = .ok r t) :
    ∃ c t', (t.known n.id).container = some c ∧ st.ofNode (some n) s' = .ok r t' ∧ (t'.known n.id).container = some c := by
  obtain ⟨k, hk⟩ := exists_nestingLimit
  rw [TypeStyle.ofNode, hk] at hread ⊢
  exact hst.readNode_noted (of_tie (fun _ => hst.readNode) (fun _ => .throw) k) hn hs hread

theorem contained (n : Node) (m : TypeMaps) {type v i : Node} (htype : type.shape = .subscript v i u) :
    Overlooks (ofMention.contained st n m type) := by
  intro s s' a t hs hrun
  obtain ⟨r, t1, hread, hrun⟩ := bind_eq_ok.1 hrun
  obtain ⟨c, t1', hc, hread', hc'⟩ := hst.ofNode_noted htype hs hread
  rw [bind_ok (factsOf_ok t1 type.id)] at hrun
  have hrest : Overlooks (do
      note n.id ({ · with container := some c })
      try st.container m c.1 c.2
      catch f => if f.cause == .typeless && f.place.isNone then throwAt .typeless f.text n else throw f) :=
    (overlooks_noting n.id c).bind fun _ => .tryCatch (.of_looks (hst.container m c.1 c.2)) fun e s a t h => by
      split at h
      · exact throwAt_ne_ok h
      · cases h
  simp only [hc] at hrun
  have hread1 := (hst.ofNode _ hs hread).1
  have hread1' := (hst.ofNode _ hs.symm hread').1
  obtain ⟨hkept, t', hrun'⟩ := hrest (hread1.symm.trans (hs.trans hread1')) hrun
  refine ⟨hread1.trans hkept, t', (bind_ok hread').trans ((bind_ok (factsOf_ok t1' type.id)).trans ?_)⟩
  simp only [hc']
  exact hrun'

theorem ofMention (n : Node) (ann : Option (Option Node)) : Overlooks (st.ofMention n ann) := by
  refine overlooks_mapsOf.bind fun m => ?_
  rcases ann with _ | _ | type
  · exact .pure _
  · exact (hst.ofNode none).bind fun t => of_ite overlooks_throwAt (.pure t)
  · rw [hst.functionType]
    dsimp only
    split
    · contradiction
    · exact hst.contained n m ‹_›
    · exact (hst.ofNode (some type)).bind fun t => of_ite overlooks_throwAt (.pure t)

theorem ofHint (n : Node) : Overlooks (st.ofHint n) := (overlooks_hint? n).bind (hst.ofMention n)

end Overlooking

/-- The type of a node can be named, and is not several types side by side. -/
def Single (st : TypeStyle) (s : Session) (n : Node) : Prop := ∃ t s', st.ofHint n s = .ok t s' ∧ ∀ ts, t ≠ .many ts

end TypeStyle

namespace NativeTypes

variable {nt : NativeTypes} {t : TypeTerm} {s s' : Session} {a : Nat}

theorem termRank_eq_ok : nt.termRank t s = .ok a s' ↔ (∀ ts, t ≠ .many ts) ∧ a = nt.rankOf t.text? ∧ s' = s := by
  cases t with
  | many ts => exact ⟨nofun, fun h => absurd rfl (h.1 ts)⟩
  | _ =>
    constructor
    · intro h
      cases h
      exact ⟨by simp, rfl, rfl⟩
    · rintro ⟨-, rfl, rfl⟩
      rfl

/-- Only types with a name have a rank. -/
theorem exists_rank (ht : nt.rankOf t.text? ≠ 0) : ∃ s r, t = .text s ∧ (s, r) ∈ nt.ranks ∧ nt.rankOf t.text? = r + 1 := by
  cases t with
  | text s =>
    simp only [rankOf, TypeTerm.text?, Option.bind_some] at ht ⊢
    cases hr : nt.ranks.lookup s with
    | none => exact absurd (by rw [hr]) ht
    | some r => exact ⟨s, r, rfl, mem_of_lookup hr, rfl⟩
  | _ => exact absurd rfl ht

end NativeTypes

/-! ### On a page -/

theorem places_of_uncontained (x y : Facts) (h : x.uncontained = y.uncontained) : x.places = y.places :=
  (congrArg Facts.places h :)

/-- Pages that differ in the containers that are noted, and in nothing else. -/
structure Page.Unmoved (p p' : Page) : Prop where
  session : Session.Unmoved p.session p'.session
  rest : p' = { p with session := p'.session }

namespace Emit

/-- From all pages that differ from one in containers only, a computation returns if and only if some condition is met; it
leads to such a page again, with a result of some kind. -/
def Conveys {α : Type} (p0 : Page) (c : Prop) (P : α → Prop) (x : Emit α) : Prop :=
  ∀ p, p0.Unmoved p → (c → ∃ a p', x p = .ok a p') ∧ ∀ a p', x p = .ok a p' → c ∧ p0.Unmoved p' ∧ P a

namespace Conveys

variable {α β : Type} {p0 : Page} {c d : Prop} {P : α → Prop} {Q : β → Prop} {x : Emit α} {f : α → Emit β}

theorem pure {a : α} (ha : P a) : Conveys p0 True P (Pure.pure a : Emit α) := by
  intro p hp
  refine ⟨fun _ => ⟨a, p, rfl⟩, ?_⟩
  intro b p' hrun
  cases hrun
  exact ⟨trivial, hp, ha⟩

theorem looks {x : Analysis α} (hx : Overlooks x) :
    Conveys p0 (∃ a s, x p0.session = .ok a s) (fun a => ∃ s, x p0.session = .ok a s) (liftM x : Emit α) := by
  intro p hp
  constructor
  · rintro ⟨a, s, hrun⟩
    obtain ⟨-, s', hrun'⟩ := hx hp.session hrun
    exact ⟨a, _, lift_analysis_ok hrun'⟩
  · intro a p' hrun
    obtain ⟨s', hrun', rfl⟩ := lift_analysis_eq_ok.1 hrun
    obtain ⟨hs, s, hrun⟩ := hx hp.session.symm hrun'
    refine ⟨⟨a, s, hrun⟩, ⟨hp.session.trans hs, ?_⟩, s, hrun⟩
    rw [hp.rest]

theorem factsOf :
    Conveys p0 True (fun f => f.uncontained = (p0.session.known id).uncontained) (liftM (Session.factsOf id) : Emit Facts) := by
  intro p hp
  have hrun : (liftM (Session.factsOf id) : Emit Facts) p = .ok (p.session.known id) p :=
    lift_analysis_ok (factsOf_ok p.session id)
  refine ⟨fun _ => ⟨_, _, hrun⟩, fun f p' hf => ?_⟩
  cases hf
  exact ⟨trivial, hp, hp.session.view_eq id⟩

variable (hx : Conveys p0 c P x)
include hx

theorem bind (hf : ∀ a, P a → Conveys p0 d Q (f a)) : Conveys p0 (c ∧ d) Q (x >>= f) := by
  intro p hp
  obtain ⟨hreturns, hresult⟩ := hx p hp
  constructor
  · rintro ⟨hc, hd⟩
    obtain ⟨a, p1, hrun⟩ := hreturns hc
    obtain ⟨-, hp1, ha⟩ := hresult a p1 hrun
    obtain ⟨b, p2, hrun'⟩ := (hf a ha p1 hp1).1 hd
    exact ⟨b, p2, (bind_ok hrun).trans hrun'⟩
  · intro b p2 hrun
    obtain ⟨a, p1, hrun, hrun'⟩ := bind_eq_ok.1 hrun
    obtain ⟨hc, hp1, ha⟩ := hresult a p1 hrun
    obtain ⟨hd, hp2, hb⟩ := (hf a ha p1 hp1).2 b p2 hrun'
    exact ⟨⟨hc, hd⟩, hp2, hb⟩

theorem mono {P' : α → Prop} (hcd : c ↔ d) (h : ∀ a, P a → P' a) : Conveys p0 d P' x := by
  intro p hp
  obtain ⟨hreturns, hresult⟩ := hx p hp
  refine ⟨fun hd => hreturns (hcd.2 hd), fun a p' hrun => ?_⟩
  obtain ⟨hc, hp', ha⟩ := hresult a p' hrun
  exact ⟨hcd.1 hc, hp', h a ha⟩

theorem of_iff (hcd : c ↔ d) : Conveys p0 d P x := hx.mono hcd fun _ h => h

theorem last (hf : ∀ a, P a → Conveys p0 True Q (f a)) : Conveys p0 c Q (x >>= f) :=
  (hx.bind hf).of_iff (by rw [and_true])

theorem guarded : Conveys p0 c P (Emit.guarded n x) := by
  intro p hp
  obtain ⟨hreturns, hresult⟩ := hx p hp
  constructor
  · intro hc
    obtain ⟨a, p', hrun⟩ := hreturns hc
    exact ⟨a, p', catch_ok hrun⟩
  · intro a p' hrun
    cases hr : x p with
    | ok b q =>
      rw [Emit.guarded, catch_ok hr] at hrun
      cases hrun
      exact hresult a p' hr
    | error e q =>
      rw [Emit.guarded, catch_error hr] at hrun
      split at hrun
      · cases hrun
      · obtain ⟨s, hrun, -⟩ := lift_analysis_eq_ok.1 hrun
        exact absurd hrun throwAt_ne_ok

omit hx in
theorem mapM {c : α → Prop} {R : γ → β → Prop} {as : List α} {cs : List γ}
    (hf : List.Forall₂ (fun a x => Conveys p0 (c a) (R x) (f a)) as cs) :
    Conveys p0 (∀ a ∈ as, c a) (List.Forall₂ R cs) (as.mapM f) := by
  induction hf with
  | nil => exact (pure .nil).of_iff (by simp)
  | cons ha _ ih =>
    rw [List.mapM_cons]
    refine (ha.bind fun b hb => ih.last fun bs hbs => pure (List.Forall₂.cons hb hbs)).of_iff ?_
    rw [List.forall_mem_cons]

end Conveys

variable {p0 : Page} {c : Prop} {chain : List NodeId}

/-- Emission of a node goes by its rule, under guard. -/
theorem conveys_level {P : Option String → Prop} {step : Visit}
    (hkey : p0.session.keyAt n.id = some n.key) (hn : n.shape.opening? = none) (hstep : Conveys p0 c P (step n)) :
    Conveys p0 c P (do let n ← current n; guarded n (step n)) := by
  obtain ⟨m, hm, hmk⟩ := current_of_keyAt hkey
  obtain rfl := Node.eq_of_key hmk hn
  have hguarded (a : Node) (ha : ∃ s, current m p0.session = .ok a s) : Conveys p0 c P (guarded a (step a)) := by
    obtain ⟨s, hs⟩ := ha
    rw [hm] at hs
    cases hs
    exact hstep.guarded
  exact ((Conveys.looks (overlooks_current m)).bind hguarded).of_iff (and_iff_right ⟨m, _, hm⟩)

theorem conveys_chainOf :
    Conveys p0 (p0.session.scopesOf n.id).isSome (p0.session.scopesOf n.id = some ·)
      (liftM (Scope.chainOf n) : Emit (List NodeId)) := by
  refine (Conveys.looks (.of_looks (looks_chainOf places_of_uncontained n))).mono ?_ ?_
  · rw [Option.isSome_iff_exists]
    exact ⟨fun ⟨a, _, ha⟩ => ⟨a, (Scope.chainOf_eq_ok.1 ha).1⟩, fun ⟨a, ha⟩ => ⟨a, _, Scope.chainOf_eq_ok.2 ⟨ha, rfl⟩⟩⟩
  · rintro a ⟨s, ha⟩
    exact (Scope.chainOf_eq_ok.1 ha).1

/-- A type that was named has a rank unless it is several types side by side. -/
theorem conveys_rank {st : TypeStyle} {nt : NativeTypes} {t : TypeTerm} (ht : ∃ s, st.ofHint n p0.session = .ok t s) :
    Conveys p0 (st.Single p0.session n) (fun a => (∀ ts, t ≠ .many ts) ∧ a = nt.rankOf t.text?)
      (liftM (nt.termRank t) : Emit Nat) := by
  obtain ⟨s, ht⟩ := ht
  have hlooks : Looks Facts.uncontained (nt.termRank t) := by
    cases t with
    | many => exact .throw
    | _ => exact .pure _
  refine (Conveys.looks (.of_looks hlooks)).mono ⟨?_, ?_⟩ ?_
  · rintro ⟨a, s', ha⟩
    exact ⟨t, s, ht, (NativeTypes.termRank_eq_ok.1 ha).1⟩
  · rintro ⟨t', s', ht', hmany⟩
    rw [ht] at ht'
    cases ht'
    exact ⟨_, _, NativeTypes.termRank_eq_ok.2 ⟨hmany, rfl, rfl⟩⟩
  · rintro a ⟨s', ha⟩
    obtain ⟨hmany, ha, -⟩ := NativeTypes.termRank_eq_ok.1 ha
    exact ⟨hmany, ha⟩

theorem conveys_find (name : Option String) :
    Conveys p0 True (· = p0.session.seen name chain) (liftM (Scope.find chain name) : Emit (Option Node)) := by
  refine (Conveys.looks (.of_looks (looks_find places_of_uncontained chain name))).mono
    (iff_true_intro ⟨_, _, Scope.find_ok⟩) ?_
  rintro a ⟨s, ha⟩
  rw [Scope.find_ok] at ha
  cases ha
  rfl

end Emit

end Polyglot
