import Polyglot.Proofs.Casing
import Polyglot.Proofs.Renaming
import Polyglot.Target.Go

/-!
# Names that become visible

The names at the top of a program are changed while the program is gone through, one after the other and each time in
the whole program. A new form is not changed again, so in the end a name has the form that belongs to how it first
comes up at the top: as a function or as any other name.
-/
namespace Polyglot

open Session Effect List Shape Names Lowering

variable {I rest : List NodeId} {E : Node → List (Bool × String)} {scope : NodeId} {π : String → String} (step : Step)

/-- A name that a node has itself, and whether it is the name of a function. -/
def Shape.label? {α : Type} : Shape α → Option (Bool × String)
  | .name id _ => some (false, id)
  | .functionDef f => some (true, f.name)
  | _ => none

namespace Shape

variable {α β : Type} {ρ : String → String} {shape : Shape α} {shape' : Shape β} (f : α → β)

theorem label?_map (shape : Shape α) : (shape.map f).label? = shape.label? := by
  cases shape <;> rfl

theorem label?_relabel (ρ : String → String) (shape : Shape α) :
    (shape.relabel ρ).label? = shape.label?.map fun e => (e.1, ρ e.2) := by
  cases shape <;> rfl

theorem label?_of_frame (h : shape.frame = shape'.frame) : shape.label? = shape'.label? := by
  rw [← label?_map (fun _ => ()) shape, ← label?_map (fun _ => ()) shape']
  exact congrArg label? h

theorem relabel_of_label? (h : shape.label? = none) : shape.relabel ρ = shape := by
  cases shape with
  | name | functionDef => cases h
  | _ => rfl

def isModule {α : Type} : Shape α → Bool
  | .module _ => true
  | _ => false

theorem isModule_map (shape : Shape α) : (shape.map f).isModule = shape.isModule := by
  cases shape <;> rfl

theorem isModule_relabel (ρ : String → String) (shape : Shape α) : (shape.relabel ρ).isModule = shape.isModule := by
  cases shape <;> rfl

end Shape

namespace Node

def isModuleFree : Nat → Node → Bool
  | 0, _ => true
  | k + 1, n => !n.shape.isModule && n.children.all (isModuleFree k)

def isProgram : Nat → Node → Bool
  | 0, _ => false
  | k + 1, n => n.shape.isModule && n.children.all (isModuleFree k)

end Node

namespace Go

/-! ### The new form of a name -/

def visible (e : Bool × String) : String :=
  if e.1 = true ∧ Text.occursIn "_" e.2 = false then (capitalFirst e.2).getD e.2 else camelCase e.2

/-- What a name becomes, by what comes up at the top of a program. -/
def publicName (es : List (Bool × String)) (x : String) : String :=
  if (true, x) ∈ es then visible (true, x) else if (false, x) ∈ es then visible (false, x) else x

variable {es : List (Bool × String)} {x y : String} {e : Bool × String}

theorem public_visible (h : visible e ≠ e.2) : Names.Public e.2 (visible e) := by
  unfold visible at h ⊢
  split_ifs at h ⊢ with hplain
  · refine public_capitalFirst fun hmem => ?_
    rw [← occursIn_underscore, hplain.2] at hmem
    cases hmem
  · exact public_camelCase h

theorem visible_of_public (h : Names.Public x y) (b : Bool) : visible (b, y) = y := by
  unfold visible
  split
  · exact h.capitalFirst_eq
  · exact h.camelCase_eq

theorem public_publicName (h : publicName es x ≠ x) : Names.Public x (publicName es x) := by
  unfold publicName at h ⊢
  split_ifs at h ⊢
  · exact public_visible h
  · exact public_visible h
  · exact absurd rfl h

theorem publicName_of_public (h : Names.Public x y) : publicName es y = y := by
  unfold publicName
  split
  · exact visible_of_public h true
  · split
    · exact visible_of_public h false
    · rfl

theorem publicName_publicName (es : List (Bool × String)) (x : String) :
    publicName es (publicName es x) = publicName es x := by
  by_cases h : publicName es x = x
  · rw [h, h]
  · exact publicName_of_public (public_publicName h)

theorem visible_eq_publicName (he : e ∈ es) (h : e.1 = true ∨ visible e ≠ e.2) : visible e = publicName es e.2 := by
  obtain ⟨b, x⟩ := e
  unfold publicName
  cases b with
  | true => rw [if_pos he]
  | false =>
    split
    · replace h : visible (false, x) ≠ x := h.resolve_left (by simp)
      have hoccurs : Text.occursIn "_" x = true := by
        by_contra hnot
        refine h ?_
        simp [visible, camelCase, hnot]
      simp [visible, hoccurs]
    · rfl

def exposed : Nat → Bool → Node → List (Bool × String)
  | 0, _, _ => []
  | k + 1, top, n =>
    match n.shape.label? with
    | some e => if top then [e] else []
    | none => n.children.flatMap (exposed k (top && !n.opensScope))

def exposedOf : Nat → Node → List (Bool × String)
  | 0, _ => []
  | k + 1, t => t.children.flatMap (exposed k true)

/-! ### One node -/

section Step

variable {s : Session} {m : Node} {self : Rewrite} {scope : NodeId} {rest : List NodeId}

theorem publish_of_none (h : m.shape.label? = none) : publish self m = through self m := by
  unfold publish
  cases hshape : m.shape with
  | name | functionDef =>
    rw [hshape] at h
    cases h
  | _ => rfl

/-- A name at the top is changed in the whole program, all other names stay. -/
theorem publish_of_some (self : Rewrite) (h : m.shape.label? = some e) (hscopes : s.scopesOf m.id = some (m.inside (scope :: rest)).reverse) :
    publish self m s = (do
      if (s.content scope).shape.isModule && visible e != e.2 then rename e.2 (visible e) (s.content scope)
      return [← current m]) s := by
  unfold publish
  cases hshape : m.shape with
  | name id u =>
    rw [hshape] at h
    cases h
    have hinside : m.inside (scope :: rest) = scope :: rest := by simp [Node.inside, Node.opensScope, hshape]
    rw [hinside, reverse_cons] at hscopes
    have hchain : Scope.chain? m s = .ok (some (rest.reverse ++ [scope])) s := congrArg (EStateM.Result.ok · s) hscopes
    have hchainOf : Scope.chainOf m s = .ok (rest.reverse ++ [scope]) s := by
      refine (bind_ok (factsOf_ok s m.id)).trans ?_
      rw [show (s.known m.id).scopes = some (rest.reverse ++ [scope]) from hscopes]
      rfl
    have hinnermost : Scope.innermost (rest.reverse ++ [scope]) s = .ok (s.content scope) s := by
      rw [Scope.innermost, getLast?_concat]
      rfl
    have hglobal : Scope.isGlobal m s = .ok (s.content scope).shape.isModule s := by
      refine (bind_ok hchainOf).trans ((bind_ok hinnermost).trans ?_)
      cases (s.content scope).shape <;> rfl
    have hvisible : visible (false, id) = camelCase id := by simp [visible]
    simp only
    rw [bind_ok hchain]
    simp only
    rw [bind_ok hglobal, hvisible]
    cases (s.content scope).shape.isModule with
    | false => rfl
    | true =>
      cases hnew : camelCase id != id with
      | false => rfl
      | true => exact (bind_ok hchainOf).trans (bind_ok hinnermost)
  | functionDef f =>
    rw [hshape] at h
    cases h
    have hinside : m.inside (scope :: rest) = m.id :: scope :: rest := by simp [Node.inside, Node.opensScope, hshape]
    rw [hinside] at hscopes
    have hchain : Scope.chain? m s = .ok (some (m.id :: scope :: rest).reverse) s := congrArg (EStateM.Result.ok · s) hscopes
    have hvisible : visible (true, f.name) = if Text.occursIn "_" f.name = true then camelCase f.name
        else (capitalFirst f.name).getD f.name := by
      cases hoccurs : Text.occursIn "_" f.name <;> simp [visible, hoccurs]
    simp only
    rw [bind_ok hchain]
    simp only [reverse_reverse, getElem?_cons_succ, getElem?_cons_zero]
    rw [bind_ok (nodeOf_ok s scope), ← hvisible]
    cases (s.content scope).shape <;> rfl
  | _ =>
    rw [hshape] at h
    cases h

end Step

/-! ### The way through a program -/

section Visits

variable {s0 s s' : Session} {ρ ρ' : String → String} {k j : Nat} {t c m : Node} {top : Bool} {chain : List NodeId}
  {self : Rewrite}

/-- A program on the way: each of its names has its old or its new form. -/
structure Underway (π : String → String) (I : List NodeId) (s0 : Session) (ρ : String → String) (s : Session) : Prop where
  renamed : Renamed ρ I s0 s
  between : ∀ x, ρ x = x ∨ ρ x = π x

/-- What has come up is settled: it is left alone, or it has got its new form. -/
def Settled (π ρ : String → String) (e : Bool × String) : Prop := e.1 = false ∧ visible e = e.2 ∨ ρ e.2 = π e.2

/-- The way through a tree brings the program further, past all that comes up in the tree. -/
def Visits (π : String → String) (I : List NodeId) (s0 : Session) (self : Node → Analysis (List Node)) (c : Node)
    (es : List (Bool × String)) : Prop :=
  ∀ ρ s m, Underway π I s0 ρ s → s.nodes[c.id]? = some m → ∃ ρ' s' m', self m s = .ok [m'] s' ∧ m'.id = c.id ∧
    Underway π I s0 ρ' s' ∧ (∀ x, ρ x = π x → ρ' x = π x) ∧ ∀ e ∈ es, Settled π ρ' e

section Replace

variable {π : String → String} (hπ : ∀ x, π (π x) = π x) (hx : π x ≠ x)

include hπ hx

/-- No other name has become one that is still to be changed. -/
theorem ne_of_settled {z : String} (hz : ρ z = π z) : ρ z ≠ x := by
  intro heq
  have hxz : π z = x := hz.symm.trans heq
  have hfix := hπ z
  rw [hxz] at hfix
  exact hx hfix

/-- A name is changed everywhere: it gets its new form, and all others keep theirs. -/
theorem replacing_spec (hρ : ∀ z, ρ z = z ∨ ρ z = π z) :
    (∀ z, replacing x (π x) (ρ z) = z ∨ replacing x (π x) (ρ z) = π z) ∧
      (∀ z, ρ z = π z → replacing x (π x) (ρ z) = π z) ∧ replacing x (π x) (ρ x) = π x := by
  have hkept (z : String) (hz : ρ z = π z) : replacing x (π x) (ρ z) = π z := by
    rw [replacing, if_neg (ne_of_settled hπ hx hz), hz]
  have hnew : replacing x (π x) (ρ x) = π x := by
    rcases hρ x with hold | hsettled
    · rw [hold, replacing, if_pos rfl]
    · exact hkept x hsettled
  refine ⟨fun z => ?_, hkept, hnew⟩
  rcases hρ z with hold | hsettled
  · by_cases hz : z = x
    · subst z
      exact .inr hnew
    · rw [hold, replacing, if_neg hz]
      exact .inl rfl
  · exact .inr (hkept z hsettled)

end Replace

/-- The innermost scope of a node, and whether it is the program itself. -/
structure Located (s0 : Session) (t : Node) (top : Bool) (scope : NodeId) : Prop where
  sketch : ∃ n, s0.sketch scope = some n ∧ n.id = scope ∧ n.shape.isModule = top
  root : top = true → scope = t.id

theorem Located.content (h : Located s0 t top scope) (hs : Renamed ρ I s0 s) :
    (s.content scope).id = scope ∧ (s.content scope).shape.isModule = top := by
  obtain ⟨n, hn, hid, hmodule⟩ := h.sketch
  obtain ⟨n', hn', hid', hmodule'⟩ : ∃ n', s.sketch scope = some n' ∧ n'.id = scope ∧ n'.shape.isModule = top := by
    rw [hs.sketch_eq, hn]
    split
    · exact ⟨n.renamed ρ, rfl, hid, (isModule_relabel ρ n.shape).trans hmodule⟩
    · exact ⟨n, rfl, hid, hmodule⟩
  obtain ⟨m, hm, rfl⟩ := Option.map_eq_some_iff.1 hn'
  rw [content_of_getElem? hm]
  exact ⟨hid', (isModule_map Node.stub m.shape).symm.trans hmodule'⟩

theorem outline_of_renamed (hs : Renamed ρ I s0 s) (hc : s0.sketch c.id = some c.outline) (hmem : c.id ∈ I)
    (hm : s.nodes[c.id]? = some m) : m.outline = c.outline.renamed ρ := by
  have hsketch := hs.sketch_eq c.id
  rw [if_pos hmem, hc, sketch, hm] at hsketch
  exact Option.some.inj hsketch

theorem opensScope_of_label? (h : c.shape.label? = some e) : c.opensScope = e.1 := by
  unfold Node.opensScope
  cases hshape : c.shape with
  | name | functionDef =>
    rw [hshape] at h
    cases h
    rfl
  | _ =>
    rw [hshape] at h
    cases h

theorem opensScope_of_isModule (h : t.shape.isModule = true) : t.opensScope = true ∧ t.shape.label? = none := by
  obtain ⟨_, _, _, shape⟩ := t
  cases shape with
  | module => exact ⟨rfl, rfl⟩
  | _ => cases h

theorem visits_label (hk : k ≤ nestingLimit) (ht : Holds k s0 t) (hc : s0.sketch c.id = some c.outline) (hmem : c.id ∈ t.ids k)
    (hlabel : c.shape.label? = some e) (hscopes : s0.scopesOf c.id = some (c.inside (scope :: rest)).reverse)
    (hlocated : Located s0 t top scope) (hes : top = true → e ∈ es) :
    Visits (publicName es) (t.ids k) s0 (publish self) c (if top then [e] else []) := by
  intro ρ s m hunder hm
  have houtline := outline_of_renamed hunder.renamed hc hmem hm
  have hid : m.id = c.id := by
    have hid := congrArg Node.id houtline
    exact hid
  have hlabel' : m.shape.label? = some (e.1, ρ e.2) := by
    have hshape := congrArg (fun n => n.shape.label?) houtline
    simp only [Node.outline, Node.renamed, Node.withShape, label?_map, label?_relabel, hlabel] at hshape
    exact hshape
  have hinside : m.inside (scope :: rest) = c.inside (scope :: rest) := by
    rw [Node.inside, Node.inside, opensScope_of_label? hlabel', opensScope_of_label? hlabel, hid]
  obtain ⟨hscopeId, hmodule⟩ := hlocated.content hunder.renamed
  have hstep := publish_of_some self hlabel' (show s.scopesOf m.id = some (m.inside (scope :: rest)).reverse by
    rw [hid, hinside, hunder.renamed.rest]
    exact hscopes)
  rw [hmodule] at hstep
  have hlast {ρ' : String → String} {s' : Session} (hs' : Renamed ρ' (t.ids k) s0 s') :
      ∃ m', (do return [← current m] : Analysis (List Node)) s' = .ok [m'] s' ∧ m'.id = c.id := by
    have hsketch := hs'.sketch_eq c.id
    rw [if_pos hmem, hc] at hsketch
    obtain ⟨m', hm', houtline'⟩ := Option.map_eq_some_iff.1 hsketch
    have hid' := congrArg Node.id houtline'
    exact ⟨m', (bind_ok (current_of_getElem? (hid.symm ▸ hm'))).trans rfl, hid'⟩
  cases hact : top && visible (e.1, ρ e.2) != ρ e.2 with
  | false =>
    obtain ⟨m', hrun, hid'⟩ := hlast hunder.renamed
    rw [hact] at hstep
    refine ⟨ρ, s, m', hstep.trans hrun, hid', hunder, fun _ h => h, fun e' he' => ?_⟩
    cases top with
    | false => cases he'
    | true =>
      obtain rfl := mem_singleton.1 he'
      rcases hunder.between e'.2 with hold | hsettled
      · rw [hold] at hact
        have hstays : visible e' = e'.2 := by simpa using hact
        cases hfunction : e'.1 with
        | false => exact .inl ⟨hfunction, hstays⟩
        | true => exact .inr (hold.trans (hstays.symm.trans (visible_eq_publicName (hes rfl) (.inl hfunction))))
      · exact .inr hsettled
  | true =>
    rw [hact] at hstep
    obtain ⟨rfl, hchanges⟩ := Bool.and_eq_true_iff.1 hact
    have hold : ρ e.2 = e.2 := by
      by_contra hne
      have hsettled := (hunder.between e.2).resolve_left hne
      rw [hsettled] at hne hchanges
      rw [visible_of_public (public_publicName hne)] at hchanges
      simp at hchanges
    rw [hold] at hstep hchanges
    have hne : visible e ≠ e.2 := by simpa using hchanges
    have hnew := visible_eq_publicName (hes rfl) (.inr hne)
    obtain ⟨s', hrename, hs'⟩ := rename_ok e.2 (visible e) hk (ht.drawn.renamed hunder.renamed)
      (hscopeId.trans (hlocated.root rfl))
    rw [hnew] at hs' hne
    obtain ⟨hbetween, honward, hsettled⟩ := replacing_spec (publicName_publicName es) hne hunder.between
    have hs'' := hunder.renamed.comp hs'
    obtain ⟨m', hrun, hid'⟩ := hlast hs''
    refine ⟨_, s', m', hstep.trans ((bind_ok hrename).trans hrun), hid', ⟨hs'', hbetween⟩, honward, fun e' he' => ?_⟩
    obtain rfl := mem_singleton.1 he'
    exact .inr hsettled

theorem visits_parts {cs0 cs : List Node} (hids : cs0.map (·.id) = cs.map (·.id)) (hcs : ∀ c ∈ cs, s0.sketch c.id ≠ none)
    (hvisits : ∀ c ∈ cs, Visits π I s0 self c (E c)) (hunder : Underway π I s0 ρ s) :
    ∃ ρ' s' bs, cs0.mapM (one self) s = .ok bs s' ∧ bs.map (·.id) = cs.map (·.id) ∧ Underway π I s0 ρ' s' ∧
      (∀ x, ρ x = π x → ρ' x = π x) ∧ ∀ e ∈ cs.flatMap E, Settled π ρ' e := by
  replace hids := Node.forall₂_of_map_id hids
  induction hids generalizing ρ s with
  | nil => exact ⟨ρ, s, [], rfl, rfl, hunder, fun _ h => h, nofun⟩
  | @cons c0 c cs0 cs hid _ ih =>
    obtain ⟨m, hm⟩ := hunder.renamed.getElem? (hcs c mem_cons_self)
    obtain ⟨ρ1, s1, b, hrun, hb, hunder1, honward1, hsettled1⟩ := hvisits c mem_cons_self ρ s m hunder hm
    obtain ⟨ρ', s', bs, hrest, hbs, hunder', honward, hsettled⟩ := ih (fun d hd => hcs d (mem_cons_of_mem _ hd))
      (fun d hd => hvisits d (mem_cons_of_mem _ hd)) hunder1
    refine ⟨ρ', s', b :: bs, ?_, ?_, hunder', fun x hx => honward x (honward1 x hx), fun e he => ?_⟩
    · have hone : one self c0 s = .ok b s1 :=
        (bind_ok (current_of_getElem? (hid.symm ▸ hm))).trans ((bind_ok hrun).trans rfl)
      rw [mapM_cons]
      exact (bind_ok hone).trans ((bind_ok hrest).trans rfl)
    · rw [map_cons, map_cons, hb, hbs]
    · rw [flatMap_cons, mem_append] at he
      exact he.elim (fun he => (hsettled1 e he).imp_right (honward e.2)) (hsettled e)

theorem visits_through (hc : s0.sketch c.id = some c.outline) (hmem : c.id ∈ I) (hlabel : c.shape.label? = none)
    (hparts : ∀ d ∈ c.children, s0.sketch d.id ≠ none) (hvisits : ∀ d ∈ c.children, Visits π I s0 self d (E d)) :
    Visits π I s0 (publish self) c (c.children.flatMap E) := by
  intro ρ s m hunder hm
  have hsame (ρ : String → String) : c.outline.renamed ρ = c.outline := by
    rw [Node.renamed, relabel_of_label?, Node.withShape_shape]
    exact (label?_map Node.stub c.shape).trans hlabel
  have houtline := outline_of_renamed hunder.renamed hc hmem hm
  have hids := Node.childIds_of_renamed houtline
  rw [hsame] at houtline
  obtain ⟨ρ', s', bs, hrun, hbs, hunder', honward, hsettled⟩ := visits_parts hids hparts hvisits hunder
  obtain ⟨shape, htraverse, hchildren, hframe⟩ := traverse_of_mapM hrun
  replace htraverse := traverse_many many_of_one htraverse
  have hlabel' : m.shape.label? = none := by
    rw [← label?_map Node.stub, Node.shape_of_outline houtline, label?_map, hlabel]
  have hshape (f : Function Node) : shape ≠ .functionDef f := by
    rintro rfl
    cases (label?_of_frame hframe).trans hlabel'
  have hid : m.id = c.id := Node.id_of_outline houtline
  have hknown : s'.sketch (m.withShape shape).id = some (m.withShape shape).outline := by
    rw [Node.outline_withShape hframe (by rw [hchildren, hbs, hids]), houtline]
    refine (congrArg s'.sketch hid).trans ?_
    rw [hunder'.renamed.sketch_eq, if_pos hmem, hc, Option.map_some, hsame]
  refine ⟨ρ', _, m.withShape shape, ?_, hid, ⟨hunder'.renamed.insert hknown, hunder'.between⟩, honward, hsettled⟩
  rw [publish_of_none hlabel']
  exact (bind_ok ((bind_ok htraverse).trans (commit_ok hshape))).trans rfl

theorem visits_tree {i : Nat} {stop : Rewrite} (hk : k ≤ nestingLimit) (ht : Holds k s0 t) (hi : i ≤ j)
    (hc : Holds i s0 c) (hsub : c.ids i ⊆ t.ids k) (hfree : c.isModuleFree i = true) (hchained : Chained i s0 (scope :: rest) c)
    (hlocated : Located s0 t top scope) (hes : exposed i top c ⊆ es) :
    Visits (publicName es) (t.ids k) s0 (tie publish stop j) c (exposed i top c) := by
  induction i generalizing j c scope rest top with
  | zero => exact hc.elim
  | succ i ih =>
    obtain ⟨j, rfl⟩ : ∃ j', j = j' + 1 := ⟨j - 1, by omega⟩
    have hsketch := hc.sketch .self
    have hmem : c.id ∈ t.ids k := hsub mem_cons_self
    rw [Node.isModuleFree, Bool.and_eq_true, Bool.not_eq_true', all_eq_true] at hfree
    unfold exposed at hes ⊢
    cases hlabel : c.shape.label? with
    | some e =>
      rw [hlabel] at hes
      refine visits_label hk ht hsketch hmem hlabel hchained.1 hlocated ?_
      rintro rfl
      exact hes mem_cons_self
    | none =>
      rw [hlabel] at hes
      refine visits_through hsketch hmem hlabel (fun d hd => ?_) fun d hd => ?_
      · rw [hc.sketch (.part hd .self)]
        simp
      · obtain ⟨scope', rest', hinside, hlocated'⟩ : ∃ scope' rest', c.inside (scope :: rest) = scope' :: rest' ∧
            Located s0 t (top && !c.opensScope) scope' := by
          cases hopens : c.opensScope with
          | true =>
            refine ⟨c.id, scope :: rest, by rw [Node.inside, hopens]; rfl, ⟨c.outline, hsketch, rfl, ?_⟩, by simp⟩
            rw [Bool.not_true, Bool.and_false]
            exact (isModule_map Node.stub c.shape).trans hfree.1
          | false =>
            refine ⟨scope, rest, by rw [Node.inside, hopens]; rfl, ?_⟩
            rwa [Bool.not_false, Bool.and_true]
        refine ih (Nat.le_of_succ_le_succ hi) (hc.2 d hd) (fun id hid => hsub (Node.ids_subset_of_mem hd hid))
          (hfree.2 d hd) (hinside ▸ hchained.2 d hd) hlocated' fun e he => hes (mem_flatMap.2 ⟨d, hd, he⟩)

end Visits

theorem eq_publicName {ρ : String → String} (hρ : ∀ x, ρ x = x ∨ ρ x = publicName es x)
    (hsettled : ∀ e ∈ es, Settled (publicName es) ρ e) (x : String) : ρ x = publicName es x := by
  by_cases hfunction : (true, x) ∈ es
  · exact (hsettled _ hfunction).resolve_left fun h => by cases h.1
  · have hsame (h : publicName es x = x) : ρ x = publicName es x := (hρ x).elim (·.trans h.symm) fun h => h
    by_cases hname : (false, x) ∈ es
    · rcases hsettled _ hname with ⟨_, hstays⟩ | hdone
      · refine hsame ?_
        rw [publicName, if_neg hfunction, if_pos hname]
        exact hstays
      · exact hdone
    · refine hsame ?_
      rw [publicName, if_neg hfunction, if_neg hname]

/-- The names of a program that comes to an end are all in the form that they get by how they come up. -/
theorem publish_ok {s : Session} {k : Nat} {t : Node} (h : s.Prepared k t) (hk : k ≤ nestingLimit) (ht : t.isProgram k = true) :
    ∃ s', Lowering.run publish t s = .ok (t.relabel (publicName (exposedOf k t)) k) s' := by
  obtain ⟨i, rfl⟩ : ∃ i, k = i + 1 := by
    cases k with
    | zero => cases ht
    | succ i => exact ⟨i, rfl⟩
  obtain ⟨j, hj⟩ := exists_nestingLimit
  rw [Node.isProgram, Bool.and_eq_true, all_eq_true] at ht
  generalize hes : exposedOf (i + 1) t = es
  have hsketch := h.holds.sketch .self
  have hinside : t.inside [] = [t.id] := by
    rw [Node.inside, (opensScope_of_isModule ht.1).1]
    rfl
  have hlabel := (opensScope_of_isModule ht.1).2
  have hlocated : Located s t true t.id :=
    ⟨⟨t.outline, hsketch, rfl, (isModule_map Node.stub t.shape).trans ht.1⟩, fun _ => rfl⟩
  have hvisits : Visits (publicName es) (t.ids (i + 1)) s (publish (tie publish (fun _ => fail .tooDeep) j)) t es := by
    rw [← hes, exposedOf]
    refine visits_through hsketch mem_cons_self hlabel (fun d hd => ?_) fun d hd => ?_
    · rw [h.holds.sketch (.part hd .self)]
      simp
    · refine visits_tree hk h.holds (by omega) (h.holds.2 d hd) (Node.ids_subset_of_mem hd) (ht.2 d hd)
        (hinside ▸ h.chained.2 d hd) hlocated fun e he => ?_
      exact mem_flatMap.2 ⟨d, hd, he⟩
  obtain ⟨m, hm, _⟩ := h.holds.outline .self
  have hstart : Underway (publicName es) (t.ids (i + 1)) s (fun x => x) s :=
    by
    refine ⟨.refl fun id _ => ?_, fun _ => .inl rfl⟩
    rw [show Node.renamed (fun x => x) = fun n => n from funext Node.renamed_id, Option.map_id_fun']
    rfl
  obtain ⟨ρ, s', m', hrun, hid, hunder, _, hsettled⟩ := hvisits _ s m hstart hm
  have hρ : ρ = publicName es := funext fun x => eq_publicName hunder.between hsettled x
  obtain ⟨s'', hrefresh⟩ := refreshFrom_ok h.holds hunder.renamed hk hid
  refine ⟨s'', ?_⟩
  rw [hρ] at hrefresh
  unfold Lowering.run
  rw [bind_ok (current_of_getElem? hm), hj]
  exact (bind_ok hrun).trans hrefresh

end Go

/-! ### What belongs together -/

namespace Binding

/-- The steps that change names in a whole program: `main` makes room for the entry of the program, or the names at its top
become visible. -/
inductive Step where
  | entry | visible

namespace Step

def run : Step → Node → Analysis Node
  | entry, t => do
    rename "main" "main_func" t
    refresh t
  | visible, t => Lowering.run Go.publish t

def naming (k : Nat) (t : Node) : Step → String → String
  | entry => replacing "main" "main_func"
  | visible => Go.publicName (Go.exposedOf k t)

def result (step : Step) (k : Nat) (t : Node) : Node := t.relabel (step.naming k t) k

variable {s : Session} {k : Nat} {t : Node}

theorem run_ok (h : s.Prepared k t) (hk : k ≤ nestingLimit) (ht : t.isProgram k = true) :
    ∃ s', step.run t s = .ok (step.result k t) s' := by
  cases step with
  | entry =>
    obtain ⟨u, hrename, hu⟩ := rename_ok "main" "main_func" hk h.holds.drawn rfl
    obtain ⟨s', hrefresh⟩ := refreshFrom_ok h.holds hu hk rfl
    exact ⟨s', (bind_ok hrename).trans hrefresh⟩
  | visible => exact Go.publish_ok h hk ht

theorem beginsWell_naming {x : String} (hx : step.naming k t x ≠ x) :
    Names.BeginsWell (step.naming k t x).toList ↔ Names.BeginsWell (bare x) := by
  cases step with
  | entry =>
    obtain rfl : x = "main" := by
      by_contra hne
      exact hx (if_neg hne)
    have hnew : Names.BeginsWell (naming k t entry "main").toList := by
      rw [show naming k t entry "main" = "main_func" by simp [naming, replacing]]
      exact ⟨'m', by decide, by decide⟩
    have hold : Names.BeginsWell (bare "main") := ⟨'m', by decide, by decide⟩
    exact iff_of_true hnew hold
  | visible => exact (Go.public_publicName hx).beginsWell_iff

end Step

/-- A step changes the names of a program, each to one other name. If different names stay different, what belongs together
is kept exactly if no identifier is separated from one that it belongs with, which it can be only from an identifier that is
neither a name nor a function. A changed name begins well if the old one does after its underscores. -/
theorem kept_by_renaming_iff (step : Step) {s : Session} {k : Nat} {t : Node} (h : s.Prepared k t) (hk : k ≤ nestingLimit)
    (ht : t.isProgram k = true) :
    (∃ s', step.run t s = .ok (step.result k t) s') ∧
      ((∀ i j, ¬ Merged (ofProgram k t) (ofProgram k (step.result k t)) i j) →
        ((∀ i j, Together (ofProgram k (step.result k t)) i j ↔ Together (ofProgram k t) i j) ↔
          ∀ i j, ¬ Split (ofProgram k t) (ofProgram k (step.result k t)) i j)) ∧
      ((∀ x ∈ held k t, step.naming k t x = x) →
        ∀ i j, ¬ Split (ofProgram k t) (ofProgram k (step.result k t)) i j) ∧
      ∀ x, step.naming k t x ≠ x →
        (Names.BeginsWell (step.naming k t x).toList ↔ Names.BeginsWell (Names.bare x)) :=
  ⟨step.run_ok h hk ht, together_kept_iff (aligned_relabel _ k _ t), fun hheld => not_split_relabel hheld _,
    fun _ => step.beginsWell_naming⟩

def counterModule : Node :=
  ⟨9, none, none, .module [
    ⟨4, some 1, some 0, .functionDef
      { name := "add_one"
        args := ⟨2, none, none, .parameters ⟨[], [⟨1, some 1, some 12, .arg "n" none⟩], none, [], [], none, []⟩⟩
        body := [⟨8, some 2, some 4, .ret (some ⟨3, some 2, some 11, .name "n" .load⟩)⟩]
        decorators := []
        returns := none }⟩,
    ⟨7, some 3, some 0, .assign [⟨5, some 3, some 0, .name "next_one" .store⟩] ⟨6, some 3, some 11, .name "add_one" .load⟩⟩]⟩

theorem counterModule_kept :
    ∃ s s', s.Prepared 5 counterModule ∧ Step.visible.run counterModule s = .ok (Step.visible.result 5 counterModule) s' ∧
      (ofProgram 5 (Step.visible.result 5 counterModule)).map Mention.name = ["AddOne", "n", "n", "NextOne", "AddOne"] ∧
      ∀ i j, Together (ofProgram 5 (Step.visible.result 5 counterModule)) i j ↔ Together (ofProgram 5 counterModule) i j := by
  have hlimit : 5 ≤ nestingLimit := le_nestingLimit (by decide)
  obtain ⟨s, _, hprepared⟩ := prepared_of_recordAll (k := 4) (n := counterModule) (s := { next := 10 })
    (by decide) (by decide) hlimit (by decide) rfl nofun
  obtain ⟨⟨s', hrun⟩, hkept, hsplit, _⟩ := kept_by_renaming_iff .visible hprepared hlimit (by decide)
  refine ⟨s, s', hprepared, hrun, by decide +kernel, (hkept ?_).2 (hsplit (by decide +kernel))⟩
  exact not_merged_of_inverse (fun x => if x = "AddOne" then "add_one" else if x = "NextOne" then "next_one" else x)
    (by decide +kernel)

def identifiersOf (step : Step) (source : String) : Option (List Mention × List Mention) :=
  match (do
    let t ← readProgram source
    Scope.assign t
    let t' ← step.run t
    return (t, t')) {} with
  | .ok ts _ => some (ofProgram 9 ts.1, ofProgram 9 ts.2)
  | .error _ _ => none

/-- A parameter that is called `main` is separated from its uses, two names become one, and names become empty or begin with
a digit. -/
theorem parameter_separated :
    (identifiersOf .entry "def f(main):\n    return main\n").map
        (fun ms => (decide (Together ms.1 1 2), decide (Together ms.2 1 2))) = some (true, false) ∧
      (identifiersOf .visible "a_b = 1\nAB = 2\n").map
        (fun ms => (decide (Together ms.1 0 1), decide (Together ms.2 0 1))) = some (false, true) ∧
      (identifiersOf .visible "_ = 1\n_1 = 2\n").map (fun ms => ms.2.map Mention.name) = some ["", "1"] := by
  decide +kernel

end Binding
end Polyglot
