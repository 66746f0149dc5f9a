import Polyglot.Analysis.Calls
import Polyglot.Proofs.Findings
import Polyglot.Proofs.SmtDemands

/-!
# Functions by scope

A pass lists the functions of a program by the scopes in which they are defined: every function in the list of the innermost
scope around it, once, and in the order of the program.
-/
namespace Polyglot

open Session Effect List Node

/-- A node and the scopes around it. -/
structure Spot where
  around : List NodeId
  node : Node

variable {k j : Nat} {s u s0 : Session} {n c : Node} {cs : List Node} {chain : List NodeId} {p : Spot} {l : List Spot}

namespace Node

def isLambda (n : Node) : Bool := n.shape matches .lambda ..

/-- The nodes of a tree in the order of the program. -/
def spots : Nat → List NodeId → Node → List Spot
  | 0, _, _ => []
  | k + 1, chain, n => ⟨chain, n⟩ :: n.children.flatMap (spots k (n.inside chain))

theorem map_spots (k : Nat) (chain : List NodeId) (n : Node) : (n.spots k chain).map (·.node.id) = n.ids k := by
  induction k generalizing n chain with
  | zero => rfl
  | succ k ih => simp only [spots, ids, map_cons, map_flatMap, ih]

/-- No names are imported, and there are no functions in lambdas. -/
def Tidy (n : Node) : Prop :=
  ∀ m : Node, m.Within n → (m.shape matches .importFrom ..) = false ∧
    (m.isLambda = true → ∀ f : Node, f.Within m → f.isFunction = false)

end Node

namespace Calls

/-- A function of which this is the innermost scope. -/
def liesIn (id : NodeId) (p : Spot) : Bool := p.node.isFunction && p.around.head? == some id

/-- A node for which a list of functions is begun. -/
def begins (id : NodeId) (p : Spot) : Bool := p.node.opensScope && !p.node.isLambda && p.node.id == id

def functionsOf (l : List Spot) (id : NodeId) : List NodeId := (l.filter (liesIn id)).map (·.node.id)

/-- A session in which the functions among the first nodes of a program are listed. -/
structure Filed (s0 : Session) (l : List Spot) (s : Session) : Prop where
  noted : Noted Facts.scopes s0 s
  listed : ∀ id, (s.known id).definedFunctions.getD [] = functionsOf l id
  begun : ∀ id, (s.known id).definedFunctions.isSome = l.any (begins id)
  inScope : ∀ p ∈ l, p.node.isFunction = true → p.around ≠ []

/-- A scope in which functions can be listed. -/
def Open (l : List Spot) (chain : List NodeId) : Prop := ∃ S, chain.head? = some S ∧ l.any (begins S) = true

theorem Open.append (h : Open l chain) (l' : List Spot) : Open (l ++ l') chain := by
  obtain ⟨S, hS, hbegun⟩ := h
  exact ⟨S, hS, by rw [any_append, hbegun, Bool.true_or]⟩

/-- Nothing was listed in a node that comes next. It begins a list of its own, and is added to the list around it. -/
theorem Filed.concat (h : Filed s0 l s) (hnew : p.node.id ∉ l.map (·.node.id)) (hopen : p.node.isFunction = true → Open l p.around)
    (hnoted : Noted Facts.scopes s u)
    (hu : ∀ id, (u.known id).definedFunctions =
      let list := if begins id p then some [] else (s.known id).definedFunctions
      if liesIn id p then list.map (· ++ [p.node.id]) else list) : Filed s0 (l ++ [p]) u := by
  have hlies (id : NodeId) (hp : liesIn id p = true) : l.any (begins id) = true := by
    obtain ⟨S, hS, hbegun⟩ := hopen (by simp_all [liesIn])
    simp_all [liesIn]
  have hfresh (id : NodeId) (hp : begins id p = true) : l.any (begins id) = false := by
    refine any_eq_false.2 fun q hq hbegins => hnew (mem_map.2 ⟨q, hq, ?_⟩)
    simp_all [begins]
  refine ⟨h.noted.trans hnoted, fun id => ?_, fun id => ?_, fun q hq hfunction => ?_⟩
  · specialize hlies id
    specialize hfresh id
    rw [← h.begun] at hlies hfresh
    rw [functionsOf, filter_append, map_append, ← functionsOf, ← h.listed, hu]
    cases ho : (s.known id).definedFunctions <;> cases hb : begins id p <;> cases hl : liesIn id p <;> simp_all
  · rw [hu, any_append, ← h.begun]
    cases hb : begins id p <;> cases hl : liesIn id p <;> simp [hb]
  · rcases mem_append.1 hq with hq | hq
    · exact h.inScope q hq hfunction
    · obtain rfl := mem_singleton.1 hq
      obtain ⟨S, hS, -⟩ := hopen hfunction
      exact ne_nil_of_mem (mem_of_head? hS)

abbrev definedFrom (j : Nat) : Node → Analysis Unit := tie definedStep (fun _ => (fail .tooDeep : Analysis Unit)) j

theorem note_functions (id : NodeId) (list : Option (List NodeId)) (s : Session) :
    ∃ u, note id ({ · with definedFunctions := list }) s = .ok () u ∧ Noted Facts.scopes s u ∧
      ∀ i, (u.known i).definedFunctions = if id = i then list else (s.known i).definedFunctions := by
  refine ⟨_, note_ok s id _, noted_of_note ?_ (note_ok s id ({ · with definedFunctions := list })), fun i => ?_⟩
  · rfl
  · rw [known_note]
    split <;> rfl

/-- Trees that come next in a program. Functions in them lie in a scope with a list, or else inside of the trees. -/
structure Next (k : Nat) (s0 : Session) (l : List Spot) (chain : List NodeId) (cs : List Node) : Prop where
  exact : ∀ c ∈ cs, Exact k s0 c
  chained : ∀ c ∈ cs, Chained k s0 chain c
  tidy : ∀ c ∈ cs, c.Tidy
  nodup : (l.map (·.node.id) ++ cs.flatMap (ids k)).Nodup
  opened : Open l chain ∨ ∀ c ∈ cs, ∀ f : Node, f.Within c → f.isFunction = true → c.isFunction = false ∧ begins c.id ⟨chain, c⟩ = true

theorem Next.parts (h : Next (k + 1) s0 l chain (c :: cs)) : Next k s0 (l ++ [⟨chain, c⟩]) (c.inside chain) c.children := by
  have hnodup := h.nodup
  rw [flatMap_cons, ← append_assoc] at hnodup
  have htidy := h.tidy c mem_cons_self
  refine ⟨(h.exact c mem_cons_self).2, (h.chained c mem_cons_self).2, fun d hd m hm => htidy m (.part hd hm), ?_, ?_⟩
  · simpa [ids] using hnodup.of_append_left
  · cases hopens : c.opensScope with
    | true =>
      cases hlambda : c.isLambda with
      | true => exact .inr fun d hd f hf hfun => absurd hfun (by simp [(htidy c .self).2 hlambda f (.part hd hf)])
      | false => exact .inl ⟨c.id, by simp [inside, hopens], by simp [begins, hopens, hlambda]⟩
    | false =>
      rw [inside, hopens, if_neg Bool.false_ne_true]
      refine h.opened.imp (·.append _) fun h d hd f hf hfun => absurd (h c mem_cons_self f (.part hd hf) hfun).2 ?_
      simp [begins, hopens]

theorem Next.rest (h : Next k s0 l chain (c :: cs)) : Next k s0 (l ++ c.spots k chain) chain cs where
  exact d hd := h.exact d (mem_cons_of_mem _ hd)
  chained d hd := h.chained d (mem_cons_of_mem _ hd)
  tidy d hd := h.tidy d (mem_cons_of_mem _ hd)
  nodup := by simpa [map_spots] using h.nodup
  opened := h.opened.imp (·.append _) fun h d hd => h d (mem_cons_of_mem _ hd)

/-- What the pass does at a node before it goes on to the parts. -/
theorem leads_step {self : Node → Analysis Unit} {Q : Session → Prop} (h : Next (k + 1) s0 l chain (c :: cs))
    (hbelow : Leads (Filed s0 (l ++ [⟨chain, c⟩])) Q (Pass.below self c) ()) : Leads (Filed s0 l) Q (definedStep self c) () := by
  have hnew : c.id ∉ l.map (·.node.id) := fun hmem => (nodup_append.1 h.nodup).2.2 _ hmem _ mem_cons_self rfl
  intro s hs
  have hplain (hbegins : begins c.id ⟨chain, c⟩ = false) (hfunction : c.isFunction = false) :
      ∃ t, Pass.below self c s = .ok () t ∧ Q t := by
    refine hbelow s (hs.concat hnew (by simp [hfunction]) (.refl s) fun id => ?_)
    simp_all [begins, liesIn]
  obtain ⟨u, hclear, hnoted, hu⟩ := note_functions c.id (some []) s
  have hscope (hbegins : begins c.id ⟨chain, c⟩ = true) (hfunction : c.isFunction = false) :
      ∃ t, (do note c.id ({ · with definedFunctions := some [] }); Pass.below self c) s = .ok () t ∧ Q t := by
    obtain ⟨t, hrun, ht⟩ := hbelow u (hs.concat hnew (by simp [hfunction]) hnoted fun id => by simp_all [begins, liesIn])
    exact ⟨t, (bind_ok hclear).trans hrun, ht⟩
  have htidy := (h.tidy c mem_cons_self c .self).1
  obtain ⟨id, line, col, shape⟩ := c
  cases shape with
  | functionDef f =>
    have hopen : Open l chain := h.opened.resolve_right fun hno => nomatch (hno _ mem_cons_self _ .self rfl).1
    obtain ⟨S, hS, hbegun⟩ := hopen
    obtain ⟨xs, hxs⟩ : ∃ xs, (u.known S).definedFunctions = some xs := by
      rw [hu]
      split
      · exact ⟨[], rfl⟩
      · exact Option.isSome_iff_exists.1 ((hs.begun S).trans hbegun)
    obtain ⟨v, hadd, hnoted', hv⟩ := note_functions S (some (xs ++ [id])) u
    have hchain : (u.known id).scopes = some (id :: chain).reverse :=
      ((hs.noted.trans hnoted).view_eq id).trans (h.chained _ mem_cons_self).1
    have hfiled : Filed s0 (l ++ [⟨chain, ⟨id, line, col, .functionDef f⟩⟩]) v := by
      refine hs.concat hnew (fun _ => ⟨S, hS, hbegun⟩) (hnoted.trans hnoted') fun i => ?_
      have hbegins : begins i ⟨chain, ⟨id, line, col, .functionDef f⟩⟩ = (id == i) := rfl
      have hlies : liesIn i ⟨chain, ⟨id, line, col, .functionDef f⟩⟩ = (S == i) := by simp [liesIn, isFunction, hS]
      simp only [hbegins, hlies, beq_iff_eq, ← hu]
      rw [hv]
      split
      · subst i
        rw [hxs]
        rfl
      · rfl
    obtain ⟨t, hrun, ht⟩ := hbelow v hfiled
    refine ⟨t, (bind_ok hclear).trans ((bind_ok (Scope.chainOf_eq_ok.2 ⟨hchain, rfl⟩)).trans ?_), ht⟩
    rw [reverse_reverse, getElem?_cons_succ, ← head?_eq_getElem?, hS]
    refine (bind_ok (?_ : addDefined S id u = .ok () v)).trans hrun
    rw [addDefined, bind_ok (factsOf_ok u S), hxs]
    exact hadd
  | module | classDef | forLoop | cond | withBlock => exact hscope (by simp [begins, opensScope, isLambda]) rfl
  | importFrom => cases htidy
  | _ => exact hplain rfl rfl

theorem leads_each (hk : k ≤ j) (h : Next k s0 l chain cs) :
    Leads (Filed s0 l) (Filed s0 (l ++ cs.flatMap (spots k chain))) (Pass.each (definedFrom j) cs) () := by
  induction k generalizing j l chain cs with
  | zero =>
    cases cs with
    | nil => exact fun s hs => ⟨s, rfl, by simpa using hs⟩
    | cons c cs => exact (h.exact c mem_cons_self).elim
  | succ k ih =>
    obtain ⟨i, rfl⟩ := exists_succ_of_lt hk
    induction cs generalizing l with
    | nil => exact fun s hs => ⟨s, rfl, by simpa using hs⟩
    | cons c cs ihcs =>
      have hcurrent : Leads (Filed s0 l) (Filed s0 l) (current c) c := fun s hs =>
        ⟨s, current_of_getElem? (by rw [hs.noted.nodes_eq, (h.exact c mem_cons_self).getElem?]), hs⟩
      have hstep := leads_step h (ih (by omega : k ≤ i) h.parts)
      rw [append_assoc] at hstep
      rw [flatMap_cons, ← append_assoc]
      exact (hcurrent.bind hstep).bind (ihcs h.rest)

theorem count_functionsOf {S : NodeId} (hl : (l.map (·.node.id)).Nodup) (hp : p ∈ l) (hfunction : p.node.isFunction = true)
    (hS : p.around.head? = some S) (id : NodeId) : (functionsOf l id).count p.node.id = if id = S then 1 else 0 := by
  split
  · subst id
    refine count_eq_one_of_mem (hl.sublist (filter_sublist.map _)) (mem_map.2 ⟨p, mem_filter.2 ⟨hp, ?_⟩, rfl⟩)
    simp [liesIn, hfunction, hS]
  · refine count_eq_zero.2 fun hmem => ?_
    obtain ⟨q, hq, hid⟩ := mem_map.1 hmem
    obtain ⟨hq, hlies⟩ := mem_filter.1 hq
    obtain rfl := inj_on_of_nodup_map hl hq hp hid
    simp_all [liesIn]

/-- In a program that imports no names, the pass lists every function once, in the innermost scope around it, and each list
is in the order of the program. -/
theorem functions_listed_once {body : List Node} (h : Smt.Recorded k s n) (hn : n.shape = .module body) (htidy : n.Tidy)
    (hfresh : ∀ id, (s.known id).definedFunctions = none) :
    ∃ t, (do Scope.assign n; defined n) s = .ok () t ∧
      (∀ id, (t.known id).definedFunctions.getD [] = functionsOf (n.spots k []) id) ∧
      ∀ p ∈ n.spots k [], p.node.isFunction = true → ∃ S, p.around.head? = some S ∧
        ∀ id, (functionsOf (n.spots k []) id).count p.node.id = if id = S then 1 else 0 := by
  obtain ⟨s0, hassign, hnodes, hchained⟩ := h.assign
  have hnone (id : NodeId) : (s0.known id).definedFunctions = none :=
    ((notes_assign (fun _ _ => rfl) n s () s0 hassign).view_eq id).trans (hfresh id)
  have hnext : Next k s0 [] [] [n] := by
    refine ⟨?_, ?_, ?_, by simpa using h.nodup, .inr ?_⟩ <;> refine forall_mem_singleton.2 ?_
    · exact h.contents.congr fun id _ => by rw [hnodes]
    · exact hchained
    · exact htidy
    · exact fun _ _ _ => by simp [begins, opensScope, isLambda, isFunction, hn]
  obtain ⟨t, hrun, ht⟩ := leads_each h.limit hnext s0 ⟨.refl s0, fun id => by rw [hnone]; rfl, fun id => by rw [hnone]; rfl, by simp⟩
  obtain ⟨t', hrun, ⟨⟩⟩ := each_cons_eq_ok.1 hrun
  rw [flatMap_singleton, nil_append] at ht
  refine ⟨t, (bind_ok hassign).trans hrun, ht.listed, fun p hp hfunction => ?_⟩
  obtain ⟨S, hS⟩ := Option.isSome_iff_exists.1 (isSome_head?.2 (ht.inScope p hp hfunction))
  exact ⟨S, hS, fun id => count_functionsOf (by rw [map_spots]; exact h.nodup) hp hfunction hS id⟩

theorem okProgram_listed :
    ∃ t, (do Scope.assign Smt.okProgram; defined Smt.okProgram) Smt.okSession = .ok () t ∧
      (t.known 18).definedFunctions.getD [] = [13] ∧ (t.known 13).definedFunctions.getD [] = [] := by
  have hplain : ∀ m ∈ Smt.okProgram.nodes 7, (m.shape matches .importFrom ..) = false ∧ m.isLambda = false := by decide
  have htidy : Smt.okProgram.Tidy := fun m hm =>
    (hplain m ((mem_nodes (by decide)).2 hm)).imp_right fun h h' => absurd h' (by simp [h])
  obtain ⟨t, hrun, hlists, -⟩ := functions_listed_once Smt.okSession_recorded.1 rfl htidy fun id => by
    rw [Smt.okSession_recorded.2.2 id]
  exact ⟨t, hrun, (hlists 18).trans (by decide), (hlists 13).trans (by decide)⟩

end Calls
end Polyglot
