import Mathlib.Data.List.Nodup
import Polyglot.Proofs.Order

/-!
# Rounds in any order

Nothing says in which order names that wait, or names that depend on another one, are gone through. Here a round is a
relation that leaves both orders open. The numbers of an ordering are what the graph and the names that still wait give
(`tally`), so that a round can be told from the names alone.
-/
namespace Polyglot.Sorter

open List

variable {α : Type} [DecidableEq α] {waiting : List (α × Int)} {calls : List (α × List α)} {n p : α} (s : Sorter α)
  {out ps ds : List α}

/-! ### What a graph says -/

def DependsOn (graph : List (α × List α)) (n p : α) : Prop := p ∈ dependencies graph n

/-- Every name stands once in a graph, depends once on each name it depends on, and depends on names of the graph. -/
structure WellFormed (graph : List (α × List α)) : Prop where
  names_nodup : (graph.map (·.1)).Nodup
  dependencies_nodup : ∀ n, (dependencies graph n).Nodup
  known : ∀ {n p}, DependsOn graph n p → p ∈ graph.map (·.1)

def Mentioned (calls : List (α × List α)) (x : α) : Prop := ∃ call ∈ calls, x = call.1 ∨ x ∈ call.2

def Requires (calls : List (α × List α)) (n p : α) : Prop := ∃ call ∈ calls, n = call.1 ∧ p ∈ call.2

theorem DependsOn.mem {graph : List (α × List α)} (h : DependsOn graph n p) : n ∈ graph.map (·.1) := by
  unfold DependsOn dependencies at h
  cases hl : graph.lookup n with
  | none => simp [hl] at h
  | some ps => exact mem_map_of_mem (mem_of_lookup hl)

theorem lookup_cons_eq {β : Type} (x : α × β) (xs : List (α × β)) (m : α) :
    (x :: xs).lookup m = if m = x.1 then some x.2 else xs.lookup m := by
  rw [lookup_cons]
  by_cases h : m = x.1
  · simp [h]
  · simp [h, beq_eq_false_iff_ne.2 h]

theorem dependencies_addNode (graph : List (α × List α)) (n m : α) :
    dependencies (addNode graph n) m = dependencies graph m := by
  unfold addNode
  split
  · rfl
  · unfold dependencies
    rw [lookup_append]
    cases graph.lookup m with
    | some ps => rfl
    | none =>
      by_cases h : m = n <;> simp [lookup_cons_eq, h]

theorem dependencies_addEdge {graph : List (α × List α)} (p m : α) (hn : n ∈ graph.map (·.1)) :
    dependencies (addEdge graph n p) m =
      if m = n then insertNew p (dependencies graph m) else dependencies graph m := by
  have hlookup (g : List (α × List α)) : (g.map fun g => if g.1 == n then (g.1, insertNew p g.2) else g).lookup m =
      (g.lookup m).map fun ps => if m = n then insertNew p ps else ps := by
    induction g with
    | nil => rfl
    | cons g gs ih =>
      have hname : (if g.1 == n then (g.1, insertNew p g.2) else g).1 = g.1 := by split <;> rfl
      rw [map_cons, lookup_cons_eq, lookup_cons_eq, ih, hname]
      by_cases hg : m = g.1
      · subst hg
        by_cases h : g.1 = n <;> simp [h]
      · rw [if_neg hg, if_neg hg]
  have hmem : n ∈ (addNode graph p).map (·.1) := by
    rw [addNode_names, mem_insertNew]
    exact Or.inl hn
  rw [← dependencies_addNode graph p m, addEdge, dependencies, hlookup, dependencies]
  by_cases h : m = n
  · subst h
    obtain ⟨ps, hps⟩ := lookup_isSome_of_mem hmem
    simp [hps]
  · simp [h]

theorem dependencies_add (n m : α) (preds : List α) :
    dependencies (s.add n preds).graph m =
      if m = n then preds.foldl (fun ps p => insertNew p ps) (dependencies s.graph m) else dependencies s.graph m := by
  have hfold (g : List (α × List α)) (hn : n ∈ g.map (·.1)) :
      dependencies (preds.foldl (fun g p => addEdge g n p) g) m =
        if m = n then preds.foldl (fun ps p => insertNew p ps) (dependencies g m) else dependencies g m := by
    induction preds generalizing g with
    | nil => simp
    | cons p preds ih =>
      have hn' : n ∈ (addEdge g n p).map (·.1) := by
        rw [addEdge_names, mem_insertNew]
        exact Or.inl hn
      rw [foldl_cons, ih _ hn', dependencies_addEdge p m hn]
      by_cases h : m = n <;> simp [h]
  have hn : n ∈ (addNode s.graph n).map (·.1) := by
    rw [addNode_names, mem_insertNew]
    exact Or.inr rfl
  rw [add, hfold _ hn, dependencies_addNode]

theorem dependsOn_add (n m q : α) (preds : List α) :
    DependsOn (s.add n preds).graph m q ↔ DependsOn s.graph m q ∨ m = n ∧ q ∈ preds := by
  rw [DependsOn, dependencies_add, DependsOn]
  by_cases h : m = n
  · rw [if_pos h, mem_foldl_insertNew, and_iff_right h]
  · simp [h]

theorem WellFormed.add {s : Sorter α} (h : WellFormed s.graph) (n : α) (preds : List α) :
    WellFormed (s.add n preds).graph where
  names_nodup := add_names_nodup s n preds h.names_nodup
  dependencies_nodup := by
    intro m
    rw [dependencies_add]
    split
    · exact nodup_foldl_insertNew preds (h.dependencies_nodup m)
    · exact h.dependencies_nodup m
  known := by
    intro m q hq
    rw [mem_add_names]
    rcases (dependsOn_add s n m q preds).1 hq with hq | ⟨_, hq⟩
    · exact Or.inl (h.known hq)
    · exact Or.inr (Or.inr hq)

theorem wellFormed_ofGraph (calls : List (α × List α)) : WellFormed (ofGraph calls).graph := by
  have hfold (s : Sorter α) (hs : WellFormed s.graph) :
      WellFormed (calls.foldl (fun s call => s.add call.1 call.2) s).graph := by
    induction calls generalizing s with
    | nil => exact hs
    | cons call calls ih => exact ih _ (hs.add call.1 call.2)
  refine hfold {} ⟨nodup_nil, fun _ => nodup_nil, fun h => ?_⟩
  cases h

theorem dependsOn_ofGraph : DependsOn (ofGraph calls).graph n p ↔ Requires calls n p := by
  have hfold (s : Sorter α) : DependsOn (calls.foldl (fun s call => s.add call.1 call.2) s).graph n p ↔
      DependsOn s.graph n p ∨ Requires calls n p := by
    induction calls generalizing s with
    | nil => simp [Requires]
    | cons call calls ih =>
      rw [foldl_cons, ih, dependsOn_add, or_assoc]
      simp only [Requires, mem_cons, exists_eq_or_imp]
  rw [ofGraph, hfold]
  simp [DependsOn, dependencies]

theorem mem_names_ofGraph : n ∈ (ofGraph calls).graph.map (·.1) ↔ Mentioned calls n := by
  have hfold (s : Sorter α) : n ∈ (calls.foldl (fun s call => s.add call.1 call.2) s).graph.map (·.1) ↔
      n ∈ s.graph.map (·.1) ∨ Mentioned calls n := by
    induction calls generalizing s with
    | nil => simp [Mentioned]
    | cons call calls ih =>
      rw [foldl_cons, ih, mem_add_names, or_assoc]
      simp only [Mentioned, mem_cons, exists_eq_or_imp]
  rw [ofGraph, hfold]
  simp

/-! ### The numbers of an ordering -/

variable {graph : List (α × List α)} {active : List α}

/-- The names that wait, each with the number of waiting names that it depends on. -/
def tally (graph : List (α × List α)) (active : List α) : List (α × Int) :=
  active.map fun n => (n, ((dependencies graph n).countP (· ∈ active) : Int))

@[simp] theorem tally_names (graph : List (α × List α)) (active : List α) :
    (tally graph active).map (·.1) = active := by
  rw [tally, map_map]
  exact map_id active

theorem start_eq_tally (h : WellFormed graph) : start graph = tally graph (graph.map (·.1)) := by
  rw [start, tally, map_map]
  apply map_congr_left
  intro g hg
  have hlookup : graph.lookup g.1 = some g.2 := by
    obtain ⟨ps, hps⟩ := lookup_isSome_of_mem (mem_map_of_mem hg)
    rw [hps, ← inj_on_of_nodup_map h.names_nodup (mem_of_lookup hps) hg rfl]
  have hself : dependencies graph g.1 = g.2 := by simp [dependencies, hlookup]
  have hall : g.2.countP (· ∈ graph.map (·.1)) = g.2.length := by
    rw [countP_eq_length]
    intro p hp
    exact decide_eq_true (h.known (show p ∈ dependencies graph g.1 from hself ▸ hp))
  simp only [Function.comp_apply, hself, hall]

/-- Of a list that names nothing twice, one element less is waited for if the one that is gone is in it. -/
theorem countP_filter_ne (hps : ps.Nodup) (hn : n ∈ active) :
    (ps.countP (· ∈ active.filter (· != n)) : Int) =
      if n ∈ ps then (ps.countP (· ∈ active) : Int) - 1 else ps.countP (· ∈ active) := by
  induction ps with
  | nil => simp
  | cons p ps ih =>
    obtain ⟨hp, hps⟩ := nodup_cons.1 hps
    have ih := ih hps
    by_cases hpn : p = n
    · subst hpn
      rw [if_neg hp] at ih
      simpa [hn] using ih
    · have hnp : n ≠ p := fun h => hpn h.symm
      by_cases hactive : p ∈ active <;> by_cases hmem : n ∈ ps <;> simp [hactive, hmem, hpn, hnp] at ih ⊢ <;> omega

theorem doneOne_tally (h : WellFormed graph) (active : List α) (n : α) :
    doneOne graph (tally graph active) n = tally graph (active.filter (· != n)) := by
  rw [doneOne]
  simp only [isSome_lookup, tally_names]
  split
  · rename_i hmem
    rw [tally, filter_map, map_map, tally]
    apply map_congr_left
    intro m _
    have hcount := countP_filter_ne (h.dependencies_nodup m) hmem
    simp only [Function.comp_apply, hcount, contains_iff_mem]
    split <;> rfl
  · rename_i hn
    rw [filter_eq_self.2 fun x hx => bne_iff_ne.2 (ne_of_mem_of_not_mem hx hn)]

theorem doneAll_tally (h : WellFormed graph) (active ns : List α) :
    doneAll graph (tally graph active) ns = tally graph (active.filter (!ns.contains ·)) := by
  induction ns generalizing active with
  | nil => rw [filter_eq_self.2 (by simp)]; rfl
  | cons n ns ih =>
    have hstep : doneAll graph (tally graph active) (n :: ns) = doneAll graph (doneOne graph (tally graph active) n) ns :=
      rfl
    rw [hstep, doneOne_tally h, ih, filter_filter]
    congr 1
    apply filter_congr
    intro x _
    by_cases hx : x = n <;> simp [hx, bne]

theorem mem_free_tally : n ∈ free (tally graph active) ↔ n ∈ active ∧ ∀ p, DependsOn graph n p → p ∉ active := by
  simp only [free, tally, filter_map, map_map, mem_map, mem_filter, Function.comp_apply]
  constructor
  · rintro ⟨m, ⟨hm, hzero⟩, rfl⟩
    refine ⟨hm, fun p hp hactive => ?_⟩
    have hcount : (dependencies graph m).countP (· ∈ active) = 0 := by simpa using hzero
    exact countP_eq_zero.1 hcount p hp (decide_eq_true hactive)
  · rintro ⟨hn, hnone⟩
    refine ⟨n, ⟨hn, ?_⟩, rfl⟩
    have hcount : (dependencies graph n).countP (· ∈ active) = 0 :=
      countP_eq_zero.2 fun p hp => by simpa using hnone p hp
    simp [hcount]

theorem eq_tally_of_perm {seen : List (α × Int)} (h : seen.Perm (tally graph active)) :
    seen = tally graph (seen.map (·.1)) := by
  have hmem (n : α) : n ∈ seen.map (·.1) ↔ n ∈ active := by
    rw [(h.map (·.1)).mem_iff, tally_names]
  have hpoint (w : α × Int) (hw : w ∈ seen) :
      (w.1, ((dependencies graph w.1).countP (· ∈ seen.map (·.1)) : Int)) = w := by
    obtain ⟨n, _, rfl⟩ := mem_map.1 (h.mem_iff.1 hw)
    simp only [hmem]
  rw [tally, map_map]
  exact ((map_congr_left hpoint).trans (map_id seen)).symm

/-! ### One round after the other -/

/-- The names that depend on `p`, each once, in some order. -/
structure Dependents (graph : List (α × List α)) (p : α) (ds : List α) : Prop where
  nodup : ds.Nodup
  mem_iff : ∀ n, n ∈ ds ↔ DependsOn graph n p

def relieve (waiting : List (α × Int)) (n : α) : List (α × Int) :=
  waiting.map fun w => if w.1 = n then (w.1, w.2 - 1) else w

/-- Names are taken out one after the other. Each time the names that depend on the one that is taken out are gone
through in some order, and those that still wait are relieved. -/
inductive Retires (graph : List (α × List α)) : List α → List (α × Int) → List (α × Int) → Prop
  | nil {waiting : List (α × Int)} : Retires graph [] waiting waiting
  | skip {p : α} {ps : List α} {waiting left : List (α × Int)} (hp : p ∉ waiting.map (·.1))
      (h : Retires graph ps waiting left) : Retires graph (p :: ps) waiting left
  | take {p : α} {ps ds : List α} {waiting left : List (α × Int)} (hp : p ∈ waiting.map (·.1))
      (hds : Dependents graph p ds) (h : Retires graph ps (ds.foldl relieve (waiting.filter (·.1 != p))) left) :
      Retires graph (p :: ps) waiting left

theorem foldl_relieve (hds : ds.Nodup) (waiting : List (α × Int)) :
    ds.foldl relieve waiting = waiting.map fun w => if w.1 ∈ ds then (w.1, w.2 - 1) else w := by
  induction ds generalizing waiting with
  | nil => simp
  | cons d ds ih =>
    obtain ⟨hd, hds⟩ := nodup_cons.1 hds
    rw [foldl_cons, ih hds, relieve, map_map]
    apply map_congr_left
    intro w _
    by_cases h : w.1 = d
    · simp [h, hd]
    · simp [h]

theorem doneOne_eq_foldl (hds : Dependents graph p ds) (hp : p ∈ waiting.map (·.1)) :
    doneOne graph waiting p = ds.foldl relieve (waiting.filter (·.1 != p)) := by
  rw [doneOne, if_pos (isSome_lookup.2 hp), foldl_relieve hds.nodup]
  apply map_congr_left
  intro w _
  simp only [hds.mem_iff, DependsOn, contains_iff_mem]

theorem doneOne_of_not_mem (hp : p ∉ waiting.map (·.1)) : doneOne graph waiting p = waiting :=
  if_neg fun h => hp (isSome_lookup.1 h)

/-- In which order the dependent names are gone through makes no difference. -/
theorem Retires.eq_doneAll {left : List (α × Int)} (h : Retires graph ps waiting left) :
    left = doneAll graph waiting ps := by
  induction h with
  | nil => rfl
  | skip hp _ ih => rw [ih, doneAll, doneAll, foldl_cons, doneOne_of_not_mem hp]
  | take hp hds _ ih => rw [ih, doneAll, doneAll, foldl_cons, doneOne_eq_foldl hds hp]

theorem retires_doneAll (hg : WellFormed graph) (ps : List α) (waiting : List (α × Int)) :
    Retires graph ps waiting (doneAll graph waiting ps) := by
  induction ps generalizing waiting with
  | nil => exact .nil
  | cons p ps ih =>
    rw [doneAll, foldl_cons]
    by_cases hp : p ∈ waiting.map (·.1)
    · have hds : Dependents graph p ((graph.map (·.1)).filter fun n => p ∈ dependencies graph n) := by
        refine ⟨hg.names_nodup.filter _, fun n => ?_⟩
        rw [mem_filter, decide_eq_true_iff]
        exact ⟨fun h => h.2, fun h => ⟨h.mem, h⟩⟩
      refine .take hp hds ?_
      rw [doneOne_eq_foldl hds hp]
      exact ih _
    · rw [doneOne_of_not_mem hp]
      exact .skip hp (ih _)

section

variable [LT α] [DecidableLT α]

/-- One round: what it takes and which names wait after it. The names that wait are gone through in some order. -/
inductive Round (graph : List (α × List α)) (waiting : List (α × Int)) : List α → List (α × Int) → Prop
  | intro {seen left : List (α × Int)} (hne : waiting ≠ []) (hseen : seen.Perm waiting)
      (h : Retires graph (readyOf seen) seen left) : Round graph waiting (sorted (readyOf seen)) left

/-- Rounds follow each other until no name waits. -/
inductive Yields (graph : List (α × List α)) : List (α × Int) → List α → Prop
  | stop : Yields graph [] []
  | round {waiting left : List (α × Int)} {out rest : List α} (hround : Round graph waiting out left)
      (h : Yields graph left rest) : Yields graph waiting (out ++ rest)

/-- Every round takes a name, so rounds cannot go on without end. -/
theorem Round.length_lt {left : List (α × Int)} (h : Round graph waiting out left) : left.length < waiting.length := by
  cases h with
  | @intro seen _ hne hseen h =>
    have hne' : seen ≠ [] := by
      rintro rfl
      exact hne hseen.nil_eq.symm
    rw [h.eq_doneAll, ← hseen.length_eq]
    exact length_doneAll_lt graph hne'

theorem yields_rounds (hg : WellFormed graph) (k : Nat) (waiting : List (α × Int)) (hk : waiting.length ≤ k) :
    Yields graph waiting (rounds graph k waiting) := by
  induction k generalizing waiting with
  | zero =>
    rw [length_eq_zero_iff.1 (Nat.le_zero.1 hk)]
    exact .stop
  | succ k ih =>
    by_cases hw : waiting = []
    · subst hw
      exact .stop
    · have hless := length_doneAll_lt graph hw
      simp only [rounds, isEmpty_eq_false_iff.2 hw, Bool.false_eq_true, if_false]
      exact .round (.intro hw (.refl _) (retires_doneAll hg _ _)) (ih _ (Nat.le_of_lt_succ (Nat.lt_of_lt_of_le hless hk)))

theorem yields_order {s : Sorter α} (hg : WellFormed s.graph) : Yields s.graph (start s.graph) s.order :=
  yields_rounds hg _ _ (by simp [start])

/-! ### Rounds told from the names alone -/

def next (graph : List (α × List α)) (active : List α) : List α := readyOf (tally graph active)

def remaining (graph : List (α × List α)) (active : List α) : List α :=
  active.filter (!(next graph active).contains ·)

inductive Peels (graph : List (α × List α)) : List α → List α → Prop
  | stop : Peels graph [] []
  | round {active seen out : List α} (hne : active ≠ []) (hseen : seen.Perm active)
      (h : Peels graph (remaining graph seen) out) : Peels graph active (sorted (next graph seen) ++ out)

theorem Yields.peels (hg : WellFormed graph) (h : Yields graph (tally graph active) out) : Peels graph active out := by
  generalize hw : tally graph active = waiting at h
  induction h generalizing active with
  | stop =>
    rw [← tally_names graph active, hw]
    exact .stop
  | @round waiting left out rest hround _ ih =>
    subst hw
    cases hround with
    | @intro seen _ hne hseen hretires =>
      have hnames : (seen.map (·.1)).Perm active := by
        have hmap := hseen.map (·.1)
        rwa [tally_names] at hmap
      have hne' : active ≠ [] := fun hnil => hne (by rw [hnil]; rfl)
      rw [eq_tally_of_perm hseen] at hretires ⊢
      refine .round hne' hnames (ih ?_)
      rw [hretires.eq_doneAll, doneAll_tally hg]
      rfl

/-- A round takes all names that wait for nothing. If each waits for another one, it takes the smallest alone. -/
theorem next_cases (graph : List (α × List α)) (hne : active ≠ []) :
    (∀ n, n ∈ next graph active ↔ n ∈ active ∧ ∀ p, DependsOn graph n p → p ∉ active) ∨
      (∀ n ∈ active, ∃ p ∈ active, DependsOn graph n p) ∧
        ∃ n, smallest? active = some n ∧ next graph active = [n] := by
  unfold next readyOf
  split
  · rename_i hfree
    have hnone (n : α) : n ∉ free (tally graph active) := by simp [isEmpty_iff.1 hfree]
    refine Or.inr ⟨fun n hn => ?_, ?_⟩
    · by_contra hall
      refine hnone n (mem_free_tally.2 ⟨hn, fun p hp hactive => hall ⟨p, hactive, hp⟩⟩)
    · obtain ⟨n, hn⟩ := Option.isSome_iff_exists.1 (smallest?_isSome hne)
      exact ⟨n, hn, by rw [tally_names, hn]; rfl⟩
  · exact Or.inl fun n => mem_free_tally

theorem next_subset (graph : List (α × List α)) (active : List α) : next graph active ⊆ active := by
  have h : next graph active ⊆ (tally graph active).map (·.1) := readyOf_subset
  rwa [tally_names] at h

theorem next_nodup (graph : List (α × List α)) (h : active.Nodup) : (next graph active).Nodup :=
  readyOf_nodup (by rwa [tally_names])

@[simp] theorem mem_remaining : n ∈ remaining graph active ↔ n ∈ active ∧ n ∉ next graph active := by
  simp [remaining]

theorem Peels.perm (h : Peels graph active out) (hnodup : active.Nodup) : out.Perm active := by
  induction h with
  | stop => exact .nil
  | @round active seen out _ hseen _ ih =>
    have hseen_nodup : seen.Nodup := hseen.nodup_iff.2 hnodup
    have hrest := ih (hseen_nodup.filter _)
    have hparts := perm_append_filter (next_subset graph seen) hseen_nodup (next_nodup graph hseen_nodup)
    exact (((sorted_perm _).append hrest).trans hparts).trans hseen

/-- What an ordering of a sorter can give, whatever the order in which its sets are gone through. -/
def Produces (s : Sorter α) (out : List α) : Prop := Yields s.graph (start s.graph) out

theorem Produces.peels (h : (ofGraph calls).Produces out) :
    Peels (ofGraph calls).graph ((ofGraph calls).graph.map (·.1)) out := by
  have hg := wellFormed_ofGraph calls
  rw [Produces, start_eq_tally hg] at h
  exact h.peels hg

theorem order_perm (calls : List (α × List α)) : (ofGraph calls).order.Perm ((ofGraph calls).graph.map (·.1)) :=
  have hg := wellFormed_ofGraph calls
  (Produces.peels (yields_order hg)).perm hg.names_nodup

theorem order_nodup (calls : List (α × List α)) : (ofGraph calls).order.Nodup :=
  (order_perm calls).nodup_iff.2 (wellFormed_ofGraph calls).names_nodup

end

end Polyglot.Sorter
