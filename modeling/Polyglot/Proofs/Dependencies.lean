import Mathlib.Data.Fintype.Card
import Mathlib.Data.Set.Finite.Basic
import Mathlib.Data.String.Basic
import Mathlib.Order.WellFounded
import Polyglot.Proofs.Rounds

/-!
# What a dependency order keeps

However the sets of an ordering are gone through, its rounds end, and they take every name once. Without a cycle each
name comes after all that it depends on. With cycles a name can come too early in one way only: when every name that is
left waits for another one, the smallest of them is taken.
-/
namespace Polyglot.Sorter

open Relation List

variable {α : Type} {r : α → α → Prop} {xs : List α}

/-! ### Cycles -/

def Acyclic (r : α → α → Prop) : Prop := ∀ x, ¬ TransGen r x x

theorem acyclic_of_rank (rank : α → Nat) (h : ∀ n p, r n p → rank p < rank n) : Acyclic r := by
  have hless {n p : α} (hnp : TransGen r n p) : rank p < rank n := by
    induction hnp with
    | single hnp => exact h _ _ hnp
    | tail _ hnp ih => exact (h _ _ hnp).trans ih
  exact fun x hx => (hless hx).false

def LeadsIntoCycle (r : α → α → Prop) (x : α) : Prop := ∃ c, ReflTransGen r x c ∧ TransGen r c c

theorem LeadsIntoCycle.step {x : α} (h : LeadsIntoCycle r x) : ∃ y, r x y ∧ LeadsIntoCycle r y := by
  obtain ⟨c, hxc, hc⟩ := h
  obtain ⟨y, hxy, hyc⟩ := TransGen.head'_iff.1 (TransGen.trans_right hxc hc)
  exact ⟨y, hxy, c, hyc, hc⟩

/-- If all of finitely many lead on to one of them, each leads into a cycle. -/
theorem leadsIntoCycle_of_mem (h : ∀ x ∈ xs, ∃ y ∈ xs, r x y) {p : α} (hp : p ∈ xs) : LeadsIntoCycle r p := by
  by_contra hnone
  have hirrefl (x : α) (hx : ReflTransGen r p x) : ¬ TransGen r x x := fun hc => hnone ⟨x, hx, hc⟩
  let Reached := { x // x ∈ xs ∧ ReflTransGen r p x }
  let behind (y x : Reached) : Prop := TransGen r x.1 y.1
  have : Finite Reached := ((finite_toSet xs).subset fun _ hx => hx.1).to_subtype
  have : Std.Irrefl behind := ⟨fun x => hirrefl x.1 x.2.2⟩
  -- a name behind which there is none would have nowhere to lead on to
  obtain ⟨x, _, hlast⟩ := (Finite.wellFounded_of_trans_of_irrefl behind).has_min Set.univ ⟨⟨p, hp, .refl⟩, trivial⟩
  obtain ⟨y, hy, hxy⟩ := h x.1 x.2.1
  exact hlast ⟨y, hy, x.2.2.tail hxy⟩ trivial (.single hxy)

theorem pair_sublist_append {ys : List α} {a b : α} (ha : a ∈ xs) (hb : b ∈ ys) : [a, b].Sublist (xs ++ ys) :=
  (singleton_sublist.2 ha).append (singleton_sublist.2 hb)

theorem not_pair_sublist_swap (hxs : xs.Nodup) {a b : α} (hab : [a, b].Sublist xs) : ¬ [b, a].Sublist xs := by
  intro hba
  induction xs with
  | nil => cases hab
  | cons x xs ih =>
    obtain ⟨hx, hxs⟩ := nodup_cons.1 hxs
    cases hab with
    | cons _ hab =>
      cases hba with
      | cons _ hba => exact ih hxs hab hba
      | cons_cons _ _ => exact hx (hab.subset (by simp))
    | cons_cons _ hb =>
      cases hba with
      | cons _ hba => exact hx (hba.subset (by simp))
      | cons_cons _ _ => exact hx (hb.subset (by simp))

/-! ### Runs -/

section

variable {calls : List (α × List α)}

variable [DecidableEq α] [LT α] [DecidableLT α] {graph : List (α × List α)} {active out : List α} {n p : α}

/-- A name comes before one that depends on it, unless all names that are left wait and the smallest of them is the
one that depends on it. -/
theorem Peels.precedes_or_blocked (h : Peels graph active out) (hnodup : active.Nodup) (hn : n ∈ active)
    (hp : p ∈ active) (hdep : DependsOn graph n p) :
    [p, n].Sublist out ∨ ∃ left, p ∈ left ∧ smallest? left = some n ∧ ∀ x ∈ left, ∃ y ∈ left, DependsOn graph x y := by
  induction h with
  | stop => cases hn
  | @round active seen out hactive hseen hpeels ih =>
    have hseen_nodup : seen.Nodup := hseen.nodup_iff.2 hnodup
    have hn' := hseen.mem_iff.2 hn
    have hp' := hseen.mem_iff.2 hp
    have hseen_ne : seen ≠ [] := ne_nil_of_mem hn'
    by_cases hnext : n ∈ next graph seen
    · -- a name that is taken while it waits is the smallest
      right
      rcases next_cases graph hseen_ne with hfree | ⟨hblocked, m, hm, hsingle⟩
      · exact absurd hp' (((hfree n).1 hnext).2 p hdep)
      · rw [hsingle, mem_singleton] at hnext
        exact ⟨seen, hp', hnext ▸ hm, hblocked⟩
    · have hrest_n : n ∈ remaining graph seen := mem_remaining.2 ⟨hn', hnext⟩
      have hrest_nodup : (remaining graph seen).Nodup := hseen_nodup.filter _
      by_cases hpnext : p ∈ next graph seen
      · left
        exact pair_sublist_append ((sorted_perm _).mem_iff.2 hpnext) ((hpeels.perm hrest_nodup).mem_iff.2 hrest_n)
      · rcases ih hrest_nodup hrest_n (mem_remaining.2 ⟨hp', hpnext⟩) with hsub | hblocked
        · exact Or.inl (hsub.trans (sublist_append_right _ _))
        · exact Or.inr hblocked

/-- Without a cycle a name comes before all that depend on it. -/
theorem Produces.precedes_of_acyclic (h : (ofGraph calls).Produces out) (hacyclic : Acyclic (Requires calls))
    (hrequires : Requires calls n p) : [p, n].Sublist out := by
  have hg := wellFormed_ofGraph calls
  have hdep := dependsOn_ofGraph.2 hrequires
  rcases h.peels.precedes_or_blocked hg.names_nodup hdep.mem (hg.known hdep) hdep with hsub | ⟨left, hp, _, hleft⟩
  · exact hsub
  · simp only [dependsOn_ofGraph] at hleft
    obtain ⟨c, _, hc⟩ := leadsIntoCycle_of_mem hleft hp
    exact absurd hc (hacyclic c)

/-- Rounds end, whatever the order in which the sets are gone through, and so do those that are run. Each run takes
every name that was mentioned once, and, if there is no cycle, after all that it depends on. -/
theorem runs_sort (calls : List (α × List α)) :
    (WellFounded fun left waiting => ∃ out, Round (ofGraph calls).graph waiting out left) ∧
      (ofGraph calls).Produces (ofGraph calls).order ∧
      ∀ out, (ofGraph calls).Produces out →
        out.Nodup ∧ (∀ x, x ∈ out ↔ Mentioned calls x) ∧
          (Acyclic (Requires calls) → ∀ n p, Requires calls n p → [p, n].Sublist out) := by
  have hg := wellFormed_ofGraph calls
  refine ⟨?_, yields_order hg, fun out h => ?_⟩
  · refine Subrelation.wf (r := InvImage (· < ·) List.length) ?_ (InvImage.wf _ Nat.lt_wfRel.wf)
    rintro left waiting ⟨out, hround⟩
    exact hround.length_lt
  · have hperm := h.peels.perm hg.names_nodup
    refine ⟨hperm.nodup_iff.2 hg.names_nodup, fun x => hperm.mem_iff.trans mem_names_ofGraph, ?_⟩
    exact fun hacyclic n p hrequires => h.precedes_of_acyclic hacyclic hrequires

end

theorem runs_sort_chain :
    let calls := [("C", ["B"]), ("B", ["A"]), ("A", [])]
    Acyclic (Requires calls) ∧ ["A", "B"].Sublist (ofGraph calls).order := by
  intro calls
  have hedges (n p : String) : Requires calls n p ↔ n = "C" ∧ p = "B" ∨ n = "B" ∧ p = "A" := by simp [Requires, calls]
  have hacyclic : Acyclic (Requires calls) := by
    refine acyclic_of_rank ["A", "B", "C"].idxOf fun n p h => ?_
    rcases (hedges n p).1 h with ⟨rfl, rfl⟩ | ⟨rfl, rfl⟩ <;> decide
  obtain ⟨_, hproduces, hsorts⟩ := runs_sort calls
  exact ⟨hacyclic, (hsorts _ hproduces).2.2 hacyclic "B" "A" ((hedges _ _).2 (by simp))⟩

/-! ### What cycles do -/

section

variable [LinearOrder α] {graph : List (α × List α)} {active out : List α} {n p : α}

theorem smallest?_eq_min? (xs : List α) : smallest? xs = xs.min? := by
  have hmin : (fun a b : α => if b < a then b else a) = min := by
    funext a b
    rw [min_comm, min_def_lt]
  cases xs with
  | nil => rfl
  | cons x xs => rw [smallest?, hmin, min?_cons']

theorem smallest?_le {m : α} (h : smallest? xs = some m) {x : α} (hx : x ∈ xs) : m ≤ x :=
  (min?_eq_some_iff.1 (smallest?_eq_min? xs ▸ h)).2 x hx

/-- Names that are not smaller than `n` and hold each other up are not taken before `n`, so `n` overtakes the one it
depends on. -/
theorem Peels.overtakes (h : Peels graph active out) (hnodup : active.Nodup) {held : α → Prop}
    (hheld : ∀ x, held x → x ∈ active ∧ n ≤ x ∧ ∃ y, held y ∧ DependsOn graph x y) (hn : n ∈ active) (hp : held p)
    (hdep : DependsOn graph n p) (hne : p ≠ n) : [n, p].Sublist out := by
  induction h with
  | stop => cases hn
  | @round active seen out _ hseen hpeels ih =>
    have hseen_nodup : seen.Nodup := hseen.nodup_iff.2 hnodup
    have hrest_nodup : (remaining graph seen).Nodup := hseen_nodup.filter _
    have hn' := hseen.mem_iff.2 hn
    have hactive {x : α} (hx : held x) : x ∈ seen := hseen.mem_iff.2 (hheld x hx).1
    -- of the held names only `n` itself can be taken, and only when no name is free
    have htaken {x : α} (hx : x ∈ next graph seen) (hwaits : ∃ y ∈ seen, DependsOn graph x y) (hle : n ≤ x) :
        next graph seen = [n] := by
      rcases next_cases graph (ne_nil_of_mem hn') with hfree | ⟨_, m, hm, hsingle⟩
      · obtain ⟨y, hy, hxy⟩ := hwaits
        exact absurd hy (((hfree x).1 hx).2 y hxy)
      · rw [hsingle, mem_singleton] at hx
        rw [hsingle, le_antisymm (smallest?_le hm hn') (hx ▸ hle)]
    by_cases hnext : n ∈ next graph seen
    · have hsingle := htaken hnext ⟨p, hactive hp, hdep⟩ le_rfl
      have hp_rest : p ∈ remaining graph seen := mem_remaining.2 ⟨hactive hp, by simpa [hsingle] using hne⟩
      exact pair_sublist_append ((sorted_perm _).mem_iff.2 hnext) ((hpeels.perm hrest_nodup).mem_iff.2 hp_rest)
    · have hkeep (x : α) (hx : held x) : x ∈ remaining graph seen := by
        obtain ⟨_, hle, y, hy, hxy⟩ := hheld x hx
        refine mem_remaining.2 ⟨hactive hx, fun hxnext => hnext ?_⟩
        simp [htaken hxnext ⟨y, hactive hy, hxy⟩ hle]
      have hsub := ih hrest_nodup (fun x hx => ⟨hkeep x hx, (hheld x hx).2⟩) (mem_remaining.2 ⟨hn', hnext⟩)
      exact hsub.trans (sublist_append_right _ _)

/-- `n` depends on `p`, and neither is smaller than `bound`. -/
def RequiresFrom (calls : List (α × List α)) (bound n p : α) : Prop := Requires calls n p ∧ bound ≤ n ∧ bound ≤ p

/-- A name comes before one that depends on it exactly if it does not lead into a cycle by names that are not smaller
than that one. -/
theorem precedes_iff (calls : List (α × List α)) (n p : α) (h : Requires calls n p) :
    [p, n].Sublist (ofGraph calls).order ↔ ¬ LeadsIntoCycle (RequiresFrom calls n) p := by
  have hg := wellFormed_ofGraph calls
  have hdep := dependsOn_ofGraph.2 h
  have hpeels := Produces.peels (yields_order hg)
  have hnodup : (ofGraph calls).order.Nodup := order_nodup calls
  constructor
  · intro hsub hleads
    have hne : p ≠ n := by simpa using hsub.nodup hnodup
    have hheld (x : α) (hx : LeadsIntoCycle (RequiresFrom calls n) x) : x ∈ (ofGraph calls).graph.map (·.1) ∧ n ≤ x ∧
        ∃ y, LeadsIntoCycle (RequiresFrom calls n) y ∧ DependsOn (ofGraph calls).graph x y := by
      obtain ⟨y, ⟨hxy, hle, _⟩, hy⟩ := hx.step
      have hxy := dependsOn_ofGraph.2 hxy
      exact ⟨hxy.mem, hle, y, hy, hxy⟩
    exact not_pair_sublist_swap hnodup hsub (hpeels.overtakes hg.names_nodup hheld hdep.mem hleads hdep hne)
  · intro hleads
    rcases hpeels.precedes_or_blocked hg.names_nodup hdep.mem (hg.known hdep) hdep with hsub | ⟨left, hp, hsmall, hleft⟩
    · exact hsub
    · refine absurd (leadsIntoCycle_of_mem (fun x hx => ?_) hp) hleads
      obtain ⟨y, hy, hxy⟩ := hleft x hx
      exact ⟨y, hy, dependsOn_ofGraph.1 hxy, smallest?_le hsmall hx, smallest?_le hsmall hy⟩

/-- What lies on no cycle and depends on none is not overtaken, although another name that is waited for is. -/
theorem precedes_beside_cycle :
    let calls := [("A", ["C"]), ("B", ["A", "D"]), ("C", ["B"]), ("D", [])]
    Requires calls "B" "D" ∧ ["D", "B"].Sublist (ofGraph calls).order := by
  intro calls
  have h : Requires calls "B" "D" := by simp [Requires, calls]
  refine ⟨h, (precedes_iff calls "B" "D" h).2 fun hleads => ?_⟩
  obtain ⟨y, ⟨hy, _⟩, _⟩ := hleads.step
  simp [Requires, calls] at hy

/-- A name on no cycle that is smaller than the cycle it waits for comes before it. -/
theorem cycle_overtaken :
    let calls := [("A", ["B"]), ("B", ["C"]), ("C", ["B"])]
    Requires calls "A" "B" ∧ ¬ TransGen (Requires calls) "B" "A" ∧ ¬ ["B", "A"].Sublist (ofGraph calls).order := by
  intro calls
  have horder : (ofGraph calls).order = ["A", "B", "C"] := by decide +kernel
  refine ⟨by simp [Requires, calls], fun h => ?_, ?_⟩
  · obtain ⟨x, _, hx⟩ := TransGen.tail'_iff.1 h
    simp [Requires, calls] at hx
  · rw [horder]
    decide

/-! ### What decides the order -/

theorem smallest?_eq_of_perm {ys : List α} (h : xs.Perm ys) : smallest? xs = smallest? ys := by
  rw [smallest?_eq_min?, smallest?_eq_min?]
  refine Option.ext fun m => ?_
  simp only [min?_eq_some_iff, h.mem_iff]

theorem sorted_eq_of_perm {ys : List α} (h : xs.Perm ys) : sorted xs = sorted ys := by
  have hsorted (zs : List α) : (sorted zs).Pairwise (· ≤ ·) := by
    refine (pairwise_mergeSort (fun a b c hab hbc => ?_) (fun a b => ?_) zs).imp fun hab => by simpa using hab
    · simp only [Bool.not_eq_true', decide_eq_false_iff_not, not_lt] at hab hbc ⊢
      exact hab.trans hbc
    · simpa using le_total a b
  exact List.Perm.eq_of_pairwise' (hsorted xs) (hsorted ys) ((sorted_perm xs).trans (h.trans (sorted_perm ys).symm))

theorem readyOf_perm {waiting waiting' : List (α × Int)} (h : waiting.Perm waiting') :
    (readyOf waiting).Perm (readyOf waiting') := by
  have hfree : (free waiting).Perm (free waiting') := (h.filter _).map _
  unfold readyOf
  rw [smallest?_eq_of_perm (h.map _), hfree.isEmpty_eq]
  split
  · exact .refl _
  · exact hfree

section

variable {graph' : List (α × List α)} {active' out' : List α}

variable (hg : WellFormed graph) (hg' : WellFormed graph')
    (hdep : ∀ n p, DependsOn graph n p ↔ DependsOn graph' n p)
include hg hg' hdep

theorem tally_perm (h : active.Perm active') :
    (tally graph active).Perm (tally graph' active') := by
  have hcount (n : α) : (dependencies graph n).countP (· ∈ active) = (dependencies graph' n).countP (· ∈ active') := by
    have hsame : (dependencies graph n).Perm (dependencies graph' n) :=
      (perm_ext_iff_of_nodup (hg.dependencies_nodup n) (hg'.dependencies_nodup n)).2 (hdep n)
    rw [hsame.countP_eq]
    simp only [h.mem_iff]
  simp only [tally, hcount]
  exact h.map _

theorem next_perm (h : active.Perm active') :
    (next graph active).Perm (next graph' active') :=
  readyOf_perm (tally_perm hg hg' hdep h)

theorem Peels.unique (h : Peels graph active out)
    (h' : Peels graph' active' out') (hactive : active.Perm active') : out = out' := by
  induction h generalizing active' out' with
  | stop =>
    cases h' with
    | stop => rfl
    | round hne _ _ => exact absurd hactive.nil_eq.symm hne
  | @round active seen out hne hseen _ ih =>
    cases h' with
    | stop => exact absurd hactive.eq_nil hne
    | @round _ seen' out' _ hseen' hpeels' =>
      have hboth : seen.Perm seen' := (hseen.trans hactive).trans hseen'.symm
      have hnext := next_perm hg hg' hdep hboth
      have hremaining : (remaining graph seen).Perm (remaining graph' seen') := by
        simp only [remaining, contains_eq_mem, hnext.mem_iff]
        exact hboth.filter _
      rw [sorted_eq_of_perm hnext, ih hpeels' hremaining]

end

/-- Two sorters that were told the same names and the same dependencies, in whatever order, portions and repetitions,
give one and the same order, whatever the order in which their sets are gone through. -/
theorem produces_iff_of_same_edges (calls calls' : List (α × List α))
    (hnames : ∀ x, Mentioned calls x ↔ Mentioned calls' x) (hedges : ∀ n p, Requires calls n p ↔ Requires calls' n p)
    (out : List α) : (ofGraph calls).Produces out ↔ out = (ofGraph calls').order := by
  have hg := wellFormed_ofGraph calls
  have hg' := wellFormed_ofGraph calls'
  have hdep (n p : α) : DependsOn (ofGraph calls).graph n p ↔ DependsOn (ofGraph calls').graph n p :=
    dependsOn_ofGraph.trans ((hedges n p).trans dependsOn_ofGraph.symm)
  have hactive : ((ofGraph calls).graph.map (·.1)).Perm ((ofGraph calls').graph.map (·.1)) :=
    (List.perm_ext_iff_of_nodup hg.names_nodup hg'.names_nodup).2 fun x =>
      mem_names_ofGraph.trans ((hnames x).trans mem_names_ofGraph.symm)
  have hunique {out : List α} (h : (ofGraph calls).Produces out) : out = (ofGraph calls').order :=
    h.peels.unique hg hg' hdep (Produces.peels (yields_order hg')) hactive
  constructor
  · exact hunique
  · intro h
    rw [h, ← hunique (yields_order hg)]
    exact yields_order hg

end

theorem same_edges_same_order :
    let calls := [("C", ["A", "B", "A"])]
    let calls' := [("B", []), ("C", ["B"]), ("C", ["A"])]
    (∀ x, Mentioned calls x ↔ Mentioned calls' x) ∧ (∀ n p, Requires calls n p ↔ Requires calls' n p) ∧
      ∀ out, (ofGraph calls).Produces out ↔ out = (ofGraph calls').order := by
  intro calls calls'
  have hnames (x : String) : Mentioned calls x ↔ Mentioned calls' x := by
    simp [Mentioned, calls, calls']
    tauto
  have hedges (n p : String) : Requires calls n p ↔ Requires calls' n p := by
    simp [Requires, calls, calls']
    tauto
  exact ⟨hnames, hedges, produces_iff_of_same_edges calls calls' hnames hedges⟩

end Polyglot.Sorter
