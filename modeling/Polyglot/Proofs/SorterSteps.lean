import Polyglot.Proofs.Dependencies

/-!
# An ordering asked step by step

An ordering can be asked at any time what is ready, and told that names are done: names that are ready or not, that were
done before, or that it does not know. Its numbers are those of `tally` all the same.
-/
namespace Polyglot.Sorter

open List

variable {α : Type} [LinearOrder α] {graph : List (α × List α)} (active : List α)

/-- What becomes of an ordering that is asked what is ready (`none`) and told which names are done. -/
def afterwards (s : Sorter α) (asked : List (Option (List α))) : Sorter α :=
  asked.foldl (fun s a => (s.perform (a.elim .ready .done)).1) s

theorem perform_tally (h : WellFormed graph) (a : Option (List α)) :
    (perform ⟨graph, some (tally graph active)⟩ (a.elim .ready .done)).1 =
      ⟨graph, some (tally graph (active.filter (!(a.getD []).contains ·)))⟩ := by
  rw [← doneAll_tally h]
  rcases a with _ | _ | ⟨n, ns⟩ <;> rfl

theorem afterwards_tally (h : WellFormed graph) (asked : List (Option (List α))) :
    afterwards ⟨graph, some (tally graph active)⟩ asked =
      ⟨graph, some (tally graph (active.filter (!(asked.flatMap (·.getD [])).contains ·)))⟩ := by
  induction asked generalizing active with
  | nil => simp [afterwards]
  | cons a asked ih =>
    rw [afterwards, foldl_cons, perform_tally active h]
    refine (ih _).trans ?_
    simp [Bool.and_comm]

/-- Whatever an ordering was asked and told since it was started: the number of each name that waits is that of the
waiting names it requires. While one waits, some are ready: those that require no waiting name, or else the smallest
alone. -/
theorem numbers_kept (calls : List (α × List α)) (asked : List (Option (List α))) :
    let s := (ofGraph calls).prepare.afterwards asked
    ∃ (active : List α) (number : α → Int), s.waiting = some (active.map fun n => (n, number n)) ∧
      active.Nodup ∧ (∀ x, x ∈ active ↔ Mentioned calls x ∧ ∀ ns, some ns ∈ asked → x ∉ ns) ∧
      (∀ n ∈ active, ∃ ps : List α, ps.Nodup ∧ (∀ p, p ∈ ps ↔ Requires calls n p ∧ p ∈ active) ∧ number n = ps.length) ∧
      (active ≠ [] → ∃ ready, (s.perform .ready).2 = .ok (.names ready) ∧ ready ≠ [] ∧ ready.Nodup ∧
        ((∀ n, n ∈ ready ↔ n ∈ active ∧ ∀ p, Requires calls n p → p ∉ active) ∨
          (∀ n ∈ active, ∃ p ∈ active, Requires calls n p) ∧ ∃ n ∈ active, (∀ m ∈ active, n ≤ m) ∧ ready = [n])) := by
  intro s
  have hg := wellFormed_ofGraph calls
  have hs := afterwards_tally ((ofGraph calls).graph.map (·.1)) hg asked
  rw [← start_eq_tally hg] at hs
  change s = _ at hs
  generalize hactive : filter _ _ = active at hs
  rw [hs]
  have hnodup : active.Nodup := hactive ▸ hg.names_nodup.filter _
  refine ⟨active, _, rfl, hnodup, fun x => ?_, fun n _ => ?_, fun hne => ?_⟩
  · rw [← hactive, mem_filter, mem_names_ofGraph]
    simp [Option.forall]
  · refine ⟨_, (hg.dependencies_nodup n).filter (· ∈ active), fun p => ?_, congrArg _ countP_eq_length_filter⟩
    rw [mem_filter, ← dependsOn_ofGraph, DependsOn, decide_eq_true_iff]
  · have hperm := sorted_perm (next (ofGraph calls).graph active)
    have hready : next (ofGraph calls).graph active ≠ [] := readyOf_ne_nil (by simpa [tally] using hne)
    refine ⟨_, rfl, fun h => hready (h ▸ hperm).nil_eq.symm, hperm.nodup_iff.2 (next_nodup _ hnodup), ?_⟩
    simp only [← dependsOn_ofGraph]
    refine (next_cases _ hne).imp (fun h n => hperm.mem_iff.trans (h n)) ?_
    rintro ⟨hall, n, hn, hnext⟩
    exact ⟨hall, n, smallest?_mem hn, fun m => smallest?_le hn, perm_singleton.1 (hperm.trans (.of_eq hnext))⟩

end Polyglot.Sorter
