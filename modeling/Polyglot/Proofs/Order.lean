import Polyglot.Order

/-!
# Rounds of the dependency order

A round is never empty while a name waits, also where names depend on each other in a circle; as many rounds as there are
names are therefore enough.
-/
namespace Polyglot

open List

/-! ### Looking up -/

section

variable {κ β : Type} [BEq κ] [LawfulBEq κ] {l : List (κ × β)} {k : κ}

theorem mem_of_lookup {b : β} (h : l.lookup k = some b) : (k, b) ∈ l := by
  obtain ⟨l1, l2, rfl, _⟩ := lookup_eq_some_iff.1 h
  simp

theorem isSome_lookup : (l.lookup k).isSome = true ↔ k ∈ l.map (·.1) := by
  simp [lookup_isSome_iff, @eq_comm κ]

theorem lookup_isSome_of_mem (h : k ∈ l.map (·.1)) : ∃ b, l.lookup k = some b :=
  Option.isSome_iff_exists.1 (isSome_lookup.2 h)

end

namespace Sorter

variable {α : Type} {xs : List α} (s : Sorter α) {x : α}

/-! ### One round -/

theorem free_sublist (waiting : List (α × Int)) : (free waiting).Sublist (waiting.map (·.1)) :=
  filter_sublist.map _

section

variable [LT α] [DecidableLT α] {waiting : List (α × Int)}

theorem smallest?_mem (h : smallest? xs = some x) : x ∈ xs := by
  let _ : Min α := ⟨fun a b => if b < a then b else a⟩
  have _ : Std.MinEqOr α := ⟨fun a b => by change ite .. = _ ∨ ite .. = _; split <;> simp⟩
  have hmin : smallest? xs = xs.min? := by cases xs <;> rfl
  exact min?_mem (hmin ▸ h)

theorem smallest?_isSome (h : xs ≠ []) : (smallest? xs).isSome := by
  cases xs with
  | nil => exact absurd rfl h
  | cons x xs => rfl

theorem readyOf_subset : readyOf waiting ⊆ waiting.map (·.1) := by
  unfold readyOf
  split
  · intro x hx
    exact smallest?_mem (by simpa using hx)
  · exact (free_sublist waiting).subset

theorem readyOf_nodup (h : (waiting.map (·.1)).Nodup) : (readyOf waiting).Nodup := by
  unfold readyOf
  split
  · cases smallest? (waiting.map (·.1)) <;> simp
  · exact h.sublist (free_sublist waiting)

theorem readyOf_ne_nil (h : waiting ≠ []) : readyOf waiting ≠ [] := by
  unfold readyOf
  split
  · have hw : waiting.map (·.1) ≠ [] := by simpa using h
    obtain ⟨x, hx⟩ := Option.isSome_iff_exists.1 (smallest?_isSome hw)
    simp [hx]
  · rename_i hfree
    simpa using hfree

theorem sorted_perm (xs : List α) : (sorted xs).Perm xs := mergeSort_perm _ _

end

variable [DecidableEq α] {graph : List (α × List α)} {waiting : List (α × Int)} {n : α}

/-! ### Taking names out -/

theorem doneOne_names : (doneOne graph waiting n).map (·.1) = (waiting.map (·.1)).filter (· != n) := by
  have hkeep : (waiting.filter (·.1 != n)).map (·.1) = (waiting.map (·.1)).filter (· != n) := by
    rw [filter_map]
    rfl
  unfold doneOne
  split
  · rw [List.map_map, ← hkeep]
    apply map_congr_left
    intro w _
    simp only [Function.comp_apply]
    split <;> rfl
  · rename_i hn
    rw [isSome_lookup] at hn
    exact (filter_eq_self.2 fun x hx => bne_iff_ne.2 (ne_of_mem_of_not_mem hx hn)).symm

theorem doneAll_names (graph : List (α × List α)) (waiting : List (α × Int)) (ns : List α) :
    (doneAll graph waiting ns).map (·.1) = (waiting.map (·.1)).filter (!ns.contains ·) := by
  induction ns generalizing waiting with
  | nil => exact (filter_eq_self.2 (by simp)).symm
  | cons n ns ih =>
    have hstep : doneAll graph waiting (n :: ns) = doneAll graph (doneOne graph waiting n) ns := rfl
    rw [hstep, ih, doneOne_names, filter_filter]
    apply filter_congr
    intro x _
    by_cases hx : x = n <;> simp [hx, bne]

theorem perm_append_filter {ys : List α} (hsub : ys ⊆ xs) (hxs : xs.Nodup) (hys : ys.Nodup) :
    (ys ++ xs.filter (!ys.contains ·)).Perm xs := by
  have hys' : ys.Perm (xs.filter (ys.contains ·)) :=
    (perm_ext_iff_of_nodup hys (hxs.filter _)).2 fun x => by simpa using fun hx => hsub hx
  exact (hys'.append_right _).trans (filter_append_perm _ xs)

theorem length_doneAll_lt [LT α] [DecidableLT α] (graph : List (α × List α)) (h : waiting ≠ []) :
    (doneAll graph waiting (readyOf waiting)).length < waiting.length := by
  obtain ⟨n, hn⟩ := exists_mem_of_ne_nil _ (readyOf_ne_nil h)
  calc (doneAll graph waiting (readyOf waiting)).length
      = ((waiting.map (·.1)).filter (!(readyOf waiting).contains ·)).length := by
        rw [← doneAll_names graph waiting (readyOf waiting), length_map]
    _ < (waiting.map (·.1)).length :=
        length_filter_lt_length_iff_exists.2 ⟨n, readyOf_subset hn, by simpa using hn⟩
    _ = waiting.length := length_map _

/-! ### The names of a graph -/

theorem addNode_names (graph : List (α × List α)) (n : α) :
    (addNode graph n).map (·.1) = insertNew n (graph.map (·.1)) := by
  have hc : (graph.map (·.1)).contains n = (graph.lookup n).isSome := by
    rw [Bool.eq_iff_iff, contains_iff_mem, isSome_lookup]
  unfold addNode insertNew
  rw [hc]
  split <;> simp

theorem addEdge_names (graph : List (α × List α)) (n p : α) :
    (addEdge graph n p).map (·.1) = insertNew p (graph.map (·.1)) := by
  rw [← addNode_names]
  unfold addEdge
  rw [List.map_map]
  apply map_congr_left
  intro g _
  simp only [Function.comp_apply]
  split <;> rfl

theorem mem_insertNew {y : α} : y ∈ insertNew x xs ↔ y ∈ xs ∨ y = x := by
  unfold insertNew
  split
  · rename_i h
    have hx : x ∈ xs := by simpa using h
    constructor
    · exact Or.inl
    · rintro (hy | rfl) <;> assumption
  · simp

theorem nodup_insertNew (h : xs.Nodup) : (insertNew x xs).Nodup := by
  unfold insertNew
  split
  · exact h
  · rename_i hx
    refine nodup_append.2 ⟨h, by simp, ?_⟩
    intro y hy z hz he
    rw [mem_singleton.1 hz] at he
    exact hx (by simpa [he] using hy)

theorem mem_foldl_insertNew {y : α} {ys : List α} : y ∈ xs.foldl (fun ys x => insertNew x ys) ys ↔ y ∈ ys ∨ y ∈ xs := by
  induction xs generalizing ys with
  | nil => simp
  | cons x xs ih => rw [foldl_cons, ih, mem_insertNew, mem_cons, or_assoc]

theorem nodup_foldl_insertNew (xs : List α) {ys : List α} (h : ys.Nodup) :
    (xs.foldl (fun ys x => insertNew x ys) ys).Nodup := by
  induction xs generalizing ys with
  | nil => exact h
  | cons x xs ih => exact ih (nodup_insertNew h)

theorem add_names (n : α) (preds : List α) :
    (s.add n preds).graph.map (·.1) = preds.foldl (fun xs x => insertNew x xs) (insertNew n (s.graph.map (·.1))) := by
  have hfold (g : List (α × List α)) : (preds.foldl (fun g p => addEdge g n p) g).map (·.1) =
      preds.foldl (fun xs x => insertNew x xs) (g.map (·.1)) := by
    induction preds generalizing g with
    | nil => rfl
    | cons p preds ih => rw [foldl_cons, ih, addEdge_names, foldl_cons]
  rw [add, hfold, addNode_names]

theorem add_names_nodup (n : α) (preds : List α) (h : (s.graph.map (·.1)).Nodup) :
    ((s.add n preds).graph.map (·.1)).Nodup := by
  rw [add_names]
  exact nodup_foldl_insertNew preds (nodup_insertNew h)

theorem mem_add_names (n x : α) (preds : List α) :
    x ∈ (s.add n preds).graph.map (·.1) ↔ x ∈ s.graph.map (·.1) ∨ x = n ∨ x ∈ preds := by
  rw [add_names, mem_foldl_insertNew, mem_insertNew, or_assoc]

end Sorter
end Polyglot
