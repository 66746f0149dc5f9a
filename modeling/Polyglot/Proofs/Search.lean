import Mathlib.Data.List.Infix
import Polyglot.Text.Search

/-!
# Where texts stand in texts

Searches are told in terms of the lists of characters: what a text starts with and what occurs in it, the parts into which
it falls at a character, and what becomes of it if a character is replaced by a text.
-/
namespace Polyglot.Text

open List

variable {pat cs a b held : List Char} {c : Char} {s old new t : String}

theorem afterPrefix?_isSome_iff : (afterPrefix? pat cs).isSome = true ↔ pat <+: cs := by
  fun_induction afterPrefix? pat cs with
  | case1 | case2 => simp
  | case3 p ps c cs heq ih => simpa [cons_prefix_cons, beq_iff_eq.1 heq] using ih
  | case4 p ps c cs hne =>
    simp only [Option.isSome_none, Bool.false_eq_true, cons_prefix_cons, false_iff]
    exact fun h => hne (beq_iff_eq.2 h.1)

theorem eq_append_of_afterPrefix? (h : afterPrefix? pat cs = some b) : cs = pat ++ b := by
  fun_induction afterPrefix? pat cs with
  | case1 => simpa using h
  | case2 => cases h
  | case3 p ps c cs heq ih => simpa [beq_iff_eq.1 heq] using ih h
  | case4 => cases h

theorem startsWith_iff : startsWith s t = true ↔ t.toList <+: s.toList := afterPrefix?_isSome_iff

theorem cutChars_isSome_iff : (cutChars pat cs).isSome = true ↔ pat <:+: cs := by
  induction cs with
  | nil => cases pat <;> simp [cutChars]
  | cons c cs ih =>
    rw [cutChars, infix_cons_iff, ← afterPrefix?_isSome_iff, ← ih]
    cases afterPrefix? pat (c :: cs) <;> simp

theorem occursIn_iff : occursIn t s = true ↔ t.toList <:+: s.toList := by
  rw [occursIn, cut?, Option.isSome_map, cutChars_isSome_iff]

theorem pieces_of_not_mem (hc : c ∈ pat) (hcs : c ∉ cs) : pieces pat 0 held cs = [held.reverse ++ cs] := by
  induction cs generalizing held with
  | nil => simp [pieces]
  | cons d cs ih =>
    have hnot : (afterPrefix? pat (d :: cs)).isSome = false := by
      rw [Bool.eq_false_iff, Ne, afterPrefix?_isSome_iff]
      exact fun h => hcs (h.subset hc)
    rw [pieces, hnot, if_neg Bool.false_ne_true, ih (fun h => hcs (mem_cons_of_mem _ h)), reverse_cons,
      append_assoc, singleton_append]

/-- A text is cut at the first place at which a character stands. -/
theorem pieces_append (ha : c ∉ a) : pieces [c] 0 held (a ++ c :: b) = (held.reverse ++ a) :: pieces [c] 0 [] b := by
  induction a generalizing held with
  | nil => simp [pieces, afterPrefix?]
  | cons d a ih =>
    obtain ⟨hd, ha⟩ := not_or.1 (fun h => ha (mem_cons.2 h))
    have hnot : (afterPrefix? [c] (d :: (a ++ c :: b))).isSome = false := by simp [afterPrefix?, hd]
    rw [cons_append, pieces, hnot, if_neg Bool.false_ne_true, ih ha, reverse_cons, append_assoc,
      singleton_append]

theorem not_mem_of_mem_pieces (hheld : c ∉ held) : ∀ p ∈ pieces [c] 0 held cs, c ∉ p := by
  induction cs generalizing held with
  | nil => simpa [pieces] using hheld
  | cons d cs ih =>
    by_cases hd : d = c
    · have hcut : pieces [c] 0 held (d :: cs) = held.reverse :: pieces [c] 0 [] cs := by
        simp [pieces, afterPrefix?, hd]
      rw [hcut]
      exact forall_mem_cons.2 ⟨by simpa using hheld, ih not_mem_nil⟩
    · have hnot : (afterPrefix? [c] (d :: cs)).isSome = false := by simp [afterPrefix?, Ne.symm hd]
      rw [pieces, hnot, if_neg Bool.false_ne_true]
      exact ih (by simp [hheld, Ne.symm hd])

theorem head?_pieces : (pieces [c] 0 held cs).head? = some (held.reverse ++ cs.takeWhile (· != c)) := by
  induction cs generalizing held with
  | nil => simp [pieces]
  | cons d cs ih =>
    by_cases hd : d = c
    · simp [pieces, afterPrefix?, hd]
    · simp [pieces, afterPrefix?, Ne.symm hd, hd, ih]

theorem split_of_not_mem (hc : c ∈ old.toList) (hs : c ∉ s.toList) : split s old = [s] := by
  have hold : old.isEmpty = false := by
    rw [Bool.eq_false_iff, Ne, String.isEmpty_iff]
    rintro rfl
    cases hc
  rw [split, hold, if_neg Bool.false_ne_true, pieces_of_not_mem hc hs]
  simp

theorem replaceAll_of_not_mem (hc : c ∈ old.toList) (hs : c ∉ s.toList) : replaceAll s old new = s := by
  rw [replaceAll, split_of_not_mem hc hs]
  simp

theorem split_char (hc : old.toList = [c]) : split s old = (pieces [c] 0 [] s.toList).map String.ofList := by
  rw [split, hc, if_neg]
  rw [String.isEmpty_iff]
  rintro rfl
  cases hc

theorem pieces_ne_nil (pat : List Char) (skip : Nat) (held cs : List Char) : pieces pat skip held cs ≠ [] := by
  fun_induction pieces pat skip held cs with
  | case1 => simp
  | case2 skip held d cs ih => exact ih
  | case3 => simp
  | case4 held d cs _ ih => exact ih

/-- A text with `new` for `pat` wherever this stands; `skip` characters still belong to an occurrence. -/
def replaced (pat new : List Char) : Nat → List Char → List Char
  | _, [] => []
  | skip + 1, _ :: cs => replaced pat new skip cs
  | 0, c :: cs =>
    if (afterPrefix? pat (c :: cs)).isSome then new ++ replaced pat new (pat.length - 1) cs else c :: replaced pat new 0 cs

theorem intercalate_pieces (skip : Nat) (held cs : List Char) :
    b.intercalate (pieces pat skip held cs) = held.reverse ++ replaced pat b skip cs := by
  fun_induction pieces pat skip held cs with
  | case1 => simp [replaced]
  | case2 _ held d cs ih => rw [ih, replaced]
  | case3 held d cs hpat ih => simp [intercalate_cons_of_ne_nil (pieces_ne_nil _ _ _ _), ih, replaced, hpat]
  | case4 held d cs hpat ih => simp [ih, replaced, hpat]

theorem toList_replaceAll (hold : old ≠ "") : (replaceAll s old new).toList = replaced old.toList new.toList 0 s.toList := by
  rw [replaceAll, split, if_neg (mt String.isEmpty_iff.1 hold), String.toList_intercalate, map_map]
  simpa [Function.comp_def] using intercalate_pieces 0 [] s.toList

/-- A character is replaced wherever it stands, and all others are kept. -/
theorem replaceAll_char (hc : old.toList = [c]) :
    (replaceAll s old new).toList = s.toList.flatMap fun x => if x = c then new.toList else [x] := by
  rw [toList_replaceAll (by rintro rfl; cases hc), hc]
  induction s.toList with
  | nil => rfl
  | cons d cs ih =>
    by_cases hd : d = c
    · simp [replaced, afterPrefix?, hd, ← ih]
    · simp [replaced, afterPrefix?, Ne.symm hd, hd, ← ih]

end Polyglot.Text
