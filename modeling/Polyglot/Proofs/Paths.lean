import Polyglot.Path
import Polyglot.Proofs.Search

/-!
# The names on a path

A path is as good as its root and the names below it: taking a path apart gives back the names of which it was made.
So the last name on the way to the text of a file is the stem of the file with another suffix.
-/
namespace Polyglot

open List

namespace Text

variable {pat cs a b held : List Char} {c : Char}

theorem endsWith_iff {s t : String} : endsWith s t = true ↔ t.toList <:+ s.toList := by
  rw [endsWith, afterPrefix?_isSome_iff, reverse_prefix]

theorem eq_append_of_cutChars (h : cutChars pat cs = some (a, b)) : cs = a ++ (pat ++ b) := by
  induction cs generalizing a with
  | nil =>
    cases pat with
    | nil =>
      cases h
      rfl
    | cons => cases h
  | cons c cs ih =>
    rw [cutChars] at h
    split at h
    · rename_i rest hrest
      cases h
      simpa using eq_append_of_afterPrefix? hrest
    · obtain ⟨⟨a', b'⟩, hcut, ⟨⟩⟩ := Option.map_eq_some_iff.1 h
      rw [cons_append, ← ih hcut]

end Text

namespace Path

open Text

variable {path start r n : String} {ns : List String}

structure IsName (n : String) : Prop where
  nonempty : n ≠ ""
  elsewhere : n ≠ "."
  unbroken : '/' ∉ n.toList

theorem split_slash (s : String) : split s "/" = (pieces ['/'] 0 [] s.toList).map String.ofList := split_char rfl

theorem isName_of_mem_names (h : n ∈ names path) : IsName n := by
  obtain ⟨hsplit, hkept⟩ := mem_filter.1 h
  obtain ⟨hempty, hdot⟩ : n ≠ "" ∧ n ≠ "." := by simpa using hkept
  rw [split_slash] at hsplit
  obtain ⟨p, hp, rfl⟩ := mem_map.1 hsplit
  exact ⟨hempty, hdot, by simpa using not_mem_of_mem_pieces not_mem_nil p hp⟩

theorem names_of_isName (h : IsName n) : names n = [n] := by
  rw [names, split_of_not_mem (c := '/') (mem_singleton.2 rfl) h.unbroken]
  simp [h.nonempty, h.elsewhere]

theorem names_append (h : IsName n) : names (n ++ "/" ++ path) = n :: names path := by
  have hchars : (n ++ "/" ++ path).toList = n.toList ++ '/' :: path.toList := by simp
  rw [names, split_slash, hchars, pieces_append h.unbroken, map_cons, filter_cons_of_pos, names,
    split_slash]
  · simp
  · simp [h.nonempty, h.elsewhere]

theorem names_slash : names ("/" ++ path) = names path := by
  have hchars : ("/" ++ path).toList = [] ++ '/' :: path.toList := by simp
  rw [names, split_slash, hchars, pieces_append not_mem_nil, map_cons, filter_cons_of_neg, names,
    split_slash]
  simp

theorem names_intercalate (h : ∀ n ∈ ns, IsName n) : names ("/".intercalate ns) = ns := by
  induction ns with
  | nil => rfl
  | cons n ns ih =>
    obtain ⟨hn, hns⟩ := forall_mem_cons.1 h
    cases ns with
    | nil => simpa using names_of_isName hn
    | cons m ns => rw [String.intercalate_cons_cons, names_append hn, ih hns]

theorem root_cases (path : String) : root path = "" ∨ root path = "/" ∨ root path = "//" := by
  unfold root
  split
  · exact .inr (.inr rfl)
  split
  · exact .inr (.inl rfl)
  · exact .inl rfl

theorem names_ofNames (hr : r = "" ∨ r = "/" ∨ r = "//") (h : ∀ n ∈ ns, IsName n) : names (ofNames r ns) = ns := by
  unfold ofNames
  split
  · rename_i hempty
    obtain ⟨_, hns⟩ : r = "" ∧ ns = [] := by simpa using hempty
    subst hns
    decide
  · rcases hr with rfl | rfl | rfl
    · rw [String.empty_append, names_intercalate h]
    · rw [names_slash, names_intercalate h]
    · rw [show "//" = "/" ++ "/" from rfl, String.append_assoc, names_slash, names_slash, names_intercalate h]

theorem names_join (start path : String) : ∃ ns, names (join start path) = ns ++ names path := by
  unfold join
  split
  · exact ⟨[], names_ofNames (root_cases path) fun _ => isName_of_mem_names⟩
  · refine ⟨names start, names_ofNames (root_cases start) fun n hn => ?_⟩
    rcases mem_append.1 hn with hn | hn <;> exact isName_of_mem_names hn

theorem suffix_intercalate (ns : List String) (n : String) : n.toList <:+ ("/".intercalate (ns ++ [n])).toList := by
  induction ns with
  | nil => simp
  | cons m ns ih =>
    rw [cons_append, String.intercalate_cons_of_ne_nil (by simp), String.toList_append]
    exact ih.trans (suffix_append _ _)

theorem endsWith_join (h : IsName n) : endsWith (join start n) "/" = false := by
  have hroot : isAbsolute n = false := by
    have hnot (r : String) (hr : '/' ∈ r.toList) : startsWith n r = false := by
      rw [Bool.eq_false_iff, Ne, startsWith_iff]
      exact fun hs => h.unbroken (hs.subset hr)
    simp [isAbsolute, root, hnot]
  rw [join, hroot, if_neg Bool.false_ne_true, names_of_isName h, ofNames, if_neg (by simp), Bool.eq_false_iff, Ne,
    endsWith_iff]
  intro hends
  have hn : n.toList <:+ (root start ++ "/".intercalate (names start ++ [n])).toList := by
    rw [String.toList_append]
    exact (suffix_intercalate _ n).trans (suffix_append _ _)
  have hlength : ("/".toList).length ≤ n.toList.length := length_pos_iff.2 (by simpa using h.nonempty)
  exact h.unbroken ((suffix_of_suffix_length_le hends hn hlength).subset (mem_singleton.2 rfl))

theorem names_relative (start path : String) : ∃ k m, names (relative start path) =
    List.replicate k ".." ++ (names path).drop m ∧ (names path).take m <+: names start := by
  have hshared : ∀ as bs : List String,
      bs.take ((as.zip bs).takeWhile fun p => p.1 == p.2).length <+: as := by
    intro as
    induction as with
    | nil => simp
    | cons a as ih =>
      intro bs
      cases bs with
      | nil => simp
      | cons b bs =>
        by_cases hab : a = b
        · simpa [zip_cons_cons, hab, cons_prefix_cons] using ih bs
        · simp [zip_cons_cons, hab]
  refine ⟨_, _, names_ofNames (.inl rfl) fun n hn => ?_, hshared _ _⟩
  rcases mem_append.1 hn with hn | hn
  · rw [eq_of_mem_replicate hn]
    exact ⟨by decide, by decide, by decide⟩
  · exact isName_of_mem_names (mem_of_mem_drop hn)

theorem stem_subset (path : String) : (stem path).toList ⊆ (name path).toList := by
  unfold stem
  split
  · rename_i a b hcut
    split
    · exact List.Subset.refl _
    · obtain ⟨⟨u, v⟩, huv, ⟨⟩⟩ := Option.map_eq_some_iff.1 hcut
      have hname := congrArg List.reverse (eq_append_of_cutChars huv)
      rw [reverse_reverse] at hname
      rw [hname]
      intro c hc
      simp only [String.toList_ofList, mem_reverse] at hc
      simp [hc]
  · exact List.Subset.refl _

theorem unbroken_name (path : String) : '/' ∉ (name path).toList := by
  unfold name
  cases hlast : (names path).getLast? with
  | none => simp
  | some n => exact (isName_of_mem_names (mem_of_getLast? hlast)).unbroken

end Path
end Polyglot
