import Polyglot.Proofs.TypeRules

/-!
# Unions of types

A union is read in two steps: its text is cut at the commas that stand in no brackets, and the parts are read in turn.
Where the names in it all stand for one type, however deep they are, the union stands for that type.
-/
namespace Polyglot.Smt

open List Text

/-- A text with a closing bracket for each opening one. A comma stands outside of brackets only if `commas` allows it. -/
inductive Balanced : Bool → List Char → Prop
  | nil {commas : Bool} : Balanced commas []
  | char {commas : Bool} {c : Char} {cs : List Char} (hopen : c ≠ '[') (hclose : c ≠ ']') (hcomma : c = ',' → commas = true)
      (h : Balanced commas cs) : Balanced commas (c :: cs)
  | brackets {commas : Bool} {w cs : List Char} (hw : Balanced true w) (h : Balanced commas cs) :
      Balanced commas ('[' :: (w ++ ']' :: cs))

/-- A union of parts, with a blank before the bracket or without. -/
def unionOf (gap : Bool) (ps : List (List Char)) : List Char :=
  "Union".toList ++ (if gap then [' '] else []) ++ '[' :: [','].intercalate ps ++ [']']

/-- Unions in unions, to any depth, of names that all stand for `t`. Blanks come before the parts of a union only. -/
inductive Nested (m : TypeMaps) (t : String) : Bool → List Char → Prop
  | name {w : String} (hplain : ∀ c ∈ w.toList, c ∉ [',', '[', ']'] ∧ isBlank c = false)
      (ht : TypeStyle.knownName m w = t) : Nested m t false w.toList
  | union (gap : Bool) {ps : List (List Char)} (hps : ps ≠ []) (h : ∀ p ∈ ps, Nested m t true p) :
      Nested m t false (unionOf gap ps)
  | part {cs : List Char} (h : Nested m t false cs) : Nested m t true cs
  | blank {cs : List Char} (h : Nested m t true cs) : Nested m t true (' ' :: cs)

variable {m : TypeMaps} {t : String} {cs w rest : List Char} {commas padded : Bool} {ps : List (List Char)}

/-! ### Parts -/

namespace Balanced

theorem append (hw : Balanced commas w) (h : Balanced commas cs) : Balanced commas (w ++ cs) := by
  induction hw with
  | nil => exact h
  | char hopen hclose hcomma _ ih => exact .char hopen hclose hcomma (ih h)
  | brackets hw _ _ ih => simpa using hw.brackets (ih h)

theorem inside (h : Balanced commas cs) : Balanced true cs := by
  induction h with
  | nil => exact .nil
  | char hopen hclose _ _ ih => exact .char hopen hclose (fun _ => rfl) ih
  | brackets hw _ _ ih => exact hw.brackets ih

theorem of_plain (h : ∀ c ∈ w, c ∉ [',', '[', ']']) : Balanced commas w := by
  induction w with
  | nil => exact .nil
  | cons c w ih =>
    obtain ⟨hc, hw⟩ := forall_mem_cons.1 h
    simp only [mem_cons, not_or] at hc
    exact .char hc.2.1 hc.2.2.1 (fun heq => absurd heq hc.1) (ih hw)

theorem intercalate (h : ∀ p ∈ ps, Balanced commas p) : Balanced true ([','].intercalate ps) := by
  induction ps with
  | nil => exact .nil
  | cons p ps ih =>
    obtain ⟨hp, hps⟩ := forall_mem_cons.1 h
    cases ps with
    | nil => simpa using hp.inside
    | cons q ps =>
      exact hp.inside.append (.char (by decide) (by decide) (fun _ => rfl) (ih hps))

/-- The scanner comes out of a balanced text at the depth at which it went in. -/
theorem unionParts_append (h : Balanced commas cs) {depth : Int} (hdepth : commas.toNat ≤ depth) (part rest : List Char) :
    unionParts depth part (cs ++ rest) = unionParts depth (cs.reverse ++ part) rest := by
  induction h generalizing depth part rest with
  | nil => rfl
  | @char commas c cs hopen hclose hcomma _ ih =>
    have hcut : (c == ',' && depth == 0) = false := by
      by_cases hc : c = ','
      · rw [hcomma hc, Bool.toNat_true] at hdepth
        simp [show depth ≠ 0 by omega]
      · simp [hc]
    simp [unionParts, hcut, hopen, hclose, ih hdepth]
  | @brackets commas w cs _ _ ihw ih =>
    have hinside := ihw (show (true.toNat : Int) ≤ depth + 1 by simp; omega) ('[' :: part) (']' :: (cs ++ rest))
    simpa [unionParts, hinside] using ih hdepth _ rest

end Balanced

theorem unionParts_intercalate (hps : ps ≠ []) (h : ∀ p ∈ ps, Balanced false p) :
    unionParts 0 [] ([','].intercalate ps) = ps.map String.ofList := by
  induction ps with
  | nil => exact absurd rfl hps
  | cons p ps ih =>
    obtain ⟨hp, hrest⟩ := forall_mem_cons.1 h
    cases ps with
    | nil => simpa [unionParts] using hp.unionParts_append le_rfl [] []
    | cons q ps =>
      have hp := hp.unionParts_append le_rfl [] (',' :: [','].intercalate (q :: ps))
      simpa [intercalate_cons_cons, unionParts, ih (cons_ne_nil _ _) hrest] using hp

theorem length_le_intercalate {p : List Char} (hp : p ∈ ps) : p.length ≤ ([','].intercalate ps).length := by
  induction ps with
  | nil => cases hp
  | cons q ps ih =>
    cases ps with
    | nil => simp [mem_singleton.1 hp]
    | cons r ps =>
      rw [intercalate_cons_cons, length_append, length_append]
      rcases mem_cons.1 hp with rfl | hp
      · omega
      · have := ih hp
        omega

theorem union?_unionOf (hps : ps ≠ []) (h : ∀ p ∈ ps, Balanced false p) :
    union? (String.ofList (unionOf false ps)) = some (ps.map fun p => strip (String.ofList p)) := by
  simp [union?, unionOf, startsWith, endsWith, dropStart, Text.dropLast, afterPrefix?, unionParts_intercalate hps h,
    -String.ofList_append]

/-! ### Blanks before brackets -/

abbrev tight (cs : List Char) : List Char := replaced "Union [".toList "Union[".toList 0 cs

theorem replaceAll_eq_tight (name : String) : replaceAll name "Union [" "Union[" = String.ofList (tight name.toList) := by
  rw [← String.toList_inj, toList_replaceAll (by decide)]
  simp [tight]

theorem tight_blank (cs : List Char) : tight (' ' :: cs) = ' ' :: tight cs := by simp [tight, replaced, afterPrefix?]

section

variable {pat new : List Char} {c : Char} (hc : c ∉ pat)
include hc

theorem prefix_append_iff (rest : List Char) : pat <+: w ++ c :: rest ↔ pat <+: w := by
  refine ⟨fun h => ?_, fun h => h.trans (prefix_append ..)⟩
  rcases prefix_or_prefix_of_prefix h (prefix_append w _) with hpat | ⟨q, rfl⟩
  · exact hpat
  rw [prefix_append_right_inj] at h
  cases q with
  | nil => simp
  | cons d q =>
    obtain ⟨rfl, -⟩ := cons_prefix_cons.1 h
    exact absurd (mem_append_right _ mem_cons_self) hc

/-- What is replaced does not reach beyond a character that is not in it. -/
theorem replaced_append {skip : Nat} (hskip : skip ≤ cs.length) :
    replaced pat new skip (cs ++ c :: rest) = replaced pat new skip cs ++ replaced pat new 0 (c :: rest) := by
  fun_induction replaced pat new skip cs with
  | case1 =>
    rw [Nat.le_zero.1 hskip]
    rfl
  | case2 skip d cs ih => exact ih (Nat.le_of_succ_le_succ hskip)
  | case3 d cs hpat ih =>
    have hlength := (afterPrefix?_isSome_iff.1 hpat).length_le
    rw [afterPrefix?_isSome_iff, ← prefix_append_iff hc rest, cons_append, ← afterPrefix?_isSome_iff] at hpat
    rw [cons_append, replaced, if_pos hpat, ih (by simp at hlength; omega), append_assoc]
  | case4 d cs hpat ih =>
    rw [afterPrefix?_isSome_iff, ← prefix_append_iff hc rest, cons_append, ← afterPrefix?_isSome_iff] at hpat
    rw [cons_append, replaced, if_neg hpat, ih (Nat.zero_le _), cons_append]

end

theorem tight_append {c : Char} (hc : c ∉ "Union [".toList) : tight (cs ++ c :: rest) = tight cs ++ c :: tight rest := by
  have hne : 'U' ≠ c := fun h => hc (h ▸ by decide)
  rw [tight, replaced_append hc (Nat.zero_le _)]
  simp [tight, replaced, afterPrefix?, hne]

theorem tight_intercalate (ps : List (List Char)) : tight ([','].intercalate ps) = [','].intercalate (ps.map tight) := by
  induction ps with
  | nil => rfl
  | cons p ps ih =>
    cases ps with
    | nil => simp
    | cons q ps =>
      rw [intercalate_cons_cons, append_assoc, singleton_append, tight_append (by decide), ih]
      simp [intercalate_cons_cons]

theorem tight_unionOf (gap : Bool) (ps : List (List Char)) : tight (unionOf gap ps) = unionOf false (ps.map tight) := by
  have hopen : tight ("Union".toList ++ (if gap then [' '] else []) ++ '[' :: [','].intercalate ps) =
      "Union[".toList ++ tight ([','].intercalate ps) := by
    cases gap <;> simp [tight, replaced, afterPrefix?]
  rw [unionOf, tight_append (by decide), hopen, tight_intercalate]
  simp [unionOf, tight, replaced]

/-! ### What a union stands for -/

theorem strip_eq_self (h : ∀ c ∈ w.head?, isBlank c = false) (h' : ∀ c ∈ w.getLast?, isBlank c = false) :
    strip (String.ofList w) = String.ofList w := by
  have hdrop {w : List Char} (h : ∀ c ∈ w.head?, isBlank c = false) : w.dropWhile isBlank = w := by
    cases w with
    | nil => rfl
    | cons c w => simp [h c rfl]
  rw [strip, String.toList_ofList, hdrop h, dropEnd, hdrop (by simpa using h'), reverse_reverse]

theorem eraseDups_eq_singleton {us : List String} (hne : us ≠ []) (h : ∀ u ∈ us, u = t) : us.eraseDups = [t] := by
  obtain ⟨u, us, rfl⟩ := exists_cons_of_ne_nil hne
  obtain ⟨rfl, hus⟩ := forall_mem_cons.1 h
  have hrest : us.filter (fun v => !v == u) = [] := filter_eq_nil_iff.2 fun v hv => by simp [hus v hv]
  rw [eraseDups_cons, hrest, eraseDups_nil]

/-- What is known of a text once it was made tight. -/
structure Settled (m : TypeMaps) (t : String) (padded : Bool) (cs : List Char) : Prop where
  same : tight (tight cs) = tight cs
  balanced : Balanced false (tight cs)
  bare : padded = false → strip (String.ofList (tight cs)) = String.ofList (tight cs)
  typeName_eq : ∀ k, cs.length < k → typeName m k (strip (String.ofList (tight cs))) = t

theorem Nested.settled (h : Nested m t padded cs) : Settled m t padded cs := by
  induction h with
  | @name w hplain ht =>
    have htight : tight w.toList = w.toList := by
      have hblank : ' ' ∉ w.toList := fun hmem => absurd (hplain _ hmem).2 (by decide)
      have hw : replaceAll w "Union [" "Union[" = w := replaceAll_of_not_mem (by decide) hblank
      rwa [replaceAll_eq_tight, ← String.toList_inj, String.toList_ofList] at hw
    have hbracket : '[' ∉ w.toList := fun hmem => absurd (hplain _ hmem).1 (by decide)
    have hstrip : strip (String.ofList w.toList) = String.ofList w.toList :=
      strip_eq_self (fun c hc => (hplain c (mem_of_mem_head? hc)).2) fun c hc => (hplain c (mem_of_mem_getLast? hc)).2
    constructor
    all_goals rw [htight]
    · exact htight
    · exact .of_plain fun c hc => (hplain c hc).1
    · exact fun _ => hstrip
    · intro k hk
      obtain ⟨k, rfl⟩ := exists_succ_of_lt hk
      rw [hstrip, String.ofList_toList, typeName_of_not_mem hbracket, ht]
  | @union gap ps hps _ ih =>
    have hbalanced : ∀ p ∈ ps.map tight, Balanced false p := by simpa using fun p hp => (ih p hp).balanced
    have hsame : tight (unionOf false (ps.map tight)) = unionOf false (ps.map tight) := by
      rw [tight_unionOf, map_map]
      exact congrArg _ (map_congr_left fun p hp => (ih p hp).same)
    have hbare : strip (String.ofList (unionOf false (ps.map tight))) = String.ofList (unionOf false (ps.map tight)) :=
      strip_eq_self (by rintro _ ⟨⟩; decide) (by rw [unionOf, getLast?_concat]; rintro _ ⟨⟩; decide)
    constructor
    all_goals rw [tight_unionOf]
    · exact hsame
    · have hunion : Balanced false "Union".toList := .of_plain (by simp)
      simpa [unionOf] using hunion.append ((Balanced.intercalate hbalanced).brackets .nil)
    · exact fun _ => hbare
    · intro k hk
      obtain ⟨k, rfl⟩ := exists_succ_of_lt hk
      have hparts : (((ps.map tight).map fun p => strip (String.ofList p)).map (typeName m k)).eraseDups = [t] := by
        refine eraseDups_eq_singleton (by simpa using hps) ?_
        simp only [map_map, mem_map]
        rintro _ ⟨p, hp, rfl⟩
        have := length_le_intercalate hp
        simp [unionOf] at hk
        exact (ih p hp).typeName_eq k (by omega)
      rw [hbare, typeName, replaceAll_eq_tight, String.toList_ofList, hsame, union?_unionOf (by simpa using hps) hbalanced]
      simp only [hparts]
  | part _ ih => exact { ih with bare := fun h => absurd h (by decide) }
  | @blank cs _ ih =>
    have hstrip : strip (String.ofList (' ' :: tight cs)) = strip (String.ofList (tight cs)) := by
      simp [strip, show isBlank ' ' = true by decide]
    constructor
    all_goals rw [tight_blank]
    · rw [tight_blank, ih.same]
    · exact .char (by decide) (by decide) (by simp) ih.balanced
    · exact fun h => absurd h (by decide)
    · intro k hk
      rw [hstrip]
      exact ih.typeName_eq k (Nat.lt_of_succ_lt hk)

/-- A union of names that stand for one type, with unions inside to any depth, stands for that type; and a text is cut
into the parts that it was joined from. -/
theorem unions_collapse :
    (∀ (m : TypeMaps) (t name : String) (l : Lifetime), Nested m t false name.toList →
      style.nameType m name l = pure (.text t)) ∧
    ∀ parts : List String, parts ≠ [] → (∀ p ∈ parts, Balanced false p.toList) →
      unionParts 0 [] (",".intercalate parts).toList = parts := by
  refine ⟨fun m t name l h => ?_, fun parts hne h => ?_⟩
  · have hname := h.settled.typeName_eq (name.length + 1) (by rw [String.length_toList]; omega)
    rw [h.settled.bare rfl, typeName, replaceAll_eq_tight, String.toList_ofList, h.settled.same, ← replaceAll_eq_tight] at hname
    exact congrArg (fun u => pure (f := Analysis) (TypeTerm.text u)) hname
  · have hparts := @unionParts_intercalate (parts.map String.toList) (by simpa using hne) (by simpa using h)
    rw [String.toList_intercalate]
    simpa using hparts

theorem integers_collapse :
    style.nameType ⟨types, containers, .absent⟩ "Union [int, Union[int]]" .unknown = pure (.text "Int") ∧
      unionParts 0 [] "[,],d".toList = ["[,]", "d"] := by
  have hint : Nested ⟨types, containers, .absent⟩ "Int" false "int".toList :=
    .name (w := "int") (by simp; decide) (by decide +kernel)
  have hunion : Nested ⟨types, containers, .absent⟩ "Int" false "Union[int]".toList :=
    @Nested.union _ _ false ["int".toList] (by simp) (by simpa using hint.part)
  refine ⟨unions_collapse.1 _ _ _ _ ?_, unions_collapse.2 ["[,]", "d"] (by simp) ?_⟩
  · exact @Nested.union _ _ true ["int".toList, " Union[int]".toList] (by simp) (by simpa using ⟨hint.part, hunion.part.blank⟩)
  · simpa using ⟨.brackets (w := [',']) (.char (by decide) (by decide) (fun _ => rfl) .nil) .nil, .of_plain (by simp)⟩

end Polyglot.Smt
