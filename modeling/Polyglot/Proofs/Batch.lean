import Polyglot.Proofs.Effects
import Polyglot.Proofs.Rounds
import Polyglot.Targets

/-!
# Several files together

What a conversion of several files gives back. With faults suppressed, a program that cannot be taken costs the run
nothing but its own text. But a text that is no program is refused before any file is taken, and of two files with one
module name only the last is taken.
-/
namespace Polyglot

open Effect List Run

variable {results : List (String × Except Fault String)} {trees : List (String × Node)} {files : List (String × String)}
  {tree : String × Node} {text file : String} {n : Node}

namespace Text

theorem mem_lines {parts : List String} {part : String} {c : Char} (hp : part ∈ parts) (hc : c ∈ part.toList) :
    c ∈ (lines parts).toList := by
  unfold lines
  induction parts with
  | nil => cases hp
  | cons x xs ih =>
    cases xs with
    | nil =>
      rw [mem_singleton] at hp
      simpa [hp] using hc
    | cons y ys =>
      rw [String.intercalate_cons_cons]
      simp only [String.toList_append, mem_append]
      rcases mem_cons.1 hp with rfl | hp
      · exact Or.inl (Or.inl hc)
      · exact Or.inr (ih hp)

end Text

namespace Run

variable {t : Target} {o : Options} {others : List (String × Node)} {p q : Page}

/-! ### One file -/

/-- A text that was made ends a line, so it is never the text for a failure. -/
theorem assemble_ne_failureText {fixedWidth : Bool} (h : assemble t n fixedWidth p = .ok text q) : text ≠ failureText := by
  have hbreak : '\n' ∈ text.toList := by
    simp only [assemble, bind_eq_ok] at h
    obtain ⟨_, _, -, code, _, -, _, _, -, _, _, -, _, _, -, _, _, -, _, _, -, h⟩ := h
    have hcode : '\n' ∈ (code ++ "\n").toList := by simp
    split at h
    · obtain ⟨extra, p8, _, ⟨⟩⟩ := bind_eq_ok.1 h
      exact Text.mem_lines (by simp) hcode
    · cases h
      exact Text.mem_lines (by simp) hcode
  intro he
  rw [he] at hbreak
  exact absurd hbreak (by decide)

/-- What a program comes to, at some point of a run. -/
def Outcome (t : Target) (o : Options) (others : List (String × Node)) (tree : String × Node)
    (r : Except Fault String) : Prop :=
  ∃ p q, one t o others tree.1 tree.2 p = match r with
    | .ok text => .ok text q
    | .error f => .error f q

theorem Outcome.ne_failureText (h : Outcome t o others tree (.ok text)) : text ≠ failureText := by
  obtain ⟨p, q, hone⟩ := h
  obtain ⟨_, p1, _, hone⟩ := bind_eq_ok.1 hone
  obtain ⟨_, p2, _, hone⟩ := bind_eq_ok.1 hone
  exact assemble_ne_failureText hone

theorem attempt_suppressed (t : Target) (o : Options) (others : List (String × Node)) (tree : String × Node)
    (p : Page) :
    ∃ result q, attempt t o true others tree p = .ok result q ∧
      result.1 = tree.1 ∧ Outcome t o others tree result.2 := by
  cases hone : one t o others tree.1 tree.2 p with
  | ok text q =>
    refine ⟨(tree.1, .ok text), q, catch_ok ?_, rfl, p, q, hone⟩
    rw [bind_ok hone]
    rfl
  | error f q => exact ⟨(tree.1, .error f), q, catch_error (bind_error hone), rfl, p, q, hone⟩

/-! ### The order of the files -/

variable (trees)

/-- What is added to the sorter of a run: each module with the modules of the run that are named in it. -/
def calls (trees : List (String × Node)) : List (String × List String) :=
  trees.map fun tree =>
    (moduleName tree.1, (importsOf nestingLimit tree.2).filter (trees.map fun tree => moduleName tree.1).contains)

theorem sorterOf_eq (trees : List (String × Node)) : sorterOf trees = Sorter.ofGraph (calls trees) := by
  rw [calls, Sorter.ofGraph, foldl_map]
  rfl

/-- A sorter orders the modules of the run, and nothing else. -/
theorem mem_order {x : String} : x ∈ (sorterOf trees).order ↔ x ∈ trees.map fun tree => moduleName tree.1 := by
  rw [sorterOf_eq, (Sorter.order_perm _).mem_iff, Sorter.mem_names_ofGraph]
  constructor
  · rintro ⟨call, hcall, hx⟩
    obtain ⟨tree, htree, rfl⟩ := mem_map.1 hcall
    rcases hx with rfl | hx
    · exact mem_map_of_mem htree
    · simpa using (mem_filter.1 hx).2
  · intro hx
    obtain ⟨tree, htree, rfl⟩ := mem_map.1 hx
    exact ⟨_, mem_map_of_mem htree, .inl rfl⟩

theorem filterMap_section {α β : Type} {f : α → Option β} {g : β → α} {l : List α}
    (h : ∀ a ∈ l, ∃ b, f a = some b ∧ g b = a) : (l.filterMap f).map g = l := by
  rw [map_filterMap, filterMap_congr fun a ha => ?_, filterMap_some]
  obtain ⟨b, hb, hg⟩ := h a ha
  rw [hb, Option.map_some, hg]

theorem named_lookup {name : String} (h : (named trees).reverse.lookup name = some tree) :
    tree ∈ trees ∧ moduleName tree.1 = name := by
  have hm := mem_of_lookup h
  rw [mem_reverse] at hm
  obtain ⟨tree, htree, ⟨⟩⟩ := mem_map.1 hm
  exact ⟨htree, rfl⟩

theorem inOrder_subset : inOrder trees ⊆ trees := by
  intro tree h
  obtain ⟨name, _, hl⟩ := mem_filterMap.1 h
  exact (named_lookup _ hl).1

theorem inOrder_modules :
    ((inOrder trees).map fun tree => moduleName tree.1) = (sorterOf trees).order := by
  apply filterMap_section
  intro name hname
  have hnamed : name ∈ (named trees).reverse.map (·.1) := by
    rw [map_reverse, mem_reverse, named, List.map_map]
    exact (mem_order trees).1 hname
  obtain ⟨tree, htree⟩ := lookup_isSome_of_mem hnamed
  exact ⟨tree, htree, (named_lookup _ htree).2⟩

theorem inOrder_modules_nodup : ((inOrder trees).map fun tree => moduleName tree.1).Nodup := by
  rw [inOrder_modules, sorterOf_eq]
  exact Sorter.order_nodup _

theorem mem_inOrder_modules (h : tree ∈ trees) : ∃ taken ∈ inOrder trees, moduleName taken.1 = moduleName tree.1 := by
  have htaken := (mem_order trees).2 (mem_map_of_mem h)
  rw [← inOrder_modules] at htaken
  exact mem_map.1 htaken

theorem inOrder_paths_nodup : ((inOrder trees).map (·.1)).Nodup := by
  have h := inOrder_modules_nodup trees
  rw [← Function.comp_def moduleName Prod.fst, ← List.map_map] at h
  exact h.of_map moduleName

/-- The files are all taken exactly if no two of them share a module name. -/
theorem paths_subset_inOrder_iff :
    trees.map (·.1) ⊆ (inOrder trees).map (·.1) ↔
      ∀ a ∈ trees, ∀ b ∈ trees, moduleName a.1 = moduleName b.1 → a.1 = b.1 := by
  constructor
  · intro h a ha b hb he
    obtain ⟨x, hx, hxa⟩ := mem_map.1 (h (mem_map_of_mem ha))
    obtain ⟨y, hy, hyb⟩ := mem_map.1 (h (mem_map_of_mem hb))
    have hxy := inj_on_of_nodup_map (inOrder_modules_nodup trees) hx hy (by rw [hxa, hyb, he])
    rw [← hxa, ← hyb, hxy]
  · intro h path hpath
    obtain ⟨a, ha, rfl⟩ := mem_map.1 hpath
    obtain ⟨b, hb, he⟩ := mem_inOrder_modules trees ha
    rw [← h b (inOrder_subset trees hb) a ha he]
    exact mem_map_of_mem hb

/-! ### What is given back -/

variable {trees}

theorem textOf_ok_iff : (∃ text, textOf results file = .ok text) ↔ Path.text file ∈ results.map (·.1) := by
  constructor
  · rintro ⟨text, h⟩
    cases hl : results.reverse.lookup (Path.text file) with
    | none => simp only [textOf, hl] at h; cases h
    | some r => exact mem_map.2 ⟨_, mem_reverse.1 (mem_of_lookup hl), rfl⟩
  · intro h
    rw [← mem_reverse, ← map_reverse] at h
    obtain ⟨r, hr⟩ := lookup_isSome_of_mem h
    cases r with
    | ok text => exact ⟨text, by simp only [textOf, hr]; rfl⟩
    | error f => exact ⟨failureText, by simp only [textOf, hr]; rfl⟩

theorem texts_ok_iff {files : List String} :
    (∃ made, texts files results = .ok made) ↔ files.map Path.text ⊆ results.map (·.1) := by
  unfold texts
  induction files with
  | nil => exact iff_of_true ⟨[], rfl⟩ (nil_subset _)
  | cons file files ih =>
    rw [map_cons, cons_subset, ← ih, ← textOf_ok_iff]
    simp only [exceptMapM_eq_ok]
    constructor
    · rintro ⟨_, h⟩
      cases h with
      | cons hfile hfiles => exact ⟨⟨_, hfile⟩, ⟨_, hfiles⟩⟩
    · rintro ⟨⟨_, hfile⟩, ⟨_, hfiles⟩⟩
      exact ⟨_, .cons hfile hfiles⟩

theorem mem_successful {path : String} : path ∈ successful results ↔ ∃ text, (path, .ok text) ∈ results := by
  simp only [successful, mem_filterMap]
  constructor
  · rintro ⟨⟨_, r⟩, hr, he⟩
    cases r with
    | error f => simp [Except.isOk, Except.toBool] at he
    | ok text =>
      simp only [Except.isOk, Except.toBool, if_true, Option.some.injEq] at he
      exact ⟨text, he ▸ hr⟩
  · rintro ⟨text, hm⟩
    exact ⟨_, hm, by simp [Except.isOk, Except.toBool]⟩

def written : Except Fault String → String
  | .ok text => text
  | .error _ => failureText

theorem textOf_of_mem {r : Except Fault String} (hpaths : (results.map (·.1)).Nodup) (h : (Path.text file, r) ∈ results) :
    textOf results file = .ok (written r) := by
  obtain ⟨r', hr⟩ := lookup_isSome_of_mem (mem_map_of_mem (mem_reverse.2 h))
  have he := inj_on_of_nodup_map hpaths h (mem_reverse.1 (mem_of_lookup hr)) rfl
  cases he
  cases r <;> simp only [textOf, hr] <;> rfl

theorem programs_paths (h : programs files p = .ok trees q) : trees.map (·.1) = files.map fun file => Path.text file.1 := by
  refine map_of_mapM (fun file tree u v htree => ?_) h
  obtain ⟨n, w, _, ⟨⟩⟩ := bind_eq_ok.1 htree
  rfl

/-- The texts of all files can be read as programs, one after the other. -/
def Readable (files : List (String × String)) (p : Page) : Prop :=
  ∃ trees q, programs files (restart p) = .ok trees q

/-- No two files go by one module name. -/
def Separate (files : List (String × String)) : Prop :=
  ∀ a ∈ files, ∀ b ∈ files,
    moduleName (Path.text a.1) = moduleName (Path.text b.1) → Path.text a.1 = Path.text b.1

/-- All files that were read are taken exactly if no two of them go by one module name. -/
theorem separate_iff (h : programs files p = .ok trees q) :
    Separate files ↔ (files.map fun file => Path.text file.1) ⊆ (inOrder trees).map (·.1) := by
  have hpaths := programs_paths h
  have hnames : Separate files ↔ ∀ a ∈ files.map fun file => Path.text file.1,
      ∀ b ∈ files.map fun file => Path.text file.1, moduleName a = moduleName b → a = b := by
    simp only [Separate, forall_mem_map]
  rw [hnames, ← hpaths, paths_subset_inOrder_iff]
  simp only [forall_mem_map]

/-- What a file gets back: the text that its program came to, or `FAILED` if it came to a fault, which is the case
exactly if the file is not named as taken. -/
def Answered (t : Target) (o : Options) (trees : List (String × Node)) (taken : List String)
    (file : String × String) (text : String) : Prop :=
  ∃ n r, (Path.text file.1, n) ∈ trees ∧ Outcome t o (neighbours (inOrder trees)) (Path.text file.1, n) r ∧
    text = written r ∧ (text = failureText ↔ Path.text file.1 ∉ taken)

theorem attempts_ok (t : Target) (o : Options) (trees : List (String × Node)) (p : Page) :
    ∃ results q, (inOrder trees).mapM (attempt t o true (neighbours (inOrder trees))) p = .ok results q ∧
      results.map (·.1) = (inOrder trees).map (·.1) ∧
      ∀ path r, (path, r) ∈ results →
        ∃ n, (path, n) ∈ trees ∧ Outcome t o (neighbours (inOrder trees)) (path, n) r := by
  obtain ⟨results, q, hrun, hrel⟩ := mapM_forall₂ (attempt_suppressed t o (neighbours (inOrder trees)))
    (inOrder trees) p
  have hsub := inOrder_subset trees
  generalize inOrder trees = ordered at *
  generalize neighbours ordered = others at *
  have hmade : List.Forall₂ (fun _ x => ∃ n, (x.1, n) ∈ trees ∧ Outcome t o others (x.1, n) x.2) ordered results :=
    forall₂_of_mem hrel fun tree x htree h => ⟨tree.2, h.1 ▸ hsub htree, h.1 ▸ h.2⟩
  exact ⟨results, q, hrun, map_of_forall₂ hrel fun _ _ h => h.1, fun path r => forall_right hmade (fun _ _ h => h) (path, r)⟩

theorem all_eq_ok {suppress : Bool} :
    all t o suppress files p = .ok results q ↔ ∃ trees u, programs files (restart p) = .ok trees u ∧
      (inOrder trees).mapM (attempt t o suppress (neighbours (inOrder trees))) u = .ok results q := by
  unfold all
  rw [bind_ok (show (modify restart : Emit PUnit) p = .ok () (restart p) from rfl)]
  exact bind_eq_ok

end Run

namespace Job

variable (j : Job) (o : Options) (files : List (String × String)) (d : Desk)

theorem report_ok (results : List (String × Except Fault String)) (d : Desk) :
    ∃ d', report results d = .ok () d' := by
  induction results generalizing d with
  | nil => exact ⟨d, rfl⟩
  | cons result results ih =>
    obtain ⟨file, r⟩ := result
    cases r with
    | ok text => exact ih d
    | error f => exact ih _

/-- Once the files are taken, a conversion returns exactly if there is a text for each of them. -/
theorem convert_of_all {q : Page} (h : all j.target o true files d.page = .ok results q) :
    ∃ d', j.convert o files d = match Run.texts (files.map (·.1)) results with
      | .ok texts => .ok (texts, Run.successful results) d'
      | .error f => .error f d' := by
  obtain ⟨d', hd⟩ := report_ok results { d with page := q }
  refine ⟨d', ?_⟩
  unfold convert
  rw [bind_ok (lift_emit_ok h), bind_ok hd]
  cases Run.texts (files.map (·.1)) results <;> rfl

theorem texts_answered {texts : List String} (hpaths : results.map (·.1) = (inOrder trees).map (·.1))
    (hmade : ∀ path r, (path, r) ∈ results → ∃ n, (path, n) ∈ trees ∧ Run.Outcome j.target o (neighbours (inOrder trees)) (path, n) r)
    (h : Run.texts (files.map (·.1)) results = .ok texts) :
    List.Forall₂ (Run.Answered j.target o trees (Run.successful results)) files texts := by
  have hnodup : (results.map (·.1)).Nodup := hpaths ▸ inOrder_paths_nodup trees
  refine ((forall₂_map_left_iff).1 (exceptMapM_eq_ok.1 h)).imp ?_
  intro file text ht
  obtain ⟨⟨path, r⟩, hr, ⟨⟩⟩ := mem_map.1 (textOf_ok_iff.1 ⟨text, ht⟩)
  obtain ⟨n, hn, hout⟩ := hmade _ r hr
  rw [textOf_of_mem hnodup hr] at ht
  cases ht
  refine ⟨n, r, hn, hout, rfl, ?_⟩
  rw [mem_successful]
  cases r with
  | ok made => exact iff_of_false hout.ne_failureText (not_not.2 ⟨made, hr⟩)
  | error f =>
    refine iff_of_true rfl ?_
    rintro ⟨made, hm⟩
    have he := inj_on_of_nodup_map hnodup hr hm rfl
    cases he

variable {j o files d}

theorem convert_answered {texts taken : List String} {d' : Desk} (h : j.convert o files d = .ok (texts, taken) d') :
    ∃ trees q, programs files (restart d.page) = .ok trees q ∧
      List.Forall₂ (Run.Answered j.target o trees taken) files texts := by
  cases hall : all j.target o true files d.page with
  | error f q =>
    unfold convert at h
    rw [bind_error (lift_emit_error hall)] at h
    cases h
  | ok results q =>
    obtain ⟨d'', hd⟩ := convert_of_all j o files d hall
    obtain ⟨trees, u, hread, htake⟩ := all_eq_ok.1 hall
    obtain ⟨_, _, htake', hpaths, hmade⟩ := attempts_ok j.target o trees u
    rw [htake] at htake'
    cases htake'
    cases ht : Run.texts (files.map (·.1)) results with
    | error f => rw [hd, ht] at h; cases h
    | ok texts =>
      rw [hd, ht] at h
      cases h
      exact ⟨trees, u, hread, texts_answered j o files hpaths hmade ht⟩

theorem convert_of_read {q : Page} (hread : programs files (restart d.page) = .ok trees q) :
    (∃ texts taken d', j.convert o files d = .ok (texts, taken) d') ↔ Run.Separate files := by
  obtain ⟨results, u, htake, hpaths, _⟩ := attempts_ok j.target o trees q
  obtain ⟨d', hd⟩ := convert_of_all j o files d (all_eq_ok.2 ⟨trees, q, hread, htake⟩)
  rw [separate_iff hread, ← hpaths, ← Function.comp_def Path.text Prod.fst, ← List.map_map, ← texts_ok_iff, hd]
  cases Run.texts (files.map (·.1)) results <;> simp

/-- A conversion returns exactly if every text can be read and no two files share a module name. -/
theorem convert_ok_iff :
    (∃ texts taken d', j.convert o files d = .ok (texts, taken) d') ↔
      Run.Readable files d.page ∧ Run.Separate files := by
  constructor
  · rintro ⟨texts, taken, d', h⟩
    obtain ⟨trees, q, hread, -⟩ := convert_answered h
    exact ⟨⟨trees, q, hread⟩, (convert_of_read hread).1 ⟨texts, taken, d', h⟩⟩
  · rintro ⟨⟨trees, q, hread⟩, hseparate⟩
    exact (convert_of_read hread).2 hseparate

/-- A conversion returns one text for every file, and `FAILED` for exactly those that are not named as taken, if and
only if every text can be read as a program and no two files share a module name. -/
theorem convert_returns_iff (j : Job) (o : Options) (files : List (String × String)) (d : Desk) :
    (∃ texts taken d', j.convert o files d = .ok (texts, taken) d' ∧
        ∃ trees q, Run.programs files (Run.restart d.page) = .ok trees q ∧
          List.Forall₂ (Run.Answered j.target o trees taken) files texts) ↔
      Run.Readable files d.page ∧ Run.Separate files := by
  rw [← convert_ok_iff]
  constructor
  · rintro ⟨texts, taken, d', h, _⟩
    exact ⟨texts, taken, d', h⟩
  · rintro ⟨texts, taken, d', h⟩
    exact ⟨texts, taken, d', h, convert_answered h⟩

/-- A text that is no program takes down the file beside it, and of two files with one module name the first is lost. -/
theorem convert_lost :
    let j : Job := { target := Cpp.target, options := {}, tooling := ⟨["true"], none⟩, arguments := {} }
    let d : Desk := { room := {}, page := Targets.page Cpp.target {} true }
    returned (j.convert {} [("good.py", "x = 1\n"), ("bad.py", "def (\n")] d) = false ∧
      returned (j.convert {} [("a.b.py", ""), ("a/b.py", "")] d) = false := by
  decide +kernel

end Job
end Polyglot
