import Polyglot.Proofs.Batch
import Polyglot.Proofs.Dependencies
import Polyglot.Proofs.Held

/-!
# Files in the order of their imports

Files are taken in an order in which every module comes after those that it names in full, by `import a.b` or by `from
a.b import x`. Imports that name a module in parts are not seen: a relative import is taken for one of a module of the
name that is written, and a module that is taken from its package goes unnoticed.
-/
namespace Polyglot

open Effect List Sorter

/-! ### Trees that were read -/

namespace Session

variable {k : Nat} {n : Node} {s s' : Session}

theorem shallow_of_recordAll (h : recordAll k n s = .ok () s') : n.Shallow k := by
  induction k generalizing n s s' with
  | zero => cases h
  | succ k ih =>
    obtain ⟨_, t, _, h⟩ := bind_eq_ok.1 h
    have hall (cs : List Node) (t : Session) (h : (cs.forM (recordAll k) : Analysis Unit) t = .ok () s') :
        ∀ c ∈ cs, c.Shallow k := by
      induction cs generalizing t with
      | nil => exact forall_mem_nil _
      | cons c cs ihcs =>
        obtain ⟨_, u, hc, hcs⟩ := bind_eq_ok.1 h
        exact forall_mem_cons.2 ⟨ih hc, ihcs u hcs⟩
    exact hall n.children t h

theorem shallow_of_readProgram {text : String} (h : readProgram text s = .ok n s') : n.Shallow nestingLimit := by
  obtain ⟨_, _, ⟨⟩, h⟩ := bind_eq_ok.1 h
  cases hread : Grammar.read s.next text with
  | error f =>
    rw [hread] at h
    cases h
  | ok read =>
    rw [hread] at h
    obtain ⟨_, _, _, h⟩ := bind_eq_ok.1 h
    obtain ⟨_, _, hrecord, ⟨⟩⟩ := bind_eq_ok.1 h
    exact shallow_of_recordAll hrecord

end Session

namespace Run

open Sorter (Acyclic Requires)
open Relation (TransGen)

variable {p q : Page} {files : List (String × String)} {trees : List (String × Node)} {k : Nat}

theorem programs_shallow (h : programs files p = .ok trees q) : ∀ tree ∈ trees, tree.2.Shallow nestingLimit := by
  have hread : Ensures (fun _ => True) (fun trees : List (String × Node) => ∀ tree ∈ trees, tree.2.Shallow nestingLimit)
      (programs files) := by
    refine Ensures.mapM fun file _ => ?_
    intro p tree q _ h
    obtain ⟨n, _, hn, h⟩ := bind_eq_ok.1 h
    obtain ⟨_, hread, _⟩ := lift_analysis_eq_ok.1 hn
    cases h
    exact ⟨trivial, Session.shallow_of_readProgram hread⟩
  exact (hread p trees q trivial h).2

/-! ### What a file imports -/

theorem importsOf_eq (k : Nat) (n : Node) : importsOf k n = (n.nodes k).flatMap fun s => writtenImports s.shape := by
  induction k generalizing n with
  | zero => rfl
  | succ k ih =>
    rw [importsOf, Node.nodes, flatMap_cons, flatMap_assoc, funext ih]
    rfl

/-- The package at which a relative import starts: one level up from the module for each dot. -/
def package (m : String) : Nat → List String
  | 0 => []
  | level + 1 => ((Text.split m ".").reverse.drop (level + 1)).reverse

def namedInFull : Shape Node → List String
  | .importNames names => names.filterMap Node.ident?
  | .importFrom source _ 0 => source.toList
  | _ => []

/-- The modules that a relative import would name if its dots were left out. -/
def namedRelative : Shape Node → List String
  | .importFrom source _ (_ + 1) => source.toList
  | _ => []

/-- The names of the modules that a statement of module `m` imports. What `from` brings in by name is a module too, if
there is one of that name in the package. -/
def imported (m : String) : Shape Node → List String
  | .importNames names => names.filterMap Node.ident?
  | .importFrom source names level =>
    (source.toList.map fun x => ".".intercalate (package m level ++ [x])) ++
      (names.filterMap Node.ident?).map fun x => ".".intercalate (package m level ++ source.toList ++ [x])
  | _ => []

/-- A statement of file `f` has the module of file `g` among its names. -/
def Mentions (names : Shape Node → List String) (f g : String × Node) : Prop :=
  ∃ s : Node, s.Within f.2 ∧ moduleName g.1 ∈ names s.shape

def Imports (f g : String × Node) : Prop := Mentions (imported (moduleName f.1)) f g

theorem mentions_iff {names : Shape Node → List String} {f g : String × Node} (h : f.2.Shallow k) :
    Mentions names f g ↔ ∃ s ∈ f.2.nodes k, moduleName g.1 ∈ names s.shape := by
  simp only [Mentions, Node.mem_nodes h]

theorem namedInFull_subset_imported (m : String) (shape : Shape Node) : namedInFull shape ⊆ imported m shape := by
  intro d hd
  unfold namedInFull at hd
  split at hd
  · exact hd
  · refine mem_append_left _ (mem_map.2 ⟨d, hd, ?_⟩)
    simp [package]
  · cases hd

theorem mem_writtenImports {d : String} {shape : Shape Node} :
    d ∈ writtenImports shape ↔ d ∈ namedInFull shape ∨ d ∈ namedRelative shape := by
  cases shape with
  | importFrom source names level => cases level <;> simp [writtenImports, namedInFull, namedRelative]
  | _ => simp [writtenImports, namedInFull, namedRelative]

/-! ### The order -/

theorem requires_calls (hshallow : ∀ tree ∈ trees, tree.2.Shallow nestingLimit) {m d : String} :
    Requires (calls trees) m d ↔
      ∃ f ∈ trees, ∃ g ∈ trees, moduleName f.1 = m ∧ moduleName g.1 = d ∧
        (Mentions namedInFull f g ∨ Mentions namedRelative f g) := by
  have himports {f : String × Node} (hf : f ∈ trees) (g : String × Node) :
      moduleName g.1 ∈ importsOf nestingLimit f.2 ↔ Mentions namedInFull f g ∨ Mentions namedRelative f g := by
    simp only [importsOf_eq, mem_flatMap, mem_writtenImports, and_or_left, exists_or,
      mentions_iff (hshallow f hf)]
  constructor
  · rintro ⟨call, hcall, rfl, hd⟩
    obtain ⟨f, hf, rfl⟩ := mem_map.1 hcall
    obtain ⟨hd, hknown⟩ := mem_filter.1 hd
    obtain ⟨g, hg, rfl⟩ := mem_map.1 (contains_iff_mem.1 hknown)
    exact ⟨f, hf, g, hg, rfl, rfl, (himports hf g).1 hd⟩
  · rintro ⟨f, hf, g, hg, rfl, rfl, h⟩
    refine ⟨_, mem_map_of_mem hf, rfl, mem_filter.2 ⟨(himports hf g).2 h, ?_⟩⟩
    exact contains_iff_mem.2 (mem_map_of_mem hg)

theorem inOrder_of_modules (hdistinct : (trees.map fun tree => moduleName tree.1).Nodup) {f g : String × Node}
    (hf : f ∈ trees) (hg : g ∈ trees) (h : [moduleName g.1, moduleName f.1].Sublist (sorterOf trees).order) :
    [g, f].Sublist (inOrder trees) := by
  rw [← inOrder_modules] at h
  obtain ⟨taken, hsub, htaken⟩ := sublist_map_iff.1 h
  obtain ⟨g', rest, rfl, hg', hrest⟩ := map_eq_cons_iff.1 htaken.symm
  obtain ⟨f', rfl, hf'⟩ := map_eq_singleton_iff.1 hrest
  have hmem {x : String × Node} (hx : x ∈ [g', f']) : x ∈ trees := inOrder_subset trees (hsub.subset hx)
  have hinj := inj_on_of_nodup_map hdistinct
  obtain rfl := hinj (hmem (by simp)) hg hg'
  obtain rfl := hinj (hmem (by simp)) hf hf'
  exact hsub

def Needs (trees : List (String × Node)) (m d : String) : Prop :=
  ∃ f ∈ trees, ∃ g ∈ trees, moduleName f.1 = m ∧ moduleName g.1 = d ∧ Imports f g

def checks (files : List (String × String)) (check : List (String × Node) → Bool) : Bool :=
  match programs files (Targets.page Cpp.target {} true) with
  | .ok trees _ => check trees
  | .error _ _ => false

theorem of_checks {check : List (String × Node) → Bool} (h : checks files check = true) :
    ∃ trees q, programs files (Targets.page Cpp.target {} true) = .ok trees q ∧ check trees = true := by
  unfold checks at h
  cases hread : programs files (Targets.page Cpp.target {} true) with
  | ok trees q => exact ⟨trees, q, rfl, by rwa [hread] at h⟩
  | error f q => simp [hread] at h

/-- The modules are distinct, and a file only imports files of smaller rank. -/
def Ranked (k : Nat) (rank : String → Nat) (trees : List (String × Node)) : Prop :=
  (trees.map fun tree => moduleName tree.1).Nodup ∧ ∀ f ∈ trees, f.2.Shallow k ∧ ∀ g ∈ trees, ∀ s ∈ f.2.nodes k,
    moduleName g.1 ∈ imported (moduleName f.1) s.shape → rank (moduleName g.1) < rank (moduleName f.1)

instance (k : Nat) (rank : String → Nat) (trees : List (String × Node)) : Decidable (Ranked k rank trees) :=
  inferInstanceAs (Decidable (_ ∧ _))

theorem Ranked.acyclic {rank : String → Nat} (h : Ranked k rank trees) : Acyclic (Needs trees) := by
  refine acyclic_of_rank rank ?_
  rintro m d ⟨f, hf, g, hg, rfl, rfl, himports⟩
  obtain ⟨hshallow, hrank⟩ := h.2 f hf
  obtain ⟨s, hs, hd⟩ := (mentions_iff hshallow).1 himports
  exact hrank g hg s hs hd

/-- Among files that were read, whose modules are distinct and do not import each other in a circle, a file comes after
every one that it imports by its full name, if a relative import that reads like the full name of a file imports it. -/
theorem imported_in_full_first (files : List (String × String)) (p q : Page) (trees : List (String × Node))
    (hread : programs files p = .ok trees q) (hdistinct : (trees.map fun tree => moduleName tree.1).Nodup)
    (hacyclic : Acyclic (Needs trees))
    (hclear : ∀ f ∈ trees, ∀ g ∈ trees, Mentions namedRelative f g → Imports f g) :
    ∀ f ∈ trees, ∀ g ∈ trees, Mentions namedInFull f g → [g, f].Sublist (inOrder trees) := by
  intro f hf g hg h
  have hshallow := programs_shallow hread
  have hneeds (m d : String) (h : Requires (calls trees) m d) : Needs trees m d := by
    obtain ⟨f, hf, g, hg, rfl, rfl, ⟨s, hs, hd⟩ | hrelative⟩ := (requires_calls hshallow).1 h
    · exact ⟨f, hf, g, hg, rfl, rfl, s, hs, namedInFull_subset_imported _ _ hd⟩
    · exact ⟨f, hf, g, hg, rfl, rfl, hclear f hf g hg hrelative⟩
  have hcalls : Acyclic (Requires (calls trees)) := fun m hm => hacyclic m (TransGen.mono hneeds _ _ hm)
  have hrequires := (requires_calls hshallow).2 ⟨f, hf, g, hg, rfl, rfl, Or.inl h⟩
  have hproduces := yields_order (wellFormed_ofGraph (calls trees))
  refine inOrder_of_modules hdistinct hf hg ?_
  rw [sorterOf_eq]
  exact Sorter.Produces.precedes_of_acyclic hproduces hcalls hrequires

/-- In a package, the module that all import in full comes first. What is taken from the package goes unnoticed, but does
no harm to that. -/
theorem imported_in_full_first_package :
    let files := [("p/a.py", "import z\nfrom . import c\n"), ("p/c.py", "def f():\n    from z import y\n"), ("z.py", "")]
    ∃ trees q, programs files (Targets.page Cpp.target {} true) = .ok trees q ∧
      (trees.map fun tree => moduleName tree.1).Nodup ∧ Acyclic (Needs trees) ∧
      (∀ f ∈ trees, ∀ g ∈ trees, Mentions namedRelative f g → Imports f g) ∧
      ∃ f ∈ trees, ∃ g ∈ trees, moduleName f.1 = "p.c" ∧ moduleName g.1 = "z" ∧ [g, f].Sublist (inOrder trees) := by
  intro files
  have h : checks files (fun trees => decide (Ranked 5 ["z", "p.c", "p.a"].idxOf trees ∧
      (∀ f ∈ trees, ∀ g ∈ trees, ∀ s ∈ f.2.nodes 5, moduleName g.1 ∉ namedRelative s.shape) ∧
      ∃ f ∈ trees, ∃ g ∈ trees, moduleName f.1 = "p.c" ∧ moduleName g.1 = "z" ∧
        ∃ s ∈ f.2.nodes 5, moduleName g.1 ∈ namedInFull s.shape)) = true := by
    decide +kernel
  obtain ⟨trees, q, hread, hcheck⟩ := of_checks h
  obtain ⟨hranked, hclear, f, hf, g, hg, hfname, hgname, hnamed⟩ := of_decide_eq_true hcheck
  have hshallow (f : String × Node) (hf : f ∈ trees) : f.2.Shallow 5 := (hranked.2 f hf).1
  have hclear : ∀ f ∈ trees, ∀ g ∈ trees, Mentions namedRelative f g → Imports f g := by
    intro f hf g hg hrelative
    obtain ⟨s, hs, hd⟩ := (mentions_iff (hshallow f hf)).1 hrelative
    exact absurd hd (hclear f hf g hg s hs)
  refine ⟨trees, q, hread, hranked.1, hranked.acyclic, hclear, f, hf, g, hg, hfname, hgname, ?_⟩
  exact imported_in_full_first files _ q trees hread hranked.1 hranked.acyclic hclear f hf g hg
    ((mentions_iff (hshallow f hf)).2 hnamed)

/-- A relative import does not put the file that it imports first. -/
theorem relative_import_unordered :
    let files := [("p/a.py", "from .z import x\n"), ("p/z.py", "x = 1\n")]
    ∃ trees q, programs files (Targets.page Cpp.target {} true) = .ok trees q ∧
      (trees.map fun tree => moduleName tree.1).Nodup ∧ Acyclic (Needs trees) ∧
      ∃ f ∈ trees, ∃ g ∈ trees, Imports f g ∧ ¬ [g, f].Sublist (inOrder trees) := by
  intro files
  have h : checks files (fun trees => decide (Ranked 4 ["p.z", "p.a"].idxOf trees ∧
      calls trees = [("p.a", []), ("p.z", [])] ∧
      ∃ f ∈ trees, ∃ g ∈ trees, moduleName f.1 = "p.a" ∧ moduleName g.1 = "p.z" ∧
        ∃ s ∈ f.2.nodes 4, moduleName g.1 ∈ imported (moduleName f.1) s.shape)) = true := by
    decide +kernel
  obtain ⟨trees, q, hread, hcheck⟩ := of_checks h
  obtain ⟨hranked, hcalls, f, hf, g, hg, hfname, hgname, himported⟩ := of_decide_eq_true hcheck
  refine ⟨trees, q, hread, hranked.1, hranked.acyclic, f, hf, g, hg, (mentions_iff (hranked.2 f hf).1).2 himported, ?_⟩
  -- no dependency is known, so both are taken in one round, by their names
  have hround : (sorterOf trees).order = sorted ["p.a", "p.z"] ++ [] := by
    rw [sorterOf_eq, hcalls]
    rfl
  have horder : (sorterOf trees).order = ["p.a", "p.z"] := by
    rw [hround, sorted, List.mergeSort_of_pairwise (by decide), List.append_nil]
  intro hsub
  have hmodules := hsub.map fun tree => moduleName tree.1
  rw [inOrder_modules, horder, List.map_cons, List.map_singleton, hfname, hgname] at hmodules
  exact absurd hmodules (by decide)

end Run
end Polyglot
