import Polyglot.Proofs.Isolation

/-!
# The width of an indentation

A width that is asked for is lost: a program is printed on a new page, which takes over the switches of the old one but
not its width. So, whatever width is asked for, all programs are printed with the width two.
-/
namespace Polyglot

open Session Effect Emit

def Page.Resized (p q : Page) : Prop := ∃ k, q = { p with indentUnit := k }

namespace Page.Resized

variable {p q : Page} (h : p.Resized q)

include h

theorem session : p.session = q.session := by
  obtain ⟨k, rfl⟩ := h
  rfl

theorem file : p.file = q.file := by
  obtain ⟨k, rfl⟩ := h
  rfl

end Page.Resized

namespace Emit

variable {α : Type} {x : Emit α} {p q : Page}

/-- A step comes to the same from two pages, apart from the width on the page that it leaves. -/
def Widthless (x : Emit α) (p q : Page) : Prop :=
  (∃ a p' q', x p = .ok a p' ∧ x q = .ok a q' ∧ p'.Resized q') ∨ ∃ e p' q', x p = .error e p' ∧ x q = .error e q' ∧ p'.Resized q'

theorem Matches.widthless (h : Matches Page.Resized x p q) : Widthless x p q := by
  cases h with
  | ok hp hq h => exact .inl ⟨_, _, _, hp, hq, h⟩
  | error hp hq h => exact .inr ⟨_, _, _, hp, hq, h⟩

end Emit

/-! ### A program is printed with the width two -/

variable {p q : Page} {n : Node} {body : List Node} {file : String} {d : Dialect}

/-- The page on which a program starts to be printed, after another page: the switches stay, the width is two. -/
structure Page.Turned (p q : Page) : Prop where
  extension_eq : q.extension = p.extension
  bare_eq : q.bare = p.bare
  strict_eq : q.strict = p.strict
  indentUnit_eq : q.indentUnit = 2

theorem Dialect.reset_turned (hinstall : ∀ s, ∃ t, d.install s = .ok () t) (hstart : d.start.indentUnit = 2) (p : Page) :
    ∃ q, p.Turned q ∧ ∀ r, p.Resized r → d.reset r = .ok () q := by
  obtain ⟨s, hs⟩ := hinstall p.session
  let q : Page := { d.start with
    session := s, extension := p.extension, strict := p.strict, bare := p.bare, file := p.file, sharesAny := p.sharesAny }
  refine ⟨q, ⟨rfl, rfl, rfl, hstart⟩, ?_⟩
  rintro r ⟨k, rfl⟩
  have hlift : (liftM d.install : Emit Unit) { p with indentUnit := k } = .ok () { p with session := s, indentUnit := k } :=
    lift_analysis_ok hs
  exact bind_ok hlift

theorem Dialect.program_of_resized (hinstall : ∀ s, ∃ t, d.install s = .ok () t) (hstart : d.start.indentUnit = 2)
    (h : p.Resized q) : d.program n body p = d.program n body q := by
  obtain ⟨r, -, hr⟩ := reset_turned hinstall hstart p
  exact program_congr h.session ((hr p ⟨_, rfl⟩).trans (hr q h).symm)

/-- Whether a file is written from its source, not from a prepared text. -/
def V.Written (file : String) : Prop := Prepared.isOwn (some (Path.stem file)) (some (Path.parentName file)) = false

theorem V.program_of_resized (visit : Visit) (hfile : p.file = some file) (hwritten : Written file) (h : p.Resized q) :
    program visit n body p = program visit n body q := by
  obtain ⟨rest, hrest, -, hwrites⟩ := exists_program_eq visit n body
  have hprogram (r : Page) (hr : r.file = some file) : program visit n body r = rest none (shared r) := by
    rw [hrest r, hr]
    simp only [Option.map_some, Prepared.text?, show Prepared.isOwn _ _ = false from hwritten]
    rfl
  rw [hprogram p hfile, hprogram q (h.file ▸ hfile)]
  obtain ⟨k, rfl⟩ := h
  exact hwrites _ _ (Dialect.program_of_resized (fun _ => ⟨_, rfl⟩) rfl ⟨k, rfl⟩)

/-! ### Runs -/

namespace Run

variable {t : Target}

/-- The targets for which a width can be asked, with the files that they write from their source. -/
inductive Measured : Target → String → Prop
  | nim (file : String) : Measured Nim.target file
  | v {file : String} (h : V.Written file) : Measured V.target file

theorem emit_of_resized (ht : Measured t file) (hn : n.shape = .module body) (hcurrent : p.session.nodes.getD n.id n = n)
    (hfile : p.file = some file) (h : p.Resized q) : t.emit n p = t.emit n q := by
  cases ht with
  | nim file =>
    refine emitter_congr hcurrent h.session fun visit => ?_
    simp only [Nim.step, Offside.colonStep, Offside.step, Dialect.step, hn]
    exact Dialect.program_of_resized (fun _ => ⟨_, rfl⟩) rfl h
  | v hwritten =>
    refine emitter_congr hcurrent h.session fun visit => ?_
    simp only [V.step, hn]
    exact V.program_of_resized visit hfile hwritten h

/-- Whatever width is asked for in Nim or V, files that are taken one after the other come to the same texts and faults as
with the width two, but for the files whose text is prepared: a program starts on a page of width two, on which the
switches are those of the page before. -/
theorem attempts_printed_with_two (t : Target) (o : Options) (suppress : Bool) (others trees : List (String × Node)) (p : Page)
    (k : Nat) (ht : ∀ tree ∈ trees, Measured t tree.1)
    (hregular : Regular t o suppress others trees { p with indentUnit := 2 }) :
    Widthless (trees.mapM (attempt t o suppress others)) { p with indentUnit := 2 } { p with indentUnit := k } ∧
      ∀ visit, ∀ d ∈ [Nim.dialect visit, V.dialect visit], ∃ q, p.Turned q ∧ d.reset { p with indentUnit := k } = .ok () q := by
  refine ⟨?_, fun visit => ?_⟩
  · refine (attempts_matches (fun tree htree p q h hprogram => ?_) ⟨k, rfl⟩ hregular).widthless
    refine one_matches h.session (fun s => ?_) hprogram fun m body fixedWidth p q hm hcurrent hfile h => ?_
    · obtain ⟨k, rfl⟩ := h
      exact ⟨k, rfl⟩
    · exact .of_eq (fun _ => ⟨_, rfl⟩) (bind_congr_state (emit_of_resized (ht tree htree) hm hcurrent hfile h))
  · have hturned (d : Dialect) (hinstall : ∀ s, ∃ t, d.install s = .ok () t) (hstart : d.start.indentUnit = 2) :
        ∃ q, p.Turned q ∧ d.reset { p with indentUnit := k } = .ok () q := by
      obtain ⟨q, hturned, hreset⟩ := Dialect.reset_turned hinstall hstart p
      exact ⟨q, hturned, hreset _ ⟨k, rfl⟩⟩
    simpa using ⟨hturned _ (fun _ => ⟨_, rfl⟩) rfl, hturned _ (fun _ => ⟨_, rfl⟩) rfl⟩

def returning : Node :=
  ⟨1, none, none, .module [⟨2, some 1, some 0, .functionDef
    { name := "f", args := ⟨3, none, none, .parameters ⟨[], [], none, [], [], none, []⟩⟩
      body := [⟨4, some 2, some 4, .ret (some ⟨5, some 2, some 11, .constant (.int 1) false⟩)⟩]
      decorators := [], returns := none }⟩]⟩

def returningPage (k : Nat) : Page :=
  { session := after (recordAll 5 returning { Targets.session Nim.target with next := 6 }), indentUnit := k }

theorem returning_printed_with_two :
    Regular Nim.target {} true [] [("a.py", returning)] (returningPage 2) ∧
      Widthless ([("a.py", returning)].mapM (attempt Nim.target {} true [])) (returningPage 2) (returningPage 4) := by
  have hregular : Regular Nim.target {} true [] [("a.py", returning)] (returningPage 2) := ⟨by decide +kernel, trivial⟩
  have hprinted := attempts_printed_with_two Nim.target {} true [] _ (returningPage 2) 4 (by simpa using .nim _) hregular
  exact ⟨hregular, hprinted.1⟩

/-- Four was asked for, and two is printed, from the first program on. -/
theorem asked_width_lost :
    let f := "def f(): pass\n"
    lastText Nim.target { indent := some 4 } [("a.py", f)] = some "proc f() =\n  discard\n\n" ∧
      lastText Nim.target { indent := some 4 } [("a.py", ""), ("b.py", f)] = some "proc f() =\n  discard\n\n" := by
  decide +kernel

end Run

end Polyglot
