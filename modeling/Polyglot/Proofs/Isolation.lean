import Polyglot.Proofs.Effects
import Polyglot.Targets

/-!
# What files leave behind

The files of a run are taken one after the other. What one of them writes on the page is lost on all that follow: a
target starts every program on a new page, of which the old one gives the switches only. So files reach each other
through the session alone.
-/
namespace Polyglot

open Session Effect Emit Dialect

variable {t : Target} {fixedWidth : Bool} {d : Dialect} {m : Node}

/-- A page on which nothing has been written: of what stood there only the session and the switches stay. -/
def Page.blank (p : Page) : Page :=
  { session := p.session, strict := p.strict, extension := p.extension, bare := p.bare, indentUnit := p.indentUnit,
    testCases := p.testCases, sharesAny := p.sharesAny }

/-- Two pages for one file that differ in the writing only. -/
structure Page.Alike (p q : Page) : Prop where
  blank : p.blank = q.blank
  file : p.file = q.file

namespace Page.Alike

variable {p q : Page} (h : p.Alike q)
include h

theorem session : p.session = q.session := congrArg (·.session) h.blank
theorem strict : p.strict = q.strict := congrArg (·.strict) h.blank
theorem extension : p.extension = q.extension := congrArg (·.extension) h.blank
theorem bare : p.bare = q.bare := congrArg (·.bare) h.blank
theorem indentUnit : p.indentUnit = q.indentUnit := congrArg (·.indentUnit) h.blank
theorem testCases : p.testCases = q.testCases := congrArg (·.testCases) h.blank
theorem sharesAny : p.sharesAny = q.sharesAny := congrArg (·.sharesAny) h.blank

theorem withSession (s : Session) : Alike { p with session := s } { q with session := s } :=
  ⟨congrArg (fun r : Page => { r with session := s }) h.blank, h.file⟩

end Page.Alike

namespace Emit

variable {α β : Type} {p q : Page} {x y : Emit α} {f g : α → Emit β}

/-- What comes of a step, apart from what it has written on the page. -/
def seen : EStateM.Result Fault Page α → Except Fault α × Page
  | .ok a p => (.ok a, p.blank)
  | .error f p => (.error f, p.blank)

/-- A step that comes to the same from two pages, and leaves pages that are related. -/
inductive Matches (R : Page → Page → Prop) (x : Emit α) (p q : Page) : Prop
  | ok {a : α} {p' q' : Page} (hp : x p = .ok a p') (hq : x q = .ok a q') (h : R p' q')
  | error {f : Fault} {p' q' : Page} (hp : x p = .error f p') (hq : x q = .error f q') (h : R p' q')

namespace Matches

variable {R S : Page → Page → Prop}

theorem mono (hRS : ∀ p q, R p q → S p q) (h : Matches R x p q) : Matches S x p q := by
  cases h with
  | ok hp hq h => exact .ok hp hq (hRS _ _ h)
  | error hp hq h => exact .error hp hq (hRS _ _ h)

theorem of_eq (hR : ∀ p, R p p) (h : x p = x q) : Matches R x p q := by
  cases hp : x p with
  | ok a r => exact .ok hp (h ▸ hp) (hR r)
  | error f r => exact .error hp (h ▸ hp) (hR r)

theorem bind (hx : Matches R x p q)
    (hf : ∀ a p' q', x p = .ok a p' → x q = .ok a q' → R p' q' → Matches R (f a) p' q') : Matches R (x >>= f) p q := by
  cases hx with
  | ok hp hq h =>
    cases hf _ _ _ hp hq h with
    | ok hp' hq' h' => exact .ok ((bind_ok hp).trans hp') ((bind_ok hq).trans hq') h'
    | error hp' hq' h' => exact .error ((bind_ok hp).trans hp') ((bind_ok hq).trans hq') h'
  | error hp hq h => exact .error (bind_error hp) (bind_error hq) h

theorem get_bind {f : Page → Emit β} (hf : f p = f q) (h : Matches R (f p) p q) : Matches R (get >>= f) p q := by
  cases h with
  | ok hp hq h => exact .ok hp (show f q q = _ from hf ▸ hq) h
  | error hp hq h => exact .error hp (show f q q = _ from hf ▸ hq) h

theorem pure (h : R p q) (a : α) : Matches R (pure a) p q := .ok rfl rfl h

theorem lift (hsession : p.session = q.session) (h : ∀ s, R { p with session := s } { q with session := s })
    (act : Analysis α) : Matches R (liftM act) p q := by
  cases hact : act p.session with
  | ok a s => exact .ok (lift_analysis_ok hact) (lift_analysis_ok (hsession ▸ hact)) (h s)
  | error f s => exact .error (lift_analysis_error hact) (lift_analysis_error (hsession ▸ hact)) (h s)

end Matches

theorem lift_matches (h : p.Alike q) (act : Analysis α) : Matches Page.Alike (liftM act) p q :=
  .lift h.session h.withSession act

end Emit

/-! ### A new page for every program -/

variable {p q : Page} {n : Node} {body : List Node}

theorem bind_congr_state {ε σ α β : Type} {x : EStateM ε σ α} {f : α → EStateM ε σ β} {s t : σ} (h : x s = x t) :
    (x >>= f) s = (x >>= f) t := by
  cases hx : x s with
  | ok a u => rw [bind_ok hx, bind_ok (h ▸ hx)]
  | error e u => rw [bind_error hx, bind_error (h ▸ hx)]

theorem catch_congr_state {ε σ α : Type} {x : EStateM ε σ α} {f : ε → EStateM ε σ α} {s t : σ} (h : x s = x t) :
    (tryCatch x f) s = (tryCatch x f) t := by
  cases hx : x s with
  | ok a u => rw [catch_ok hx, catch_ok (h ▸ hx)]
  | error e u => rw [catch_error hx, catch_error (h ▸ hx)]

theorem get_ok (p : Page) : (get : Emit Page) p = .ok p p := rfl

theorem facts_ok (id : NodeId) (p : Page) :
    (liftM (factsOf id) : Emit Facts) p = .ok (p.session.facts.getD id {}) p :=
  lift_analysis_ok rfl

theorem Dialect.reset_congr (hinstall : ∀ s, ∃ t, d.install s = .ok () t) (h : p.Alike q) : d.reset p = d.reset q := by
  obtain ⟨s, hs⟩ := hinstall p.session
  rw [reset, bind_ok (lift_analysis_ok hs), bind_ok (lift_analysis_ok (h.session ▸ hs))]
  change EStateM.Result.ok () _ = EStateM.Result.ok () _
  simp only [h.extension, h.strict, h.bare, h.file, h.sharesAny]

theorem Dialect.program_congr (hsession : p.session = q.session) (hreset : d.reset p = d.reset q) :
    d.program n body p = d.program n body q := by
  rw [program, bind_ok (facts_ok n.id p), bind_ok (facts_ok n.id q), hsession]
  exact bind_congr_state hreset

def Renews (step : Visit → Node → Emit (Option String)) : Prop :=
  ∀ (visit : Visit) (n : Node) (body : List Node) (p q : Page), n.shape = .module body → p.Alike q →
    step visit n p = step visit n q

theorem renews_of_common : ∀ step ∈ [D.step, Dart.step, Go.step, Julia.step, Kotlin.step, Mojo.step, Nim.step,
    Rust.step, Smt.step, Zig.step], Renews step := by
  simp only [List.forall_mem_cons, List.not_mem_nil, false_implies, implies_true, and_true]
  refine ⟨?_, ?_, ?_, ?_, ?_, ?_, ?_, ?_, ?_, ?_⟩
  all_goals
    intro visit n body p q hn h
    simp only [D.step, Dart.step, Go.step, Julia.step, Kotlin.step, Mojo.step, Nim.step, Rust.step, Smt.step, Zig.step,
      TypeFirst.step, Offside.colonStep, Offside.step, step, hn]
    exact program_congr h.session (reset_congr (fun _ => ⟨_, rfl⟩) h)

theorem Cpp.renews : Renews Cpp.step := by
  intro visit n body p q hn h
  simp only [Cpp.step, hn]
  rw [bind_ok (get_ok p), bind_ok (get_ok q), bind_ok (facts_ok n.id p), bind_ok (facts_ok n.id q), h.session,
    h.testCases]
  exact bind_congr_state (reset_congr (fun _ => ⟨_, rfl⟩) h)

theorem emitter_of_current (step : Visit → Visit) (n : Node) :
    ∃ visit, ∀ p : Page, p.session.nodes.getD n.id n = n →
      Target.emitter step n p = guarded n (step visit n) p := by
  obtain ⟨k, hk⟩ := exists_nestingLimit
  rw [Target.emitter, hk]
  refine ⟨_, fun p hcurrent => bind_ok (lift_analysis_ok ?_)⟩
  exact congrArg (EStateM.Result.ok · p.session) hcurrent

theorem emitter_congr {step : Visit → Visit} (hcurrent : p.session.nodes.getD n.id n = n)
    (hsession : p.session = q.session) (hstep : ∀ visit, step visit n p = step visit n q) :
    Target.emitter step n p = Target.emitter step n q := by
  obtain ⟨visit, hvisit⟩ := emitter_of_current step n
  rw [hvisit p hcurrent, hvisit q (hsession ▸ hcurrent)]
  exact catch_congr_state (hstep visit)

/-! ### The text of a file -/

/-- A target whose texts do not depend on what is written on the page before. -/
def Target.Isolates (t : Target) : Prop :=
  ∀ (n : Node) (body : List Node) (fixedWidth : Bool) (p q : Page), n.shape = .module body →
    p.session.nodes.getD n.id n = n → p.Alike q → Matches Page.Alike (Run.assemble t n fixedWidth) p q

theorem isolates_of_renews {step : Visit → Visit} (hemit : t.emit = Target.emitter step)
    (hstep : Renews step) : t.Isolates := by
  intro n body fixedWidth p q hn hcurrent h
  refine .of_eq (fun _ => ⟨rfl, rfl⟩) (bind_congr_state ?_)
  rw [hemit]
  exact emitter_congr hcurrent h.session fun visit => hstep visit n body p q hn h

/-- The text around a program, of a target that needs nothing besides some imports. -/
theorem assemble_matches (imports : Page → String) (hheaders : t.headers = fun _ => pure "") (hfeatures : t.features = pure "")
    (husings : t.usings = do return imports (← get)) (haliases : t.aliases = pure "")
    (hextension : t.extensionModule = fun _ => liftM (fail .wrongSort : Analysis String))
    (hemit : Matches Page.Alike (t.emit n) p q)
    (himports : ∀ text p' q', t.emit n p = .ok (some text) p' → t.emit n q = .ok (some text) q' → p'.Alike q' → imports p' = imports q') :
    Matches Page.Alike (Run.assemble t n fixedWidth) p q := by
  refine hemit.bind fun text p' q' hp hq h => ?_
  simp only [hheaders, hfeatures, husings, haliases, hextension, pure_bind, bind_assoc]
  cases text with
  | none => exact .error rfl rfl h
  | some code =>
    simp only [require, pure_bind]
    refine .get_bind (by rw [himports code p' q' hp hq h]) (.get_bind (by rw [h.extension]) ?_)
    split
    · exact .bind (lift_matches h _) fun _ _ _ _ _ h => .pure h _
    · exact .pure h _

theorem Python.isolates : Python.target.Isolates := by
  intro n body fixedWidth p q hn hcurrent h
  have hemit : Matches Page.Alike (Python.target.emit n) p q := by
    refine .bind (lift_matches h (refresh n)) fun a p q _ _ h => ?_
    split
    · exact .pure h _
    · exact .error rfl rfl h
  refine assemble_matches (fun p => if p.bare then "" else Text.lines Python.prologue) rfl rfl rfl rfl rfl hemit ?_
  intro text p' q' _ _ h
  simp only [h.bare]

namespace V

def imports (p : Page) : String :=
  let any := (p.mentionsAny || p.showsAny) && !p.sharesAny
  Text.lines (["@[translated]", "module main"] ++ (sorted p.usings).map ("import " ++ ·) ++ (if any then anyTypes else []) ++
    (if p.showsAny && !p.sharesAny then showAny else []))

theorem layout_ok (lines : List (Nat × String)) (width : Nat) :
    ∃ text, ∀ p : Page, p.indentUnit = width → Prepared.layout lines p = .ok text p := by
  obtain ⟨texts, htexts⟩ : ∃ texts, ∀ p : Page, p.indentUnit = width →
      (lines.mapM (fun line => indented line.2 line.1) : Emit (List String)) p = .ok texts p := by
    induction lines with
    | nil => exact ⟨[], fun _ _ => rfl⟩
    | cons line lines ih =>
      obtain ⟨texts, htexts⟩ := ih
      refine ⟨(Text.times " " (width * line.1) ++ line.2) :: texts, fun p hp => ?_⟩
      rw [mapM_cons_eq_ok]
      exact ⟨p, hp ▸ rfl, htexts p hp⟩
  exact ⟨Text.lines texts, fun p hp => (bind_ok (htexts p hp)).trans rfl⟩

/-- A step that comes from two pages to one text and, if there is a text, to the same imports. -/
def Settles (x : Emit (Option String)) (p q : Page) : Prop :=
  ∃ text p' q', x p = .ok text p' ∧ x q = .ok text q' ∧ p'.Alike q' ∧ (text.isSome → imports p' = imports q')

theorem settles_layout (h : p.Alike q) (himports : imports p = imports q) (lines : List (Nat × String)) :
    Settles (do return some (← Prepared.layout lines)) p q := by
  obtain ⟨text, htext⟩ := layout_ok lines p.indentUnit
  exact ⟨some text, p, q, bind_ok (htext p rfl), bind_ok (htext q h.indentUnit.symm), h, fun _ => himports⟩

theorem settles_modify {f : Page → Page} {x : Emit (Option String)} (h : Settles x (f p) (f q)) :
    Settles (modify f >>= fun _ => x) p q := h

/-- Where the definition of values of any type is found elsewhere, only the used modules matter. -/
theorem imports_of_shared (h : p.Alike q) (hshares : p.sharesAny = true) (husings : p.usings = q.usings) :
    imports p = imports q := by
  simp [imports, hshares, h.sharesAny ▸ hshares, husings]

/-- What is prepared for a module of the tool itself brings its own imports, and shares the definition of values of any
type unless it says what it needs of it. -/
theorem settles_text? (h : p.Alike q) (name parent : Option String)
    (hshares : p.sharesAny = Prepared.sharesAny name parent) : Settles (Prepared.text? name parent) p q := by
  have hnamed (name : String) (usings : List String) (hshared : p.sharesAny = true) (lines : List (Nat × String)) :
      Settles (do modify ({ · with moduleName := some name, usings }); return some (← Prepared.layout lines)) p q := by
    have halike : Page.Alike { p with moduleName := some name, usings } { q with moduleName := some name, usings } :=
      ⟨h.blank, h.file⟩
    exact settles_modify (settles_layout halike (imports_of_shared halike hshared rfl) _)
  unfold Prepared.text?
  split
  · exact ⟨none, p, q, rfl, rfl, h, nofun⟩
  · exact ⟨none, p, q, rfl, rfl, h, nofun⟩
  · exact hnamed _ _ (by simp [*, Prepared.sharesAny]) _
  · exact hnamed _ _ (by simp [*, Prepared.sharesAny]) _
  · next name _ _ _ =>
    let plain (r : Page) : Page :=
      { r with moduleName := some name, usings := [], mentionsAny := ["__init__", "astx", "result"].contains name,
               showsAny := false }
    have halike : Page.Alike (plain p) (plain q) := ⟨h.blank, h.file⟩
    have himports : imports (plain p) = imports (plain q) := by simp only [imports, plain, h.sharesAny]
    refine settles_modify (f := plain) ?_
    repeat' split
    all_goals first | exact settles_layout halike himports _ | exact ⟨_, _, _, rfl, rfl, halike, fun _ => himports⟩

def shared (p : Page) : Page :=
  { p with sharesAny := Prepared.sharesAny (p.file.map Path.stem) (p.file.map Path.parentName) }

/-- A program has a prepared text, or is printed as by other targets at first. -/
theorem exists_program_eq (visit : Visit) (n : Node) (body : List Node) : ∃ rest : Option String → Emit (Option String),
    (∀ r, program visit n body r =
      (Prepared.text? (r.file.map Path.stem) (r.file.map Path.parentName) >>= rest) (shared r)) ∧
    (∀ text, rest (some text) = pure (some text)) ∧
    ∀ p q, (dialect visit).program n body p = (dialect visit).program n body q → rest none p = rest none q :=
  ⟨_, fun _ => rfl, fun _ => rfl, fun _ _ h => bind_congr_state h⟩

theorem program_cases (visit : Visit) (h : p.Alike q) :
    Settles (program visit n body) p q ∨ program visit n body p = program visit n body q := by
  have halike : Page.Alike (shared p) (shared q) := by
    refine ⟨?_, h.file⟩
    simp only [Page.blank, shared, h.session, h.strict, h.extension, h.bare, h.indentUnit, h.testCases, h.file]
  obtain ⟨rest, hrest, hprepared, hwritten⟩ := exists_program_eq visit n body
  obtain ⟨text, p', q', hp, hq, halike', himports⟩ := settles_text? halike (p.file.map Path.stem)
    (p.file.map Path.parentName) rfl
  have hp' : program visit n body p = rest text p' := (hrest p).trans (bind_ok hp)
  have hq' : program visit n body q = rest text q' := by
    rw [hrest q, ← h.file]
    exact bind_ok hq
  cases text with
  | some text =>
    rw [hprepared] at hp' hq'
    exact .inl ⟨some text, p', q', hp', hq', halike', himports⟩
  | none =>
    refine .inr (hp'.trans ((hwritten p' q' ?_).trans hq'.symm))
    exact program_congr halike'.session (reset_congr (fun _ => ⟨_, rfl⟩) halike')

theorem isolates : target.Isolates := by
  intro n body fixedWidth p q hn hcurrent h
  obtain ⟨visit, hvisit⟩ := emitter_of_current step n
  have hstep : step visit n = program visit n body := by simp only [step, hn]
  have hp : target.emit n p = guarded n (program visit n body) p := hstep ▸ hvisit p hcurrent
  have hq : target.emit n q = guarded n (program visit n body) q := hstep ▸ hvisit q (h.session ▸ hcurrent)
  obtain ⟨text, p', q', hp', hq', halike, himports⟩ | heq := program_cases visit h
  · have hp' := hp.trans (catch_ok hp')
    have hq' := hq.trans (catch_ok hq')
    refine assemble_matches imports rfl rfl rfl rfl rfl (.ok hp' hq' halike) ?_
    intro text p'' q'' htext htext' _
    cases hp'.symm.trans htext
    cases hq'.symm.trans htext'
    exact himports rfl
  · refine .of_eq (fun _ => ⟨rfl, rfl⟩) (bind_congr_state ?_)
    rw [hp, hq]
    exact catch_congr_state heq

end V

theorem Target.isolates (ht : t ∈ Targets.all) : t.Isolates := by
  simp only [Targets.all, List.mem_cons, List.not_mem_nil, or_false] at ht
  rcases ht with rfl | rfl | rfl | rfl | rfl | rfl | rfl | rfl | rfl | rfl | rfl | rfl | rfl
  all_goals try (refine isolates_of_renews rfl (renews_of_common _ ?_); simp; done)
  · exact Python.isolates
  · exact isolates_of_renews rfl Cpp.renews
  · exact V.isolates

theorem current_of_refresh {s s' : Session} (h : refresh n s = .ok m s') : s'.nodes.getD m.id m = m := by
  obtain ⟨k, hk⟩ := exists_nestingLimit
  simp only [refresh, hk, refreshFrom, bind_eq_ok] at h
  obtain ⟨_, _, -, _, _, -, _, _, ⟨⟩, ⟨⟩⟩ := h
  exact Std.TreeMap.getD_insert_self

namespace Run

variable {t : Target} {o : Options} {suppress : Bool} {others : List (String × Node)}

def preparesProgram (t : Target) (o : Options) (others : List (String × Node)) (n : Node) (s : Session) : Bool :=
  match prepare t o others n s with
  | .ok (m, _) _ => (m.shape matches .module _)
  | .error _ _ => true

theorem current_of_prepare {s s' : Session} (h : prepare t o others n s = .ok (m, fixedWidth) s') :
    s'.nodes.getD m.id m = m := by
  simp only [prepare, bind_eq_ok] at h
  obtain ⟨_, _, -, _, _, -, _, _, -, _, _, -, _, _, -, _, _, -, _, _, hrefresh, ⟨⟩⟩ := h
  exact current_of_refresh hrefresh

/-- Of the files of a run, as they are taken one after the other from a page on, each stays a program when it is
prepared. -/
def Regular (t : Target) (o : Options) (suppress : Bool) (others : List (String × Node)) :
    List (String × Node) → Page → Prop
  | [], _ => True
  | tree :: trees, p => preparesProgram t o others tree.2 p.session = true ∧
      Regular t o suppress others trees (after (attempt t o suppress others tree p))

section

variable {R : Page → Page → Prop}

/-- A program is prepared in the session alone, so it comes to the same if it is printed alike. -/
theorem one_matches {file : String} (hsession : p.session = q.session)
    (h : ∀ s, R { p with session := s, file := some file } { q with session := s, file := some file })
    (hprogram : preparesProgram t o others n p.session = true)
    (hassemble : ∀ m body fixedWidth p q, m.shape = .module body → p.session.nodes.getD m.id m = m → p.file = some file →
      R p q → Matches R (assemble t m fixedWidth) p q) : Matches R (one t o others file n) p q := by
  have hrun : Matches R (liftM (prepare t o others n) >>= fun x => assemble t x.1 x.2) { p with file := some file }
      { q with file := some file } := by
    refine .bind (.lift (by exact hsession) h _) fun (m, fixedWidth) p' q' hp _ h => ?_
    obtain ⟨s, hprepare, rfl⟩ := lift_analysis_eq_ok.1 hp
    obtain ⟨body, hm⟩ : ∃ body, m.shape = .module body := by
      rw [preparesProgram, show prepare t o others n p.session = .ok (m, fixedWidth) s from hprepare] at hprogram
      cases hm : m.shape <;> simp_all
    exact hassemble m body fixedWidth _ q' hm (current_of_prepare hprepare) rfl h
  cases hrun with
  | ok hp hq h => exact .ok hp hq h
  | error hp hq h => exact .error hp hq h

theorem attempt_matches {tree : String × Node} (h : Matches R (one t o others tree.1 tree.2) p q) :
    Matches R (attempt t o suppress others tree) p q := by
  cases h with
  | ok hp hq h => exact .ok (catch_ok (bind_ok hp)) (catch_ok (bind_ok hq)) h
  | error hp hq h =>
    cases suppress with
    | true => exact .ok (catch_error (bind_error hp)) (catch_error (bind_error hq)) h
    | false => exact .error (catch_error (bind_error hp)) (catch_error (bind_error hq)) h

theorem attempts_matches {trees : List (String × Node)} (hone : ∀ tree ∈ trees, ∀ p q, R p q →
      preparesProgram t o others tree.2 p.session = true → Matches R (one t o others tree.1 tree.2) p q)
    (h : R p q) (hregular : Regular t o suppress others trees p) :
    Matches R (trees.mapM (attempt t o suppress others)) p q := by
  induction trees generalizing p q with
  | nil => exact .pure h []
  | cons tree trees ih =>
    obtain ⟨hprogram, hregular⟩ := hregular
    obtain ⟨htree, htrees⟩ := List.forall_mem_cons.1 hone
    rw [List.mapM_cons]
    refine (attempt_matches (htree p q h hprogram)).bind fun r p' q' hp _ h => ?_
    rw [hp] at hregular
    exact (ih htrees h hregular).bind fun rs _ _ _ _ h => .pure h (r :: rs)

end

def littered : Page :=
  { Targets.page Cpp.target {} true with
    headers := ["#include <vector>"], imported := [("f", .unknown)], onlyDemands := true,
    commandOptions := [("parser", [])], file := some "a.py" }

def lastText (t : Target) (o : Options) (files : List (String × String)) : Option String :=
  match (do
    let trees ← programs files
    trees.mapM (attempt t o true (neighbours trees)) : Emit (List (String × Except Fault String)))
      (Targets.page t o true) with
  | .ok rs _ => rs.getLast?.bind fun r => r.2.toOption
  | .error _ _ => none

end Run

end Polyglot
