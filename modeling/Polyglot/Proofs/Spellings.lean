import Polyglot.Proofs.Isolation
import Polyglot.Proofs.SmtDemands

/-!
# The spelling of parameters

Rust and SMT list the parameters of a function as the program names them, but write a name that is used by a rule of
their own: Rust marks its keywords, SMT exchanges underscores for hyphens. The two spellings of one parameter agree
exactly for the names which that rule leaves alone.
-/
namespace Polyglot
open Effect Emit Session List

variable {x y : String} {u : Usage} (a : Node)

/-! ### What a computation can return, from any state -/

/-- Whatever a computation returns is of some kind. -/
abbrev Emit.Gives {α : Type} (P : α → Prop) (x : Emit α) : Prop := Ensures (fun _ => True) P x

namespace Emit.Gives

variable {α β : Type} {P : α → Prop} {Q : β → Prop} {x : Emit α} {f : α → Emit β} {n : Node}

theorem any : Gives (fun _ => True) x := fun _ _ _ _ _ => ⟨trivial, trivial⟩

theorem later (hf : ∀ a, Gives Q (f a)) : Gives Q (x >>= f) := any.bind fun a _ => hf a

theorem guarded (hx : Gives P x) : Gives P (Emit.guarded n x) := by
  refine hx.tryCatch fun e p a p' h => ?_
  split at h
  · cases h
  · obtain ⟨s, h, -⟩ := lift_analysis_eq_ok.1 h
    exact throwAt_ne_ok h

theorem of_emitter {step : Visit → Visit} {p p' : Page} {r : Option String}
    {R : Option String → Prop} (hstep : ∀ visit, Gives R (step visit n)) (hcurrent : p.session.nodes.getD n.id n = n)
    (h : Target.emitter step n p = .ok r p') : R r := by
  obtain ⟨visit, hvisit⟩ := emitter_of_current step n
  rw [hvisit p hcurrent] at h
  exact ((hstep visit).guarded p r p' trivial h).2

end Emit.Gives

open Gives

/-! ### Parameters -/

/-- The names of the parameters that a function takes both by place and by name. -/
def Function.parameterNames (f : Function Node) : List String := (Scope.argsOf f).filterMap Node.ident?

theorem Dialect.parameters_named {d : Dialect} (f : Function Node) (hmore : ∀ ps, d.moreParams ps = pure [])
    (hparam : ∀ a, Gives (fun r => a.ident? = some r.2) (d.param a)) :
    Gives (fun r => r.2 = f.parameterNames ∧ r.1.length = r.2.length) (d.parameters f.args) := by
  refine guarded ?_
  split
  · rename_i ps hps
    intro p r p' _ h
    obtain ⟨rs, q, hrs, h⟩ := bind_eq_ok.1 h
    rw [hmore] at h
    cases h
    have hnamed : rs.map (some ·.2) = ps.args.map Node.ident? :=
      map_of_mapM (fun a r s t hr => ((hparam a).guarded s r t trivial hr).2.symm) hrs
    have hnames : f.parameterNames = (rs.map (some ·.2)).filterMap id := by
      rw [hnamed, filterMap_map, Function.parameterNames, Scope.argsOf, hps]
      rfl
    refine ⟨trivial, ?_, by simp⟩
    rw [hnames, append_nil, filterMap_map]
    exact filterMap_eq_map.symm ▸ rfl
  · intro p r p' _ h
    cases h

namespace Smt

variable {visit : Visit} {n : Node} {f : Function Node}

def listed (names sorts : List String) : String :=
  " ".intercalate ((names.zip sorts).map fun (name, sort) => "(" ++ name ++ " " ++ sort ++ ")")

/-- How the text of a function starts: one without a body is declared under its name as it stands. -/
def Heads (f : Function Node) (text : String) : Prop :=
  if isOmitted f.body then ∃ sort, text = "(declare-fun " ++ f.name ++ "() " ++ sort ++ ")"
  else ∃ mark ∈ ["", "-pre"], ∃ sorts rest, sorts.length = f.parameterNames.length ∧
    text = "(define-fun " ++ spelled f.name ++ mark ++ "(" ++ listed f.parameterNames sorts ++ ") " ++ rest

theorem param_named : Gives (fun r => a.ident? = some r.2) (param a) := by
  obtain ⟨_, _, _, shape⟩ := a
  unfold param
  split
  · rename_i h
    cases h
    exact .pure rfl
  · rename_i h
    cases h
    exact later fun _ => .pure rfl
  · intro p r p' _ h
    cases h

theorem definition_headed {args result : String} (sorts : List String) (hbody : isOmitted f.body = false)
    (hargs : args = listed f.parameterNames sorts) (hsorts : sorts.length = f.parameterNames.length) :
    Gives (fun r => ∃ text ∈ r, Heads f text) (definition visit n f args result) := by
  have hheads (mark rest : String) {text : String} (hmark : mark ∈ ["", "-pre"])
      (htext : text = "(define-fun " ++ spelled f.name ++ mark ++ "(" ++ args ++ ") " ++ rest) :
      ∃ t ∈ some text, Heads f t :=
    ⟨text, rfl, by rw [Heads, hbody]; exact ⟨mark, hmark, sorts, rest, hsorts, hargs ▸ htext⟩⟩
  refine later fun body => later fun facts => of_ite ?_ ?_
  · refine later fun _ => later fun demands => later fun _ => .pure ?_
    refine hheads "-pre" ("Bool\n" ++ demands ++ ")\n\n" ++ ("(define-fun " ++ spelled f.name ++ "(" ++ args ++ ") " ++
      result ++ "\n" ++ body ++ ")\n")) (by simp) ?_
    have hopen : "-pre(" = "-pre" ++ "(" := rfl
    have hsort : ") Bool\n" = ") " ++ "Bool\n" := rfl
    simp only [hopen, hsort, String.append_assoc, spelled]
  · refine .pure (hheads "" (result ++ "\n" ++ body ++ ")\n") (by simp) ?_)
    simp only [String.append_assoc, spelled, String.empty_append]

theorem functionDef_headed : Gives (fun r => ∃ text ∈ r, Heads f text) (functionDef visit n f) := by
  refine (Dialect.parameters_named f (fun _ => rfl) param_named).bind fun ⟨ts, names⟩ ⟨hnames, hlength⟩ => ?_
  refine later fun result => ?_
  cases hbody : isOmitted f.body with
  | true => exact .pure ⟨_, rfl, by rw [Heads, hbody]; exact ⟨result, rfl⟩⟩
  | false =>
    refine definition_headed (ts.map TypeTerm.shown) hbody ?_ ?_
    · rw [listed, ← hnames, zip_map_right, List.map_map]
      rfl
    · rw [← hnames, length_map, hlength]

theorem name_used (hn : n.shape = .name x u) :
    Gives (fun r => ∃ mark ∈ [""], r = some (mark ++ spelled x)) (step visit n) := by
  simp only [step, hn]
  exact .pure ⟨"", by simp, by simp [spelled]⟩

theorem spelled_eq_iff (hx : '-' ∉ x.toList) : spelled x = x ↔ '_' ∉ x.toList := by
  refine ⟨fun h hmem => hx ?_, spelled_eq⟩
  rw [← h]
  exact hyphen_mem_spelled hmem

/-- Without hyphens of its own a name can be told from its spelling. -/
theorem toList_of_spelled (hx : '-' ∉ x.toList) : ((spelled x).toList.map fun c => if c = '-' then '_' else c) = x.toList := by
  rw [spelled_toList, List.map_map]
  refine (map_congr_left fun c hc => ?_).trans (map_id _)
  have hne : c ≠ '-' := fun h => hx (h ▸ hc)
  by_cases hunder : c = '_' <;> simp [hunder, hne]

theorem spelled_injective (hx : '-' ∉ x.toList) (hy : '-' ∉ y.toList) (h : spelled x = spelled y) : x = y := by
  rw [← String.toList_inj, ← toList_of_spelled hx, ← toList_of_spelled hy, h]

end Smt

/-! ### Rust -/

namespace Rust

variable {visit : Visit} {n : Node} {f : Function Node}

/-- The parameters that are listed with a type: a method's own object is not. -/
def typed (names : List String) : List String := if names.head? == some "self" then names.drop 1 else names

def listed (names types : List String) : String :=
  Text.commas ((if names.head? == some "self" then ["&self"] else []) ++
    (types.zip (typed names)).map fun (t, name) => name ++ ": " ++ t)

def Heads (f : Function Node) (text : String) : Prop :=
  ∃ mark ∈ ["", "#[pyfunction]\n"], ∃ async ∈ ["", "async "], ∃ generics types rest,
    types.length = (typed f.parameterNames).length ∧
    text = mark ++ "pub " ++ async ++ "fn " ++ f.name ++ generics ++ "(" ++ listed f.parameterNames types ++ ") " ++ rest

theorem param_named : Gives (fun r => a.ident? = some r.2) (param a) := by
  obtain ⟨_, _, _, shape⟩ := a
  unfold param
  split
  · rename_i h
    cases h
    exact .pure rfl
  · rename_i h
    cases h
    exact .pure rfl
  · rename_i h
    cases h
    refine later fun page => of_ite (later fun _ => later fun _ => ?_) (later fun t => ?_)
    · exact later fun _ => later fun _ => later fun _ => of_ite (.pure rfl) (.pure rfl)
    · split
      · exact later fun _ => later fun _ => later fun _ => later fun _ => later fun _ => of_ite (.pure rfl) (.pure rfl)
      · exact later fun _ => later fun _ => later fun _ => later fun _ => of_ite (.pure rfl) (.pure rfl)
  · intro p r p' _ h
    cases h

theorem numberTypes_length (unknown : TypeTerm → Bool) (stem : String) (i : Nat) (ts : List TypeTerm) :
    (numberTypes unknown stem i ts).1.length = ts.length := by
  induction ts generalizing i with
  | nil => rfl
  | cons t ts ih =>
    rw [numberTypes]
    split <;> simp [ih]

theorem functionDef_headed {async : String} (hasync : async ∈ ["", "async "]) :
    Gives (fun r => ∃ text ∈ r, Heads f text) (functionDef visit n f async) := by
  refine later fun body => (Dialect.parameters_named f (fun _ => rfl) param_named).bind fun (ts, names) h => ?_
  obtain ⟨rfl, hlength⟩ : names = f.parameterNames ∧ ts.length = names.length := h
  refine later fun facts => ?_
  dsimp only
  generalize hps : (if (f.parameterNames.head? == some "self") = true then (ts.zip f.parameterNames).drop 1
    else ts.zip f.parameterNames) = ps
  have hnames : ps.map (·.2) = typed f.parameterNames := by
    rw [← hps, typed]
    split
    · rw [map_drop, map_snd_zip hlength.ge]
    · exact map_snd_zip hlength.ge
  -- However the type of the result is found, the text is put together in the same way.
  have hend (extended : Bool) (generics result brace between success close : String) :
      ∃ text ∈ some ((if extended = true then "#[pyfunction]\n" else "") ++ "pub " ++ async ++ "fn " ++ f.name ++ generics ++
        "(" ++ Text.commas ((if (f.parameterNames.head? == some "self") = true then ["&self"] else []) ++
          ((paramTypes (ps.map (·.1))).1.zip ps).map fun x => x.2.2 ++ ": " ++ x.1) ++ ") " ++
        result ++ brace ++ body ++ between ++ success ++ close), Heads f text := by
    refine ⟨_, rfl, if extended = true then "#[pyfunction]\n" else "", ?_, async, hasync, generics,
      (paramTypes (ps.map (·.1))).1, result ++ brace ++ body ++ between ++ success ++ close, ?_, ?_⟩
    · split <;> simp
    · rw [paramTypes, numberTypes_length, ← hnames, length_map, length_map]
    · rw [listed, ← hnames, zip_map_right, List.map_map]
      simp only [String.append_assoc]
      rfl
  refine of_ite (later fun _ => ?_) ?_
  all_goals
    split
    · refine later fun _ => later fun _ => of_ite ?_ (later fun _ => later fun _ => later fun _ => .pure (hend ..))
      split <;> exact later fun _ => later fun _ => later fun _ => later fun _ => .pure (hend ..)
    · exact later fun _ => of_ite (later fun _ => later fun _ => .pure (hend ..)) (later fun _ => later fun _ => .pure (hend ..))

theorem name_used (hn : n.shape = .name x u) (hx : x ∉ ["True", "False", "None"]) :
    Gives (fun r => ∃ mark ∈ ["", "*"], r = some (mark ++ safeName x)) (step visit n) := by
  obtain ⟨htrue, hfalse, hnone⟩ : x ≠ "True" ∧ x ≠ "False" ∧ x ≠ "None" := by simpa using hx
  have htext : (if keywords.contains x then some (x ++ "_") else Dialect.plainName x) = some (safeName x) := by
    rw [safeName, Dialect.plainName]
    split <;> simp [htrue, hfalse]
  have hplain : ∃ mark ∈ ["", "*"], some (safeName x) = some (mark ++ safeName x) := ⟨"", by simp, by simp⟩
  have hstarred : ∃ mark ∈ ["", "*"], some ("*" ++ safeName x) = some (mark ++ safeName x) := ⟨"*", by simp, rfl⟩
  simp only [step, hn, htext]
  refine later fun chain => later fun found => ?_
  split
  · exact later fun facts => of_ite (.pure hstarred) (.pure hplain)
  · exact .pure hplain

theorem append_underscore_inj : x ++ "_" = y ++ "_" ↔ x = y := by
  simp [← String.toList_inj]

theorem append_underscore_notMem (hx : x ∈ keywords) : x ++ "_" ∉ keywords := by
  have hall : ∀ k ∈ keywords, k ++ "_" ∉ keywords := by decide
  exact hall x hx

theorem safeName_of_mem (hx : x ∈ keywords) : safeName x = x ++ "_" :=
  if_pos (contains_iff_mem.2 hx)

theorem safeName_of_notMem (hx : x ∉ keywords) : safeName x = x :=
  if_neg fun h => hx (contains_iff_mem.1 h)

theorem safeName_eq_iff : safeName x = x ↔ x ∉ keywords := by
  refine ⟨fun h hx => ?_, safeName_of_notMem⟩
  rw [safeName_of_mem hx] at h
  exact append_underscore_notMem hx (by rwa [h])

/-- Two names have one spelling only if the one is the other, marked. -/
theorem safeName_eq_safeName_iff (hne : x ≠ y) :
    safeName x = safeName y ↔ (x ∈ keywords ∧ y = x ++ "_") ∨ (y ∈ keywords ∧ x = y ++ "_") := by
  by_cases hx : x ∈ keywords <;> by_cases hy : y ∈ keywords
  · rw [safeName_of_mem hx, safeName_of_mem hy, append_underscore_inj, eq_false hne, false_iff]
    rintro (⟨-, rfl⟩ | ⟨-, rfl⟩)
    · exact append_underscore_notMem hx hy
    · exact append_underscore_notMem hy hx
  · simp [safeName_of_mem hx, safeName_of_notMem hy, hx, hy, eq_comm]
  · simp [safeName_of_notMem hx, safeName_of_mem hy, hx, hy]
  · simp [safeName_of_notMem hx, safeName_of_notMem hy, hx, hy, hne]

end Rust

/-! ### Both -/

def IsName (x : String) : Prop := '-' ∉ x.toList ∧ x ∉ ["True", "False", "None"]

/-- How a target spells parameters: in the heading of their function as `heads` says, and `used`, after one of `marks`,
where they are used. The two agree but for the names that are `changed`, and names are `merged` if they are used alike. -/
structure NameRule where
  emit : Visit
  heads : Function Node → String → Prop
  used : String → String
  marks : List String
  changed : String → Prop
  merged : String → String → Prop

def nameRules : List NameRule :=
  [{ emit := Smt.emit, heads := Smt.Heads, used := Smt.spelled, marks := [""], changed := fun x => '_' ∈ x.toList,
     merged := fun _ _ => False },
   { emit := Rust.emit, heads := Rust.Heads, used := Rust.safeName, marks := ["", "*"], changed := (· ∈ Rust.keywords),
     merged := fun x y => (x ∈ Rust.keywords ∧ y = x ++ "_") ∨ (y ∈ Rust.keywords ∧ x = y ++ "_") }]

/-- Whatever function or name is emitted, headings list parameters as they stand and a used name goes by its rule. The two
spellings are one exactly if the name is not changed, and two names have one spelling exactly if they are merged. -/
theorem spelled_alike_iff_unchanged {rule : NameRule} (hrule : rule ∈ nameRules) {x y : String} (hx : IsName x)
    (hy : IsName y) (hne : x ≠ y) {n : Node} {p p' : Page} {r : Option String}
    (hcurrent : p.session.nodes.getD n.id n = n) (hemit : rule.emit n p = .ok r p') :
    (∀ f, n.shape = .functionDef f → ∃ text ∈ r, rule.heads f text) ∧
      (∀ u, n.shape = .name x u → ∃ mark ∈ rule.marks, r = some (mark ++ rule.used x)) ∧
      (rule.used x = x ↔ ¬rule.changed x) ∧ (rule.used x = rule.used y ↔ rule.merged x y) := by
  simp only [nameRules, List.mem_cons, List.not_mem_nil, or_false] at hrule
  obtain rfl | rfl := hrule
  · refine ⟨fun f hn => ?_, fun u hn => ?_, Smt.spelled_eq_iff hx.1, ?_⟩
    · exact of_emitter (fun visit => by simp only [Smt.step, hn]; exact Smt.functionDef_headed) hcurrent hemit
    · exact of_emitter (fun visit => Smt.name_used hn) hcurrent hemit
    · exact iff_false_intro fun h => hne (Smt.spelled_injective hx.1 hy.1 h)
  · refine ⟨fun f hn => ?_, fun u hn => ?_, Rust.safeName_eq_iff, Rust.safeName_eq_safeName_iff hne⟩
    · exact of_emitter (fun visit => by simp only [Rust.step, hn]; exact Rust.functionDef_headed (by simp)) hcurrent hemit
    · exact of_emitter (fun visit => Rust.name_used hn hx.2) hcurrent hemit

theorem underscore_respelled :
    let n : Node := ⟨0, none, none, .name "a_b" .load⟩
    (∃ p, Smt.emit n {} = .ok (some "a-b") p) ∧ Smt.spelled "a_b" ≠ "a_b" ∧ Smt.spelled "a_b" ≠ Smt.spelled "a" := by
  intro n
  obtain ⟨r, hemit⟩ : ∃ r, Smt.emit n {} = .ok r (after (Smt.emit n {})) := ok_after_of_returned (by decide +kernel)
  obtain ⟨-, huse, hagree, hmerge⟩ := spelled_alike_iff_unchanged (.head _) (x := "a_b") (y := "a") (by unfold IsName; decide)
    (by unfold IsName; decide) (by decide) rfl hemit
  obtain ⟨mark, hmark, hr⟩ := huse _ rfl
  obtain rfl := List.mem_singleton.1 hmark
  obtain rfl : r = some "a-b" := hr.trans (by decide +kernel : some ("" ++ Smt.spelled "a_b") = some "a-b")
  exact ⟨⟨_, hemit⟩, fun h => hagree.1 h (by decide), hmerge.1⟩

/-- Neither header names the parameter that the body uses, two parameters become one, and no function is declared under
the name that is called. -/
theorem parameters_respelled :
    Run.lastText Smt.target {} [("a.py", "def f(a_b): a_b\n")] = some "(define-fun f((a_b T)) \n  a-b)\n\n" ∧
      Run.lastText Smt.target {} [("a.py", "def is_a(): ...\nis_a()\n")] = some "(declare-fun is_a() )\n(is-a)\n" ∧
      (Run.lastText Rust.target { bare := true } [("a.py", "def f(fn, fn_): fn - fn_\n")]).any
        (Text.endsWith · "pub fn f<T0, T1>(fn: T0, fn_: T1)  \x7b\n(fn_ - fn_);\n \x7d\n\n") := by
  decide +kernel

end Polyglot
