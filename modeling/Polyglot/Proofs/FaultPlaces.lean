import Polyglot.Proofs.Sight
import Polyglot.Target.Cpp

/-!
# Where faults are placed

A fault that arises while a program is emitted leaves through the visits of all the nodes that enclose it. The innermost of
them that stands somewhere gives it its place, unless it had one from the start; the others pass it on.
-/
namespace Polyglot

open Session Effect Emit List

variable {α : Type} {step : Visit → Node → Emit (Option String)} {k : Nat} {n m : Node} {p q : Page} {f : Fault}
  {path : List Node}

def Node.place? (n : Node) : Option (Nat × Nat) := n.line.bind fun line => n.col.map (line, ·)

namespace Fault

/-- What leaves the visit of a node whose handler raises a fault. -/
def leaving (n : Node) (f : Fault) : Fault :=
  if f.isSettled then f
  else match n.place? with
    | some place => ⟨.unsupported, f.text, some place⟩
    | none => .bare .missingPart

theorem foldr_leaving_of_isSettled (h : f.isSettled = true) (path : List Node) : path.foldr leaving f = f := by
  induction path with
  | nil => rfl
  | cons n path ih => rw [foldr_cons, ih, leaving, if_pos h]

/-- Of the nodes on the way out, the innermost one with a place settles a fault. -/
theorem foldr_leaving (h : f.isSettled = false) (path : List Node) :
    match path.reverse.findSome? Node.place? with
    | some place => ∃ text, path.foldr leaving f = ⟨.unsupported, text, some place⟩
    | none => (path.foldr leaving f).isSettled = false := by
  induction path with
  | nil => exact h
  | cons n path ih =>
    rw [reverse_cons, findSome?_append, foldr_cons]
    cases hpath : path.reverse.findSome? Node.place? with
    | some place =>
      rw [hpath] at ih
      obtain ⟨text, hleaves⟩ := ih
      exact ⟨text, by rw [hleaves]; rfl⟩
    | none =>
      rw [hpath] at ih
      rw [leaving, ih]
      cases hn : n.place? with
      | some place => simp [hn]
      | none => simp [hn]; rfl

end Fault

theorem Emit.guarded_error {act : Emit α} (h : act p = .error f q) : guarded n act p = .error (f.leaving n) q := by
  refine (catch_error h).trans ?_
  unfold Fault.leaving Node.place?
  cases hf : f.isSettled with
  | true => rfl
  | false =>
    cases hline : n.line <;> cases hcol : n.col <;> simp [throwAt, lineOf, colOf, hline, hcol] <;> rfl

namespace Target

def visitTo (step : Visit → Node → Emit (Option String)) : Nat → Visit :=
  tie (fun self n => do
    let n ← current n
    guarded n (step self n)) fun _ => fail .tooDeep

/-- A visit fails because of a fault that the handler of a node raises: the nodes that are being visited then, outermost
first, up to that node. Each handler on the way passes on what leaves the visit below it. -/
inductive Raises (step : Visit → Node → Emit (Option String)) : Nat → Node → Page → List Node → Fault → Prop
  | own {i : Nat} {c : Node} {r t : Page} {g : Fault} (h : step (visitTo step i) (r.session.now c) r = .error g t) :
      Raises step (i + 1) c r [r.session.now c] g
  | inner {i : Nat} {c d : Node} {r t u : Page} {g : Fault} {ns : List Node} (hd : Raises step i d u ns g)
      (h : step (visitTo step i) (r.session.now c) r = .error (ns.foldr Fault.leaving g) t) :
      Raises step (i + 1) c r (r.session.now c :: ns) g

theorem Raises.visitTo_eq (h : Raises step k n p path f) :
    ∃ q, visitTo step k n p = .error (path.foldr Fault.leaving f) q := by
  cases h with
  | own h | inner _ h => exact ⟨_, (bind_ok rfl).trans (guarded_error h)⟩

/-- The fault of a failed visit is told by its parts. -/
theorem error_of_told {r : EStateM.Result Fault Page (Option String)} (f : Fault)
    (h : (match r with | .error g _ => some (g.cause, g.text, g.place) | .ok _ _ => none) = some (f.cause, f.text, f.place)) :
    ∃ q, r = .error f q := by
  cases r with
  | ok => cases h
  | error g q =>
    cases f
    cases h
    exact ⟨q, rfl⟩

/-- The member of a name that is in no scope, returned: only the statement stands somewhere. -/
def unseenMember : Node := ⟨1, none, none, .attribute ⟨2, none, none, .name "x" .load⟩ "y" .load⟩

def unseenReturn : Node := ⟨3, some 2, some 4, .ret (some unseenMember)⟩

def unseenProgram : Node := ⟨4, none, none, .module [unseenReturn]⟩

end Target
end Polyglot
