import Polyglot.Proofs.Effects
import Polyglot.Targets

/-!
# Chains of comparisons

A chain such as `a < b < c` holds if all its links do. The common rule for comparisons writes the first link only, and
so do the two targets that have a rule of their own. Whoever reads that link aright misreads every longer chain.
-/
namespace Polyglot

open Session Emit Effect

/-- Whether two numbers compare as an operator says. What lies in a number is nothing. -/
def CmpOp.holds : CmpOp → Int → Int → Bool
  | .eq, a, b | .same, a, b => a == b
  | .notEq, a, b | .notSame, a, b => a != b
  | .lt, a, b => a < b
  | .ltE, a, b => a ≤ b
  | .gt, a, b => a > b
  | .gtE, a, b => a ≥ b
  | .isIn, _, _ => false
  | .notIn, _, _ => true

def CmpOp.isMembership : CmpOp → Bool
  | .isIn | .notIn => true
  | _ => false

namespace Chain

/-- Whether a chain holds, for the values of its operands from the one at `i` on. -/
def holds (v : Nat → Int) : Nat → List CmpOp → Bool
  | _, [] => true
  | i, op :: ops => op.holds (v i) (v (i + 1)) && holds v (i + 1) ops

/-- The rules for comparisons: that of the dialects, and those of the targets that have one of their own. -/
inductive Rule where
  | common (d : Dialect)
  | rust (visit : Visit)
  | smt (visit : Visit)

def Rule.write : Rule → Visit
  | .common d => d.step
  | .rust visit => Rust.step visit
  | .smt visit => Smt.step visit

/-- A node with the first link in the place of a chain. -/
def firstLink (n left : Node) (op : CmpOp) (c : Node) : Node := { n with shape := .compare left [op] [c] }

variable {n left c : Node} {op : CmpOp} {ops : List CmpOp} {cs : List Node}

/-- Of a chain that starts with no membership test only the first link is written. -/
theorem write_eq_firstLink (r : Rule) (hn : n.shape = .compare left (op :: ops) (c :: cs)) (hop : op.isMembership = false) :
    r.write n = r.write (firstLink n left op c) := by
  cases r with
  | common d =>
    simp only [Rule.write, Dialect.step, hn, firstLink]
    cases op with
    | isIn | notIn => cases hop
    | _ => rfl
  | rust visit => simp only [Rule.write, Rust.step, hn, firstLink]
  | smt visit =>
    simp only [Rule.write, Smt.step, hn, firstLink]
    cases op with
    | isIn | notIn => cases hop
    | _ => rfl

theorem exists_holds (hop : op.isMembership = false) : ∃ a b, op.holds a 0 = true ∧ op.holds 0 b = false := by
  cases op with
  | eq | same | gtE => exact ⟨0, 1, rfl, rfl⟩
  | notEq | notSame | gt => exact ⟨1, 0, rfl, rfl⟩
  | lt => exact ⟨-1, 0, rfl, rfl⟩
  | ltE => exact ⟨0, -1, rfl, rfl⟩
  | isIn | notIn => cases hop

/-- The first link says the same as the chain, whatever the values, only if there is no second one. -/
theorem holds_firstLink_iff (hops : ∀ o ∈ op :: ops, o.isMembership = false) :
    (∀ v, holds v 0 [op] = holds v 0 (op :: ops)) ↔ ops = [] := by
  refine ⟨fun h => ?_, fun h => by rw [h]; intro v; rfl⟩
  cases ops with
  | nil => rfl
  | cons o ops =>
    -- values that agree with the first link and not with the second
    obtain ⟨a, -, ha, -⟩ := exists_holds (hops op List.mem_cons_self)
    obtain ⟨-, b, -, hb⟩ := exists_holds (hops o (List.mem_cons_of_mem _ List.mem_cons_self))
    have h := h fun i => match i with
      | 0 => a
      | 1 => 0
      | _ => b
    simp [holds, ha, hb] at h

/-- Whether a text, if there is one, is read as saying what a chain says, whatever the values of its operands are. -/
def Denoted (read : Option String → (Nat → Int) → Bool) (ops : List CmpOp) :
    EStateM.Result Fault Page (Option String) → Prop
  | .ok text _ => ∀ v, read text v = holds v 0 ops
  | .error _ _ => True

/-- For each rule, each chain without membership tests and each page: the chain is written as its first link is, and
however texts are read, if that link is read aright, then the chain is if and only if it has no second link or is
refused. -/
theorem write_denotes_iff (r : Rule) (n left c : Node) (op : CmpOp) (ops : List CmpOp) (cs : List Node) (p : Page)
    (hn : n.shape = .compare left (op :: ops) (c :: cs)) (hops : ∀ o ∈ op :: ops, o.isMembership = false) :
    r.write n p = r.write (firstLink n left op c) p ∧
      ∀ read, Denoted read [op] (r.write (firstLink n left op c) p) →
        (Denoted read (op :: ops) (r.write n p) ↔ ops = [] ∨ returned (r.write n p) = false) := by
  have hwrite : r.write n p = r.write (firstLink n left op c) p := by
    rw [write_eq_firstLink r hn (hops op List.mem_cons_self)]
  refine ⟨hwrite, fun read hfirst => ?_⟩
  rw [← hwrite] at hfirst
  cases h : r.write n p with
  | error f q => simp [Denoted, returned]
  | ok text q =>
    rw [h] at hfirst
    have hread : Denoted read (op :: ops) (.ok text q) ↔ ∀ v, holds v 0 [op] = holds v 0 (op :: ops) :=
      forall_congr' fun v => by rw [hfirst v]
    rw [hread, holds_firstLink_iff hops]
    simp [returned]

def named (id : NodeId) (s : String) : Node := ⟨id, some 1, none, .name s .load⟩

def ascending : Node := ⟨4, some 1, none, .compare (named 1 "a") [.lt, .lt] [named 2 "b", named 3 "c"]⟩

/-- Whoever reads `a < b` aright, and it can be so read, misreads `a < b < c`, which is written all the same. -/
theorem write_ascending_misread :
    let r := Rule.common (Cpp.dialect Cpp.emit)
    let first := firstLink ascending (named 1 "a") .lt (named 2 "b")
    returned (r.write ascending {}) = true ∧ (∃ read, Denoted read [.lt] (r.write first {})) ∧
      ∀ read, Denoted read [.lt] (r.write first {}) → ¬ Denoted read [.lt, .lt] (r.write ascending {}) := by
  intro r first
  have hreturned : returned (r.write ascending {}) = true := by decide +kernel
  obtain ⟨-, hiff⟩ := write_denotes_iff r ascending _ _ .lt [.lt] _ {} rfl (by decide)
  refine ⟨hreturned, ⟨fun _ v => v 0 < v 1, ?_⟩, fun read hfirst hread => ?_⟩
  · cases r.write first {} with
    | ok text q => exact fun v => (Bool.and_true _).symm
    | error f q => trivial
  · simpa [hreturned] using (hiff read hfirst).1 hread

def textFor (t : Target) (source : String) : Option String :=
  match Run.all t { bare := true } false [("test.py", source)] (Targets.page t { bare := true } true) with
  | .ok [(_, .ok text)] _ => some text
  | _ => none

/-- Three targets write `a < b < c` as `a < b`, which holds of one, two and zero where the chain does not. -/
theorem second_link_dropped :
    [(Cpp.target, "\na < b;\n"), (Rust.target, "\na < b;\n"), (Smt.target, "(assert (< a b))\n")].all (fun (t, text) =>
        (textFor t "a < b < c\n").any (Text.endsWith · text)) ∧
      holds (fun i => [1, 2, 0].getD i 0) 0 [.lt] = true ∧
      holds (fun i => [1, 2, 0].getD i 0) 0 [.lt, .lt] = false := by
  decide +kernel

end Chain
end Polyglot
