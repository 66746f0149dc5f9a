import Polyglot.Fault

/-!
# Dependency order

Orders names so that each comes after those it depends on. The order proceeds in rounds: a round takes every
name that waits for nothing, sorted. If all names wait, the round is the smallest of them alone, so a cycle is
cut at its smallest name.
-/
namespace Polyglot

/-- Names with what they depend on, and how far an ordering of them has come. -/
structure Sorter (α : Type := String) where
  graph : List (α × List α) := []
  /-- The names that are not done yet, each with the number of names it waits for. -/
  waiting : Option (List (α × Int)) := none
  deriving Inhabited

namespace Sorter

variable {α : Type} [DecidableEq α]

def insertNew (x : α) (xs : List α) : List α := if xs.contains x then xs else xs ++ [x]

def addNode (graph : List (α × List α)) (n : α) : List (α × List α) :=
  if (graph.lookup n).isSome then graph else graph ++ [(n, [])]

def addEdge (graph : List (α × List α)) (n p : α) : List (α × List α) :=
  (addNode graph p).map fun g => if g.1 == n then (g.1, insertNew p g.2) else g

def add (s : Sorter α) (n : α) (preds : List α) : Sorter α :=
  { s with graph := preds.foldl (fun g p => addEdge g n p) (addNode s.graph n) }

def ofGraph (graph : List (α × List α)) : Sorter α :=
  graph.foldl (fun s g => s.add g.1 g.2) {}

def dependencies (graph : List (α × List α)) (n : α) : List α := (graph.lookup n).getD []

def start (graph : List (α × List α)) : List (α × Int) := graph.map fun g => (g.1, (g.2.length : Int))

def prepare (s : Sorter α) : Sorter α := { s with waiting := some (start s.graph) }

/-- Takes a name out of an ordering; what depends on it waits for one name less. -/
def doneOne (graph : List (α × List α)) (waiting : List (α × Int)) (n : α) : List (α × Int) :=
  if (waiting.lookup n).isSome then
    (waiting.filter (·.1 != n)).map fun w => if (dependencies graph w.1).contains n then (w.1, w.2 - 1) else w
  else waiting

def doneAll (graph : List (α × List α)) (waiting : List (α × Int)) (ns : List α) : List (α × Int) :=
  ns.foldl (doneOne graph) waiting

def free (waiting : List (α × Int)) : List α := (waiting.filter (·.2 == 0)).map (·.1)

variable [LT α] [DecidableLT α]

def sorted (xs : List α) : List α := xs.mergeSort fun a b => !decide (b < a)

def smallest? : List α → Option α
  | [] => none
  | x :: xs => some (xs.foldl (fun a b => if b < a then b else a) x)

def readyOf (waiting : List (α × Int)) : List α :=
  if (free waiting).isEmpty then (smallest? (waiting.map (·.1))).toList else free waiting

def rounds (graph : List (α × List α)) : Nat → List (α × Int) → List α
  | 0, _ => []
  | k + 1, waiting =>
    if waiting.isEmpty then []
    else
      let ready := readyOf waiting
      sorted ready ++ rounds graph k (doneAll graph waiting ready)

def order (s : Sorter α) : List α := rounds s.graph s.graph.length (start s.graph)

/-! ### An ordering step by step -/

inductive Step (α : Type := String) where
  | add (n : α) (preds : List α)
  | prepare
  | isActive
  | ready
  | done (ns : List α)
  | order

inductive Outcome (α : Type := String) where
  | nothing
  | flag (b : Bool)
  | names (ns : List α)

/-- Performs one step; before an ordering is started, there is nothing to ask about. -/
def perform (s : Sorter α) : Step α → Sorter α × Except Fault (Outcome α)
  | .add n ps => (s.add n ps, .ok .nothing)
  | .prepare => (s.prepare, .ok .nothing)
  | .isActive =>
    match s.waiting with
    | some w => (s, .ok (.flag !w.isEmpty))
    | none => (s, .error (.bare .missingPart))
  | .ready =>
    match s.waiting with
    | some w => (s, .ok (.names (sorted (readyOf w))))
    | none => (s, .error (.bare .missingPart))
  | .done ns =>
    match s.waiting, ns with
    | _, [] => (s, .ok .nothing)
    | some w, ns => ({ s with waiting := some (doneAll s.graph w ns) }, .ok .nothing)
    | none, _ => (s, .error (.bare .missingPart))
  | .order => ({ s with waiting := some [] }, .ok (.names s.order))

end Sorter
end Polyglot
