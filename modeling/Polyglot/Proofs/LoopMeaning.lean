import Polyglot.Proofs.Held

/-!
# What loops mean

A meaning for programs that are built from simple statements, branches and loops. What expressions and simple
statements do is left open; they heed the mark for loops that were left early only where they name it. `Lowered`
relates a body to one in which the mark is set, and in which an else part has become a branch on the mark. The second
body, with else parts ignored, does what the first one does.
-/
namespace Polyglot

open Blocks

variable {head : Head} {n test m : Node}

def Node.Free (n : Node) : Prop := ∀ m : Node, m.Within n → m.ident? ≠ some leftEarly

abbrev Store (V : Type) := String → Option V

abbrev Store.marked {V : Type} (s : Store V) (x : Option V) : Store V := Function.update s leftEarly x

/-- What simple statements, conditions and ranges do with the variables. Each may fail. -/
structure Meaning (V : Type) where
  perform : Node → Store V → Option (Store V)
  test : Node → Store V → Option Bool
  items : Node → Store V → Option (List V)
  bind : Node → V → Store V → Option (Store V)
  truth : Bool → V
  perform_mark {n target value : Node} {u : Usage} {k b : Bool} (s : Store V) (hn : n.shape = .assign [target] value)
    (ht : target.shape = .name leftEarly u) (hv : value.shape = .constant (.bool b) k) :
    perform n s = some (s.marked (some (truth b)))
  test_mark {n left right : Node} {u : Usage} {k b : Bool} {s : Store V} (hn : n.shape = .compare left [.notEq] [right])
    (hl : left.shape = .name leftEarly u) (hr : right.shape = .constant (.bool true) k)
    (hs : s leftEarly = some (truth b)) : test n s = some !b
  perform_frame {n : Node} (hn : n.Free) (s : Store V) (x : Option V) :
    perform n (s.marked x) = (perform n s).map (·.marked x)
  test_frame {n : Node} (hn : n.Free) (s : Store V) (x : Option V) : test n (s.marked x) = test n s
  items_frame {n : Node} (hn : n.Free) (s : Store V) (x : Option V) : items n (s.marked x) = items n s
  bind_frame {n : Node} (hn : n.Free) (v : V) (s : Store V) (x : Option V) :
    bind n v (s.marked x) = (bind n v s).map (·.marked x)

inductive Signal where
  | done
  | broke
  | continued
  deriving DecidableEq

def Head.Free (h : Head) : Prop := ∀ c ∈ h.parts, c.Free

/-- Goes round a loop: `pull` says whether there is another round and prepares it. Says whether the loop was left. -/
def rounds {σ ρ : Type} (pull : ρ → σ → Option (Option ρ × σ)) (body : σ → Option (Signal × σ)) :
    Nat → ρ → σ → Option (Bool × σ)
  | 0, _, _ => none
  | fuel + 1, q, s =>
    match pull q s with
    | none => none
    | some (none, s) => some (false, s)
    | some (some q, s) =>
      match body s with
      | none => none
      | some (.broke, s) => some (true, s)
      | some (_, s) => rounds pull body fuel q s

namespace Meaning

variable {V : Type} (M : Meaning V)

/-- The items that a loop goes over, where it has any. -/
def start : Head → Store V → Option (List V)
  | .each _ iter, s => M.items iter s
  | .while _, _ => some []

def pull : Head → List V → Store V → Option (Option (List V) × Store V)
  | .each _ _, [], s => some (none, s)
  | .each target _, v :: vs, s => (M.bind target v s).map fun s => (some vs, s)
  | .while test, vs, s => (M.test test s).map fun b => (if b then some vs else none, s)

/-- A loop takes at most `fuel` rounds before it is given up. With `elses`, the else part is run if the loop was not
left. -/
def loop (fuel : Nat) (elses : Bool) (h : Head) (body orelse : Store V → Option (Signal × Store V)) (s : Store V) :
    Option (Signal × Store V) :=
  match (M.start h s).bind fun vs => rounds (M.pull h) body fuel vs s with
  | none => none
  | some (left, s) => if elses && !left then orelse s else some (.done, s)

variable (fuel : Nat) (elses : Bool)

mutual

def stmt : Node → Store V → Option (Signal × Store V)
  | ⟨_, _, _, .cond test body orelse⟩ => fun s =>
    match M.test test s with
    | none => none
    | some b => if b then block body s else block orelse s
  | ⟨_, _, _, .forLoop ⟨target, iter, body, orelse⟩⟩ => M.loop fuel elses (.each target iter) (block body) (block orelse)
  | ⟨_, _, _, .whileLoop test body orelse⟩ => M.loop fuel elses (.while test) (block body) (block orelse)
  | ⟨_, _, _, .breakLoop⟩ => fun s => some (.broke, s)
  | ⟨_, _, _, .continueLoop⟩ => fun s => some (.continued, s)
  | n => fun s => (M.perform n s).map fun s => (.done, s)

/-- Runs statements up to the first that does not come to its end. -/
def block : List Node → Store V → Option (Signal × Store V)
  | [] => fun s => some (.done, s)
  | n :: ns => fun s =>
    match stmt n s with
    | some (.done, s) => block ns s
    | r => r

end

end Meaning

def Node.isSimple (n : Node) : Bool :=
  n.shape matches .assign .. | .augAssign .. | .annAssign .. | .pass

def SetsMark (n : Node) (b : Bool) : Prop :=
  ∃ target value u k, n.shape = .assign [target] value ∧ target.shape = .name leftEarly u ∧
    value.shape = .constant (.bool b) k

def TestsMark (n : Node) : Prop :=
  ∃ left right u k, n.shape = .compare left [.notEq] [right] ∧ left.shape = .name leftEarly u ∧
    right.shape = .constant (.bool true) k

/-- A body and what becomes of it. `leaving` says that the loop around it has an else part, `watched` that some loop
around it has one, and `marks` that the mark is set among these statements where it has to be. -/
inductive Lowered : (leaving watched marks : Bool) → List Node → List Node → Prop
  | nil {l w p : Bool} : Lowered l w p [] []
  | simple {l w p : Bool} {n : Node} {ns ns' : List Node} (hn : n.isSimple = true) (hfree : n.Free)
      (h : Lowered l w p ns ns') : Lowered l w p (n :: ns) (n :: ns')
  | leave {w p : Bool} {n : Node} {ns ns' : List Node} (hn : n.shape = .breakLoop) (h : Lowered false w p ns ns') :
      Lowered false w p (n :: ns) (n :: ns')
  | leaveMarked {n m : Node} {ns ns' : List Node} (hn : n.shape = .breakLoop) (hm : SetsMark m true)
      (h : Lowered true true true ns ns') : Lowered true true true (n :: ns) (m :: n :: ns')
  | again {l w p : Bool} {n : Node} {ns ns' : List Node} (hn : n.shape = .continueLoop) (h : Lowered l w p ns ns') :
      Lowered l w p (n :: ns) (n :: ns')
  | cond {l w p : Bool} {n n' test : Node} {body body' orelse orelse' ns ns' : List Node}
      (hn : n.shape = .cond test body orelse) (hn' : n'.shape = .cond test body' orelse') (hfree : test.Free)
      (hblock : test.isBlock = false)
      (hbody : Lowered l w true body body') (horelse : Lowered l w false orelse orelse') (h : Lowered l w p ns ns') :
      Lowered l w p (n :: ns) (n' :: ns')
  | loop {l w p : Bool} {n n' : Node} {head : Head} {body body' ns ns' : List Node} (hid : n'.id = n.id)
      (hn : n.shape = head.shape body []) (hn' : n'.shape = head.shape body' []) (hfree : head.Free)
      (hbody : Lowered false w true body body') (h : Lowered l w p ns ns') : Lowered l w p (n :: ns) (n' :: ns')
  | loopElse {l : Bool} {n n' m b test : Node} {head : Head} {body body' orelse orelse' ns ns' : List Node}
      (hid : n'.id = n.id) (hn : n.shape = head.shape body orelse) (hn' : n'.shape = head.shape body' orelse')
      (hne : orelse ≠ []) (hfree : head.Free) (hm : SetsMark m false) (hb : b.shape = .cond test orelse' [])
      (htest : TestsMark test) (hbody : Lowered true true true body body') (horelse : Lowered l false false orelse orelse')
      (h : Lowered l false true ns ns') : Lowered l false true (n :: ns) (m :: n' :: b :: ns')

namespace Meaning

variable {V α : Type} {M : Meaning V} {fuel : Nat} {elses b : Bool} {s : Store V}

theorem stmt_simple (h : n.isSimple = true) : M.stmt fuel elses n s = (M.perform n s).map fun s => (.done, s) := by
  obtain ⟨_, _, _, shape⟩ := n
  cases shape <;> simp only [Node.isSimple, Bool.false_eq_true] at h <;> rfl

theorem stmt_break (h : n.shape = .breakLoop) : M.stmt fuel elses n s = some (.broke, s) := by
  obtain ⟨_, _, _, shape⟩ := n
  cases h
  rfl

theorem stmt_continue (h : n.shape = .continueLoop) : M.stmt fuel elses n s = some (.continued, s) := by
  obtain ⟨_, _, _, shape⟩ := n
  cases h
  rfl

theorem stmt_cond {body orelse : List Node} (h : n.shape = .cond test body orelse) :
    M.stmt fuel elses n s = match M.test test s with
      | none => none
      | some b => if b then M.block fuel elses body s else M.block fuel elses orelse s := by
  obtain ⟨_, _, _, shape⟩ := n
  cases h
  rfl

theorem stmt_loop {body orelse : List Node} (h : n.shape = head.shape body orelse) :
    M.stmt fuel elses n s =
      M.loop fuel elses head (M.block fuel elses body) (M.block fuel elses orelse) s := by
  obtain ⟨_, _, _, shape⟩ := n
  cases head <;> cases h <;> rfl

theorem block_cons {ns : List Node} :
    M.block fuel elses (n :: ns) s = match M.stmt fuel elses n s with
      | some (.done, s) => M.block fuel elses ns s
      | r => r := rfl

theorem stmt_setsMark {x : Option V} (h : SetsMark m b) :
    M.stmt fuel elses m (s.marked x) = some (.done, s.marked (some (M.truth b))) := by
  obtain ⟨target, value, u, k, hm, ht, hv⟩ := h
  rw [stmt_simple (by simp [Node.isSimple, hm]), M.perform_mark _ hm ht hv, Store.marked, Store.marked,
    Function.update_idem]
  rfl

theorem test_of_testsMark (h : TestsMark test) (hs : s leftEarly = some (M.truth b)) : M.test test s = some !b := by
  obtain ⟨left, right, u, k, hn, hl, hr⟩ := h
  exact M.test_mark hn hl hr hs

/-! ### Two runs side by side -/

/-- Two ends that differ in the mark only, and in that as `ok` allows. -/
inductive Shadows {α : Type} (ok : α → Option V → Prop) : Option (α × Store V) → Option (α × Store V) → Prop
  | fails : Shadows ok none none
  | ends {a : α} {t : Store V} {y : Option V} (h : ok a y) : Shadows ok (some (a, t)) (some (a, t.marked y))

/-- Where a loop watches the mark, it is set by the breaks that leave this loop and else stays as it was. -/
def Keeps (M : Meaning V) (leaving watched : Bool) (x : Option V) (g : Signal) (y : Option V) : Prop :=
  watched = true → y = if leaving = true ∧ g = .broke then some (M.truth true) else x

def Simulates (M : Meaning V) (fuel : Nat) (l w : Bool) (ns ns' : List Node) : Prop :=
  ∀ s x, Shadows (M.Keeps l w x) (M.block fuel true ns s) (M.block fuel false ns' (s.marked x))

variable {l w : Bool} {n n' : Node} {ns ns' body body' orelse orelse' : List Node} {x : Option V}

theorem Shadows.imp {ok ok' : α → Option V → Prop} {a b : Option (α × Store V)} (h : Shadows ok a b)
    (himp : ∀ g y, ok g y → ok' g y) : Shadows ok' a b := by
  cases h with
  | fails => exact .fails
  | ends hok => exact .ends (himp _ _ hok)

theorem Simulates.cons (hn : Shadows (M.Keeps l w x) (M.stmt fuel true n s) (M.stmt fuel false n' (s.marked x)))
    (h : M.Simulates fuel l w ns ns') :
    Shadows (M.Keeps l w x) (M.block fuel true (n :: ns) s) (M.block fuel false (n' :: ns') (s.marked x)) := by
  rw [block_cons, block_cons]
  refine hn.casesOn .fails fun {g t y} hok => ?_
  cases g with
  | broke | continued => exact .ends hok
  | done =>
    refine (h t y).imp fun g z hz hw => ?_
    have hy : y = x := by simpa using hok hw
    rw [← hy]
    exact hz hw

section

variable (hfree : head.Free)
include hfree

theorem pull_frame (vs : List V) (s : Store V) (x : Option V) :
    M.pull head vs (s.marked x) = (M.pull head vs s).map fun r => (r.1, r.2.marked x) := by
  cases head with
  | each target iter =>
    cases vs with
    | nil => rfl
    | cons v vs => simp [pull, M.bind_frame (hfree target (by simp [Head.parts])), Function.comp_def]
  | «while» test => simp [pull, M.test_frame (hfree test (by simp [Head.parts])), Function.comp_def]

theorem start_frame (s : Store V) (x : Option V) : M.start head (s.marked x) = M.start head s := by
  cases head with
  | each target iter => exact M.items_frame (hfree iter (by simp [Head.parts])) s x
  | «while» test => rfl

theorem rounds_shadows (h : M.Simulates fuel l w body body') (k : Nat) (vs : List V) (s : Store V)
    (x : Option V) :
    Shadows (fun left y => w = true → y = if l = true ∧ left = true then some (M.truth true) else x)
      (rounds (M.pull head) (M.block fuel true body) k vs s)
      (rounds (M.pull head) (M.block fuel false body') k vs (s.marked x)) := by
  induction k generalizing vs s x with
  | zero => exact .fails
  | succ k ih =>
    unfold rounds
    rw [pull_frame hfree]
    cases M.pull head vs s with
    | none => exact .fails
    | some r =>
      obtain ⟨next, t⟩ := r
      cases next with
      | none => exact .ends (by simp)
      | some vs =>
        simp only [Option.map_some]
        refine (h t x).casesOn .fails fun {g u y} hok => ?_
        cases g with
        | broke => exact .ends (by simpa [Keeps] using hok)
        | _ =>
          refine (ih vs u y).imp fun left z hz hw => ?_
          have hy : y = x := by simpa using hok hw
          rw [← hy]
          exact hz hw

theorem loop_shadows (h : M.Simulates fuel false w body body') :
    Shadows (M.Keeps l w x) (M.loop fuel true head (M.block fuel true body) (M.block fuel true []) s)
      (M.loop fuel false head (M.block fuel false body') (M.block fuel false []) (s.marked x)) := by
  unfold loop
  rw [start_frame hfree]
  cases M.start head s with
  | none => exact .fails
  | some vs =>
    rw [Option.bind_some, Option.bind_some]
    refine (rounds_shadows hfree h fuel vs s x).casesOn .fails fun {left t y} hok => ?_
    have hdone : Shadows (M.Keeps l w x) (some (.done, t)) (some (.done, t.marked y)) :=
      .ends fun hw => by simpa using hok hw
    cases left <;> exact hdone

/-- A loop with an else part, between the mark and the branch on it. -/
theorem loopElse_shadows {b : Node} (hn : n.shape = head.shape body orelse) (hn' : n'.shape = head.shape body' orelse') (hm : SetsMark m false) (hb : b.shape = .cond test orelse' []) (htest : TestsMark test)
    (hbody : M.Simulates fuel true true body body') (horelse : M.Simulates fuel l false orelse orelse')
    (h : M.Simulates fuel l false ns ns') :
    Shadows (M.Keeps l false x) (M.block fuel true (n :: ns) s)
      (M.block fuel false (m :: n' :: b :: ns') (s.marked x)) := by
  rw [block_cons, stmt_loop hn, block_cons, stmt_setsMark hm]
  simp only [block_cons, stmt_loop hn', loop, start_frame hfree]
  cases M.start head s with
  | none => exact .fails
  | some vs =>
    simp only [Option.bind_some]
    refine (rounds_shadows hfree hbody fuel vs s (some (M.truth false))).casesOn .fails fun {left t y} hok => ?_
    have hy : y = some (M.truth left) := by
      rw [hok rfl]
      cases left <;> rfl
    -- the branch is taken exactly if the loop was not left
    have htaken : M.test test (t.marked y) = some !left :=
      test_of_testsMark htest (by simp [hy])
    simp only [Bool.false_and, Bool.false_eq_true, if_false, stmt_cond hb, htaken]
    cases left with
    | true => exact (h t y).imp nofun
    | false =>
      refine (horelse t y).casesOn .fails fun {g u z} _ => ?_
      cases g with
      | done => exact (h u z).imp nofun
      | broke | continued => exact .ends nofun

end

theorem simulates_of_lowered {p : Bool} (h : Lowered l w p ns ns') : M.Simulates fuel l w ns ns' := by
  induction h with
  | nil => exact fun s x => .ends fun _ => by simp
  | simple hn hfree _ ih =>
    refine fun s x => Simulates.cons ?_ ih
    rw [stmt_simple hn, stmt_simple hn, M.perform_frame hfree]
    cases M.perform _ s with
    | none => exact .fails
    | some t => exact .ends fun _ => by simp
  | leave hn _ ih =>
    refine fun s x => Simulates.cons ?_ ih
    rw [stmt_break hn, stmt_break hn]
    exact .ends fun _ => by simp
  | leaveMarked hn hm _ ih =>
    intro s x
    rw [block_cons, stmt_break hn, block_cons, stmt_setsMark hm]
    simp only [block_cons, stmt_break hn]
    exact .ends fun _ => by simp
  | again hn _ ih =>
    refine fun s x => Simulates.cons ?_ ih
    rw [stmt_continue hn, stmt_continue hn]
    exact .ends fun _ => by simp
  | cond hn hn' hfree _ _ _ _ ihbody ihorelse ih =>
    refine fun s x => Simulates.cons ?_ ih
    rw [stmt_cond hn, stmt_cond hn', M.test_frame hfree]
    cases M.test _ s with
    | none => exact .fails
    | some b =>
      cases b with
      | true => exact ihbody s x
      | false => exact ihorelse s x
  | loop _ hn hn' hfree _ _ ihbody ih =>
    refine fun s x => Simulates.cons ?_ ih
    rw [stmt_loop hn, stmt_loop hn']
    exact loop_shadows hfree ihbody
  | loopElse _ hn hn' _ hfree hm hb htest _ _ _ ihbody ihorelse ih =>
    exact fun s x => loopElse_shadows hfree hn hn' hm hb htest ihbody ihorelse ih

end Meaning
end Polyglot
