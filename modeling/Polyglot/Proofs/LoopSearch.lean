import Polyglot.Proofs.LoopMeaning

/-!
# Which loop a search finds

The break of a loop is matched to a loop by a search: from the innermost scope outwards, in each scope backwards
through its body. `lastLoop` says what a search finds in a body. A session that holds the body finds the same, and
so it does, within limits, when the body was changed meanwhile.
-/
namespace Polyglot

open Effect Session Blocks List Option Node Scope

variable {f : Node → Analysis (Option Node)} {ns as : List Node}

namespace Node

def elsePart (n : Node) : List Node :=
  match n.shape with
  | .forLoop l => l.orelse
  | .whileLoop _ _ orelse => orelse
  | _ => []

def parted (n : Node) : Bool := !n.elsePart.isEmpty

mutual

/-- The loop that a statement is, or that a search finds in a branch. -/
def loopOf : Node → Option Node
  | ⟨id, line, col, .forLoop l⟩ => some ⟨id, line, col, .forLoop l⟩
  | ⟨id, line, col, .whileLoop test body orelse⟩ => some ⟨id, line, col, .whileLoop test body orelse⟩
  | ⟨_, _, _, .cond _ body _⟩ => lastLoop body
  | _ => none

/-- The loop that a search backwards through statements finds. -/
def lastLoop : List Node → Option Node
  | [] => none
  | n :: ns => (lastLoop ns).or (loopOf n)

end

variable {n test : Node} {ns body orelse : List Node} {head : Head}

theorem loopOf_loop (h : n.shape = head.shape body orelse) : n.loopOf = some n := by
  obtain ⟨_, _, _, shape⟩ := n
  cases head <;> cases h <;> rfl

theorem loopOf_cond (h : n.shape = .cond test body orelse) : n.loopOf = lastLoop body := by
  obtain ⟨_, _, _, shape⟩ := n
  cases h
  rfl

theorem elsePart_loop (h : n.shape = head.shape body orelse) : n.elsePart = orelse := by
  cases head <;> simp [elsePart, h, Head.shape]

/-- The statements without parts of their own that a search could look into. -/
def isLeaf (n : Node) : Bool := n.isSimple || n.shape matches .breakLoop | .continueLoop

theorem opening?_leaf (h : n.isLeaf = true) : n.shape.opening? = none := by
  obtain ⟨_, _, _, shape⟩ := n
  cases shape <;> first | rfl | simp [isLeaf, isSimple] at h

theorem loopOf_leaf (h : n.isLeaf = true) : n.loopOf = none := by
  obtain ⟨_, _, _, shape⟩ := n
  cases shape <;> first | rfl | simp [isLeaf, isSimple] at h

end Node

inductive Regular : List Node → Prop
  | nil : Regular []
  | leaf {n : Node} {ns : List Node} (hn : n.isLeaf = true) (h : Regular ns) : Regular (n :: ns)
  | cond {n test : Node} {body orelse ns : List Node} (hn : n.shape = .cond test body orelse)
      (hblock : test.isBlock = false) (hbody : Regular body) (h : Regular ns) : Regular (n :: ns)
  | loop {n : Node} {head : Head} {body orelse ns : List Node} (hn : n.shape = head.shape body orelse)
      (h : Regular ns) : Regular (n :: ns)

theorem Regular.of_mem {n : Node} (h : Regular ns) (hn : n ∈ ns) : Regular [n] := by
  induction h with
  | nil => cases hn
  | leaf hleaf _ ih =>
    rcases mem_cons.1 hn with rfl | hn
    · exact .leaf hleaf .nil
    · exact ih hn
  | cond hcond hblock hbody _ _ ih =>
    rcases mem_cons.1 hn with rfl | hn
    · exact .cond hcond hblock hbody .nil
    · exact ih hn
  | loop hloop _ ih =>
    rcases mem_cons.1 hn with rfl | hn
    · exact .loop hloop .nil
    · exact ih hn

/-- A search in a statement finds the loop that is there, unless this has an else part and is none of those that
`A` allows. -/
def Sees (A : NodeId → Prop) (k : Nat) (s : Session) (t : Node) : Prop :=
  ∀ j, k ≤ j → ∀ n : Node, n.id = t.id → ∃ found, findAt isLoop (findInBody isLoop j) n s = .ok found s ∧
    ((∀ f, t.loopOf = some f → f.parted = true → A f.id) → found.map (·.id) = t.loopOf.map (·.id))

namespace Sees

variable {A : NodeId → Prop} {k j : Nat} {s s' : Session} {n t a : Node} {ns ts : List Node}

theorem findSomeM?_cons {o : Option Node} (h : f a s = .ok o s') :
    (a :: as).findSomeM? f s = if o.isSome then .ok o s' else as.findSomeM? f s' := by
  rw [List.findSomeM?, bind_ok h]
  cases o <;> rfl

theorem findSomeM?_append_ok {s'' : Session} {o o' : Option Node} (h : as.findSomeM? f s = .ok o s')
    (ha : f a s' = .ok o' s'') : (as ++ [a]).findSomeM? f s = if o.isSome then .ok o s' else .ok o' s'' := by
  induction as generalizing s with
  | nil =>
    cases h
    rw [nil_append, findSomeM?_cons ha]
    cases o' <;> rfl
  | cons x as ih =>
    cases hx : f x s with
    | error e u => rw [List.findSomeM?, bind_error hx] at h; cases h
    | ok r u =>
      rw [findSomeM?_cons hx] at h
      rw [cons_append, findSomeM?_cons hx]
      cases r with
      | some b => cases h; rfl
      | none => exact ih h

theorem findInBody_ok (h : ∀ t ∈ ts, Sees A k s t) (hids : ns.map (·.id) = ts.map (·.id)) (hk : k ≤ j) :
    ∃ found, findInBody isLoop (j + 1) ns s = .ok found s ∧
      ((∀ f, lastLoop ts = some f → f.parted = true → A f.id) →
        found.map (·.id) = (lastLoop ts).map (·.id)) := by
  have hrel := forall₂_of_map_id hids
  clear hids
  change ∃ found, ns.reverse.findSomeM? (findAt isLoop (findInBody isLoop j)) s = .ok found s ∧ _
  induction hrel with
  | nil => exact ⟨none, rfl, fun _ => rfl⟩
  | @cons n t ns ts hid _ ih =>
    obtain ⟨found, hfound, heq⟩ := ih fun t ht => h t (mem_cons_of_mem _ ht)
    obtain ⟨found', hfound', heq'⟩ := h t mem_cons_self j hk n hid
    rw [reverse_cons, findSomeM?_append_ok hfound hfound', lastLoop]
    cases hlast : lastLoop ts with
    | none =>
      have hnone : found = none := by simpa [hlast] using heq
      subst hnone
      exact ⟨found', rfl, heq'⟩
    | some f =>
      simp only [hlast] at heq
      cases found with
      | some g => exact ⟨some g, rfl, heq⟩
      | none => exact ⟨found', rfl, fun hA => absurd (heq hA) (by simp)⟩

variable {c test : Node} {body orelse : List Node} {head : Head} {findIn : List Node → Analysis (Option Node)}

theorem findAt_leaf (hc : current n s = .ok c s) (h : c.isLeaf = true) :
    findAt isLoop findIn n s = .ok none s := by
  unfold findAt
  rw [bind_ok hc]
  obtain ⟨_, _, _, shape⟩ := c
  cases shape <;> first | rfl | simp [isLeaf, isSimple] at h

theorem findAt_loop (hc : current n s = .ok c s) (h : c.shape = head.shape body orelse) :
    findAt isLoop findIn n s = .ok (some c) s := by
  unfold findAt
  rw [bind_ok hc]
  have hloop : isLoop c = true := by cases head <;> simp [isLoop, h, Head.shape]
  rw [if_pos hloop]
  rfl

theorem findAt_cond (hc : current n s = .ok c s) (h : c.shape = .cond test body orelse)
    (htest : current test s = .ok test s) (hblock : test.isBlock = false) :
    findAt isLoop findIn n s = findIn body s := by
  unfold findAt
  rw [bind_ok hc]
  have hnot' : isLoop test = false := by
    unfold isBlock at hblock
    unfold isLoop
    split at hblock <;> simp_all
  obtain ⟨_, _, _, shape⟩ := c
  cases h
  change (current test >>= _) s = _
  rw [bind_ok htest, hnot']
  rfl

theorem of_holds (h : Holds k s t) (hregular : Regular [t]) : Sees A k s t := by
  induction k generalizing t with
  | zero => exact h.elim
  | succ k ih =>
    intro j hj n hid
    obtain ⟨hkey, hchildren⟩ := h
    obtain ⟨c, hc, hckey⟩ := current_of_keyAt (show s.keyAt n.id = some t.key by rw [hid, hkey])
    cases hregular with
    | leaf hleaf _ =>
      obtain rfl := eq_of_key hckey (opening?_leaf hleaf)
      exact ⟨none, findAt_leaf hc hleaf, fun _ => by rw [loopOf_leaf hleaf]⟩
    | @loop _ head body orelse _ hloop _ =>
      have ht : t.shape.opening? = some (.loop head, body, orelse) :=
        hloop ▸ Shape.opening?_shape (o := .loop head) nofun
      obtain ⟨b, e, hopening, _, _⟩ := opening?_of_key hckey ht
      refine ⟨some c, findAt_loop hc (Shape.eq_shape_of_opening? hopening).1, fun _ => ?_⟩
      rw [loopOf_loop hloop, map_some, map_some, id_of_key hckey]
    | @cond _ test body orelse _ hcond hblock hbody _ =>
      have ht : t.shape.opening? = some (.cond test, body, orelse) := by rw [hcond]; rfl
      obtain ⟨b, e, hopening, hb, _⟩ := opening?_of_key hckey ht
      have hmem := Shape.children_of_opening? ht
      have htest : current test s = .ok test s :=
        current_of_holds (hchildren test (by simp [children, hmem, Opening.parts])) hblock
      obtain ⟨i, rfl⟩ := exists_succ_of_lt hj
      rw [findAt_cond hc (Shape.eq_shape_of_opening? hopening).1 htest hblock, loopOf_cond hcond]
      refine findInBody_ok (fun x hx => ih (hchildren x ?_) (hbody.of_mem hx)) hb (by omega)
      simp [children, hmem, hx]

end Sees

/-! ### Searches in a body that was changed -/

namespace Lowered

variable {l w p : Bool} {ns ns' : List Node}

theorem isLeaf_of_setsMark {m : Node} {b : Bool} (h : SetsMark m b) : m.isLeaf = true := by
  obtain ⟨target, value, u, k, hm, _, _⟩ := h
  simp [isLeaf, isSimple, hm]

theorem isBlock_of_testsMark {test : Node} (h : TestsMark test) : test.isBlock = false := by
  obtain ⟨left, right, u, k, hn, _, _⟩ := h
  simp [isBlock, hn]

theorem regular (h : Lowered l w p ns ns') : Regular ns' := by
  induction h with
  | nil => exact .nil
  | simple hn _ _ ih | leave hn _ ih | again hn _ ih => exact .leaf (by simp [isLeaf, hn]) ih
  | leaveMarked hn hm _ ih => exact .leaf (isLeaf_of_setsMark hm) (.leaf (by simp [isLeaf, hn]) ih)
  | cond _ hn' _ hblock _ _ _ ihbody _ ih => exact .cond hn' hblock ihbody ih
  | loop _ _ hn' _ _ _ _ ih => exact .loop hn' ih
  | loopElse _ _ hn' _ _ hm hb htest _ _ _ _ ihorelse ih =>
    exact .leaf (isLeaf_of_setsMark hm) (.loop hn' (.cond hb (isBlock_of_testsMark htest) ihorelse ih))

theorem lastLoop_append (as bs : List Node) :
    lastLoop (as ++ bs) = (lastLoop bs).or (lastLoop as) := by
  induction as with
  | nil => simp [lastLoop]
  | cons a as ih => rw [cons_append, lastLoop, lastLoop, ih, Option.or_assoc]

theorem lastLoop_singleton (n : Node) : lastLoop [n] = n.loopOf := by
  simp [lastLoop]

theorem lastLoop_eq_cons {n : Node} (cs : List Node) (hf : ∀ f, lastLoop (n :: ns) = some f → f.parted = false)
    (ih : (∀ f, lastLoop ns = some f → f.parted = false) →
      (lastLoop ns').map (·.id) = (lastLoop ns).map (·.id))
    (hcs : (∀ f, n.loopOf = some f → f.parted = false) →
      (lastLoop cs).map (·.id) = n.loopOf.map (·.id)) :
    (lastLoop (cs ++ ns')).map (·.id) = (lastLoop (n :: ns)).map (·.id) := by
  rw [lastLoop_append]
  simp only [lastLoop] at hf ⊢
  cases hns : lastLoop ns with
  | some f =>
    rw [hns] at ih hf
    have hns' := ih fun g hg => hf g (by rw [hg, some_or])
    obtain ⟨f', hf', hid⟩ := map_eq_some_iff.1 hns'
    rw [hf', some_or, some_or, map_some, map_some, hid]
  | none =>
    rw [hns] at ih hf
    have hns' : lastLoop ns' = none := by simpa using ih nofun
    rw [hns', none_or, none_or]
    exact hcs fun f hn => hf f (by rw [none_or, hn])

/-- A search that finds no loop with an else part finds the same loop after the change. -/
theorem lastLoop_eq (h : Lowered l w p ns ns') (hf : ∀ f, lastLoop ns = some f → f.parted = false) :
    (lastLoop ns').map (·.id) = (lastLoop ns).map (·.id) := by
  induction h with
  | nil => rfl
  | @simple _ _ _ n _ _ _ _ _ ih | @leave _ _ n _ _ _ _ ih | @again _ _ _ n _ _ _ _ ih =>
    exact lastLoop_eq_cons [n] hf ih fun _ => by rw [lastLoop_singleton]
  | @leaveMarked n m _ _ _ hm _ ih =>
    refine lastLoop_eq_cons [m, n] hf ih fun _ => ?_
    rw [lastLoop, lastLoop_singleton, loopOf_leaf (isLeaf_of_setsMark hm), or_none]
  | @cond _ _ _ n n' _ _ _ _ _ _ _ hn hn' _ _ _ _ _ ihbody _ ih =>
    refine lastLoop_eq_cons [n'] hf ih fun hunparted => ?_
    rw [lastLoop_singleton, loopOf_cond hn', loopOf_cond hn]
    exact ihbody fun f hf => hunparted f (by rw [loopOf_cond hn, hf])
  | @loop _ _ _ n n' _ _ _ _ _ hid hn hn' _ _ _ _ ih =>
    refine lastLoop_eq_cons [n'] hf ih fun _ => ?_
    rw [lastLoop_singleton, loopOf_loop hn, loopOf_loop hn', map_some, map_some, hid]
  | @loopElse _ n n' m b _ _ _ _ _ _ _ _ _ hn _ hne _ _ _ _ _ _ _ _ _ ih =>
    refine lastLoop_eq_cons [m, n', b] hf ih fun hunparted => ?_
    have hn' := hunparted n (loopOf_loop hn)
    simp [parted, elsePart_loop hn, hne] at hn'

end Lowered

theorem Regular.within {f : Node} (h : Regular ns) (hf : lastLoop ns = some f) : ∃ n ∈ ns, f.Within n := by
  induction h with
  | nil => cases hf
  | leaf hn _ ih =>
    rw [lastLoop, loopOf_leaf hn, or_none] at hf
    exact exists_mem_cons_of_exists (ih hf)
  | @cond n test body orelse ns hn _ _ _ ihbody ih =>
    rw [lastLoop, loopOf_cond hn] at hf
    rcases or_eq_some_iff.1 hf with hf | ⟨_, hf⟩
    · exact exists_mem_cons_of_exists (ih hf)
    · obtain ⟨m, hm, hwithin⟩ := ihbody hf
      exact ⟨n, mem_cons_self, .part (by simp [children, hn, Shape.children, hm]) hwithin⟩
  | @loop n _ _ _ ns hn _ ih =>
    rw [lastLoop, loopOf_loop hn] at hf
    rcases or_eq_some_iff.1 hf with hf | ⟨_, hf⟩
    · exact exists_mem_cons_of_exists (ih hf)
    · cases hf
      exact ⟨_, mem_cons_self, .self⟩

end Polyglot
