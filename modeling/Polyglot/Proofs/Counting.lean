import Polyglot.Proofs.Findings

/-!
# Variables that change

The variables of a function that change are counted afresh whenever the pass comes upon the function. A count that only
looks whether it finds what is known goes the same way as one that takes notes, as long as the notes say nothing new.
-/
namespace Polyglot

open Session Effect List Facts

/-- What is known of where things are defined and of the variables that change. -/
def Facts.counting (f : Facts) : Facts × Option (List (Option String)) := (f.places, f.mutableVars)

/-- The parts of a node that are set by it. They are gone through before all of its parts are. -/
def Session.setBy (s : Session) (n : Node) : List Node :=
  match n.shape with
  | .assign targets _ =>
    match targets.head? with
    | none => []
    | some target =>
      match (s.now target).shape with
      | .tuple es _ => es ++ [s.now target]
      | _ => [s.now target]
  | .augAssign target _ _ | .annAssign target _ _ _ => [target]
  | _ => []

/-- The functions at and below a node, in the order in which the count of their variables ends. -/
def Session.counted (s : Session) : Nat → Node → List NodeId
  | 0, _ => []
  | k + 1, n =>
    match n.shape with
    | .functionDef _ => (n.children.flatMap fun c => s.counted k (s.now c)) ++ [n.id]
    | _ => (s.setBy n ++ n.children).flatMap fun c => s.counted k (s.now c)

namespace Mutation

theorem looks_parametersOf (n : Node) : Looks counting (parametersOf n) := by
  unfold parametersOf
  split
  · refine (looks_current _).bind fun c => ?_
    split <;> exact .pure _
  · refine (looks_current _).bind fun c => ?_
    split <;> exact .pure _
  · exact .throw
  · exact .pure _

theorem changedIn_ok (s : Session) (id : NodeId) : changedIn id s = .ok (s.known id).mutableVars s := rfl

theorem looks_changedIn (id : NodeId) : Looks counting (changedIn id) := by
  intro s s' a t hs h
  cases h
  rw [changedIn_ok, (Prod.mk.inj (hs.view_eq id)).2]
  exact ⟨rfl, rfl⟩

/-- A relation between two ways of counting that goes on from step to step. It is about sessions with the nodes of a given
one, and says for the count of which functions it is that they differ. -/
structure Counted (s : Session) (P : {α : Type} → List NodeId → Counting α → Counting α → Prop) : Prop where
  bind : ∀ {α β : Type} {l l' : List NodeId} {x y : Counting α} {f g : α → Counting β},
    P l x y → (∀ a, P l' (f a) (g a)) → P (l ++ l') (x >>= f) (y >>= g)
  looks : ∀ {α : Type} {x : Analysis α}, Looks counting x → P [] (liftM x : Counting α) (liftM x : Counting α)
  current : ∀ {α : Type} {l : List NodeId} {c : Node} {f g : Node → Counting α},
    P l (f (s.now c)) (g (s.now c)) → P l (liftM (Session.current c) >>= f) (liftM (Session.current c) >>= g)
  uses : ∀ {α : Type} (f : Uses → α × Uses), P [] (fun u => pure (f u)) (fun u => pure (f u))

namespace Counted

variable {s : Session} {P : {α : Type} → List NodeId → Counting α → Counting α → Prop} {α β : Type} {l : List NodeId}

theorem ite {c : Prop} [Decidable c] {x y x' y' : Counting α} (hx : P l x y) (hx' : P l x' y') :
    P l (if c then x else x') (if c then y else y') := by
  by_cases hc : c
  · simpa only [if_pos hc] using hx
  · simpa only [if_neg hc] using hx'

variable (h : Counted s P)
include h

theorem pure (a : α) : P [] (Pure.pure a) (Pure.pure a) := h.uses fun u => (a, u)

theorem first {x y : Counting α} {f g : α → Counting β} (hx : P [] x y) (hf : ∀ a, P l (f a) (g a)) :
    P l (x >>= f) (y >>= g) := h.bind hx hf

theorem forM {f g : α → Counting Unit} {ls : α → List NodeId} (hf : ∀ a, P (ls a) (f a) (g a))
    (as : List α) : P (as.flatMap ls) (as.forM f) (as.forM g) := by
  induction as with
  | nil => exact h.pure ()
  | cons a as ih =>
    exact h.bind (hf a) fun _ => ih

theorem forIn {f g : α → PUnit → Counting (ForInStep PUnit)} (hf : ∀ a b, P [] (f a b) (g a b))
    (as : List α) : P [] (ForIn.forIn as ⟨⟩ f) (ForIn.forIn as ⟨⟩ g) := by
  induction as with
  | nil => exact h.pure _
  | cons a as ih =>
    rw [forIn_cons, forIn_cons]
    refine h.first (hf a _) fun r => ?_
    cases r with
    | done b => exact h.pure b
    | yield b => exact ih

theorem use (name : Option String) : P [] (Mutation.use name) (Mutation.use name) :=
  h.uses fun u => ((), u.add name)

theorem useHanded (d : Option Node) (args : List Node) :
    P [] (Mutation.useHanded d args) (Mutation.useHanded d args) := by
  cases d with
  | none => exact h.pure ()
  | some d =>
    refine h.first (h.looks (looks_parametersOf d)) fun params => ?_
    cases params with
    | none => exact h.pure ()
    | some params =>
      refine h.first (h.looks (looks_changedIn d.id)) fun changed => ?_
      cases changed with
      | none => exact h.pure ()
      | some changed =>
        refine h.first (h.forIn (fun a _ => ?_) _) fun _ => h.pure _
        exact Counted.ite (h.current (h.first (h.use _) fun _ => h.pure _)) (h.pure _)

variable {finish finish' : Node → List (Option String) → Analysis Unit} {self self' : Bool × Node → Counting Unit}
  {k : Nat} (hfinish : ∀ n changed, P [n.id] (liftM (finish n changed)) (liftM (finish' n changed)))
include hfinish

theorem step (hself : ∀ b c, P (s.counted k c) (self (b, c)) (self' (b, c))) (b : Bool) (n : Node) :
    P (s.counted (k + 1) n) (Mutation.step finish self (b, n)) (Mutation.step finish' self' (b, n)) := by
  have hvisit (b : Bool) (c : Node) : P (s.counted k (s.now c)) (do self (b, ← (Session.current c : Analysis Node)))
      (do self' (b, ← (Session.current c : Analysis Node))) := h.current (hself b _)
  have hall (b : Bool) (cs : List Node) : P (cs.flatMap fun c => s.counted k (s.now c))
      (cs.forM fun c => do self (b, ← (Session.current c : Analysis Node)))
      (cs.forM fun c => do self' (b, ← (Session.current c : Analysis Node))) := h.forM (hvisit b) cs
  obtain ⟨id, line, col, shape⟩ := n
  have hbelow := hall b (Node.children ⟨id, line, col, shape⟩)
  cases shape with
  | functionDef f =>
    exact h.first (h.uses fun _ => ((), [])) fun _ => h.bind hbelow fun _ =>
      h.first (h.uses fun u => (u, u)) fun _ => hfinish _ _
  | assign targets value =>
    unfold Session.counted Session.setBy Mutation.step
    dsimp only
    cases targets.head? with
    | none => exact hbelow
    | some target =>
      dsimp only
      refine h.current ?_
      generalize s.now target = c
      have hrest := h.bind (hvisit true c) fun _ => hbelow
      cases hshape : c.shape with
      | tuple es u =>
        rw [flatMap_append, flatMap_append, flatMap_singleton, append_assoc]
        exact h.bind (hall true es) fun _ => hrest
      | _ => exact hrest
  | augAssign target | annAssign target => exact h.bind (hvisit true target) fun _ => hbelow
  | name x u => exact Counted.ite (h.use _) (h.pure ())
  | call func args keywords =>
    refine h.first (h.looks (looks_current func)) fun c => ?_
    have hπ (x y : Facts) (h : x.counting = y.counting) : x.places = y.places := (Prod.mk.inj h).1
    refine h.first (h.looks ((looks_chainOf hπ _).bind fun chain => looks_find hπ chain _)) fun d => ?_
    refine h.first (h.useHanded d args) fun _ => ?_
    split
    · exact h.first (h.looks (looks_current _)) fun c => h.first (h.use _) fun _ => hbelow
    · exact hbelow
  | _ => exact hbelow

variable (finish) in
theorem tie (k : Nat) (b : Bool) (n : Node) : P (s.counted k n)
      (Polyglot.tie (Mutation.step finish) (fun _ => (fail .tooDeep : Analysis Unit)) k (b, n))
      (Polyglot.tie (Mutation.step finish') (fun _ => (fail .tooDeep : Analysis Unit)) k (b, n)) := by
  induction k generalizing b n with
  | zero => exact h.looks .throw
  | succ k ih => exact h.step hfinish ih b n

end Counted

/-! ### Counts that take notes -/

section

variable {α β : Type} {s t : Session} {u : Uses} {f : α → Counting β} {x : Counting α}

theorem counting_eq_ok {b : β × Uses} (h : (x >>= f) u s = .ok b t) :
    ∃ a v r, x u s = .ok (a, v) r ∧ f a v r = .ok b t := by
  obtain ⟨⟨a, v⟩, r, hx, hf⟩ := bind_eq_ok.1 h
  exact ⟨a, v, r, hx, hf⟩

theorem counting_ok {a : α} {v : Uses} (h : x u s = .ok (a, v) t) : (x >>= f) u s = f a v t := bind_ok h

theorem lift_eq_ok {x : Analysis α} {a : α × Uses} (h : (liftM x : Counting α) u s = .ok a t) :
    x s = .ok a.1 t ∧ a.2 = u := by
  obtain ⟨b, r, hx, ⟨⟩⟩ := bind_eq_ok.1 h
  exact ⟨hx, rfl⟩

theorem lift_ok {x : Analysis α} {a : α} (h : x s = .ok a t) : (liftM x : Counting α) u s = .ok (a, u) t := bind_ok h

theorem lift_current (c : Node) (f : Node → Counting α) : (liftM (current c) >>= f) u s = f (s.now c) u s := rfl

end

theorem run_eq_ok {finish : Node → List (Option String) → Analysis Unit} {n : Node} {s t : Session} :
    run finish n s = .ok () t ↔
      ∃ p, tie (step finish) (fun _ => (fail .tooDeep : Analysis Unit)) nestingLimit (false, s.now n) [] s = .ok p t := by
  have hrun : run finish n s = _ := bind_ok (current_ok s n)
  rw [hrun]
  constructor
  · intro h
    obtain ⟨p, r, hcount, ⟨⟩⟩ := bind_eq_ok.1 h
    exact ⟨p, hcount⟩
  · rintro ⟨p, hcount⟩
    exact (bind_ok hcount).trans rfl

/-- Only looks whether the variables of a function that change are known as such. -/
def compare (n : Node) (changed : List (Option String)) : Analysis Unit := do
  if (← changedIn n.id) = some changed then pure () else fail .missingPart

/-- The variables that are known to change are those that a count finds. -/
def Agrees (s : Session) (n : Node) : Prop := run compare n s = .ok () s

theorem compare_eq_ok {s t : Session} {n : Node} {changed : List (Option String)} {a : Unit} :
    compare n changed s = .ok a t ↔ (s.known n.id).mutableVars = some changed ∧ s = t := by
  unfold compare
  rw [bind_ok (changedIn_ok s n.id)]
  by_cases hchanged : (s.known n.id).mutableVars = some changed
  · rw [if_pos hchanged]
    constructor
    · intro h
      cases h
      exact ⟨hchanged, rfl⟩
    · rintro ⟨_, rfl⟩
      rfl
  · rw [if_neg hchanged]
    exact ⟨nofun, fun h => absurd h.1 hchanged⟩

/-- A step that takes notes of the variables that some functions change, and does nothing else. -/
structure Counts (l : List NodeId) (s s' : Session) : Prop where
  noted : Noted (fun f => { f with mutableVars := none }) s s'
  known_eq : ∀ id, id ∉ l → s'.known id = s.known id

namespace Counts

variable {l l' : List NodeId} {s s' s'' : Session}

theorem refl (s : Session) : Counts l s s := ⟨.refl s, fun _ _ => rfl⟩

theorem trans (h : Counts l s s') (h' : Counts l' s' s'') : Counts (l ++ l') s s'' where
  noted := h.noted.trans h'.noted
  known_eq id hid := by
    rw [mem_append, not_or] at hid
    rw [h'.known_eq id hid.2, h.known_eq id hid.1]

theorem of_note {id : NodeId} {changed : Option (List (Option String))}
    (h : note id ({ · with mutableVars := changed }) s = .ok () s') : Counts [id] s s' := by
  refine ⟨notes_note (fun f => ?_) s () s' h, fun i hi => ?_⟩
  · rfl
  cases h
  rw [known_note, if_neg fun heq => hi (mem_singleton.2 heq.symm)]

theorem same (h : Counts l s s') (hkept : ∀ id ∈ l, s'.known id = s.known id) : Noted (fun f => f) s s' := by
  refine ⟨h.noted.nodes_eq, h.noted.next_eq, h.noted.openScopes_eq, fun id => ?_⟩
  by_cases hid : id ∈ l
  · exact hkept id hid
  · exact h.known_eq id hid

end Counts

section

variable {α : Type} {s t t' : Session} {n : Node}

/-- Where a count that only looks comes to an end, a count that takes notes does so too, and changes nothing. -/
def Suffices (s : Session) (x y : Counting α) : Prop :=
  ∀ t u a s', Noted counting s t → x u s = .ok a s' → s = s' ∧ ∃ t', y u t = .ok a t' ∧ Noted (fun f => f) t t'

theorem counted_suffices (s : Session) : Counted s fun _ => Suffices s := by
  refine ⟨fun hx hf t u b s' ht h => ?_, fun hx t u a s' ht h => ?_, fun {_ _ c _ _} hf t u a s' ht h => ?_,
    fun f t u a s' ht h => ?_⟩
  · obtain ⟨a, v, r, hxs, hfr⟩ := counting_eq_ok h
    obtain ⟨rfl, t1, hy, ht1⟩ := hx t u (a, v) r ht hxs
    obtain ⟨rfl, t2, hg, ht2⟩ := hf a t1 v b s' (ht.trans (ht1.mono fun _ _ => congrArg counting)) hfr
    exact ⟨rfl, t2, (counting_ok hy).trans hg, ht1.trans ht2⟩
  · obtain ⟨hxs, rfl⟩ := lift_eq_ok h
    obtain ⟨rfl, hxt⟩ := hx s t _ _ ht hxs
    exact ⟨rfl, t, lift_ok hxt, .refl t⟩
  · rw [lift_current] at h
    obtain ⟨rfl, t', hg, ht'⟩ := hf t u a s' ht h
    refine ⟨rfl, t', ?_, ht'⟩
    rw [lift_current, ht.now_eq, hg]
  · cases h
    exact ⟨rfl, t, rfl, .refl t⟩

/-- A count takes notes for some functions. Where they say nothing new, a count that only looks comes to the same end. -/
def Confirms (s : Session) (l : List NodeId) (x y : Counting α) : Prop :=
  ∀ t u a t', t.nodes = s.nodes → y u t = .ok a t' → Counts l t t' ∧
    (Noted counting s t → l.Nodup → (∀ id ∈ l, t'.known id = t.known id) → x u s = .ok a s)

theorem counted_confirms (s : Session) : Counted s (Confirms s) := by
  refine ⟨fun hx hf t u b t' ht h => ?_, fun hx t u a t' _ h => ?_, fun {_ _ c _ _} hf t u a t' ht h => ?_,
    fun f t u a t' _ h => ?_⟩
  · obtain ⟨a, v, r, hyt, hgr⟩ := counting_eq_ok h
    obtain ⟨hcounts, hagrees⟩ := hx t u (a, v) r ht hyt
    obtain ⟨hcounts', hagrees'⟩ := hf a r v b t' (hcounts.noted.nodes_eq.trans ht) hgr
    refine ⟨hcounts.trans hcounts', fun hst hnodup hkept => ?_⟩
    obtain ⟨hnodup, hnodup', hapart⟩ := nodup_append'.1 hnodup
    obtain ⟨hkept, hkept'⟩ := forall_mem_append.1 hkept
    -- no later count touches what was noted before
    have hkept (id : NodeId) (hid : id ∈ _) : r.known id = t.known id :=
      (hcounts'.known_eq id (hapart hid)).symm.trans (hkept id hid)
    have hsame := hcounts.same hkept
    rw [counting_ok (hagrees hst hnodup hkept)]
    refine hagrees' (hst.trans (hsame.mono fun _ _ => congrArg counting)) hnodup' fun id hid => ?_
    exact (hkept' id hid).trans (hsame.view_eq id).symm
  · obtain ⟨hxt, rfl⟩ := lift_eq_ok h
    obtain ⟨rfl, -⟩ := hx t t _ _ (.refl t) hxt
    exact ⟨.refl _, fun hst _ _ => lift_ok (hx t' s _ _ hst.symm hxt).2⟩
  · have hnow : t.now c = s.now c := by rw [now, now, ht]
    rw [lift_current, hnow] at h
    exact hf t u a t' ht h
  · cases h
    exact ⟨.refl t, fun _ _ _ => rfl⟩

theorem suffices_compare (n : Node) (changed : List (Option String)) :
    Suffices s (liftM (compare n changed)) (liftM (note n.id ({ · with mutableVars := some changed }))) := by
  intro t u a s' ht h
  obtain ⟨hcompare, rfl⟩ := lift_eq_ok h
  obtain ⟨hchanged, rfl⟩ := compare_eq_ok.1 hcompare
  have hknown : (t.known n.id).mutableVars = some changed := (Prod.mk.inj (ht.view_eq n.id)).2.trans hchanged
  have hnote := note_ok t n.id ({ · with mutableVars := some changed })
  exact ⟨rfl, _, lift_ok hnote, noted_of_note (by rw [← hknown]) hnote⟩

theorem confirms_compare (n : Node) (changed : List (Option String)) :
    Confirms s [n.id] (liftM (compare n changed)) (liftM (note n.id ({ · with mutableVars := some changed }))) := by
  intro t u a t' _ h
  obtain ⟨hnote, rfl⟩ := lift_eq_ok h
  refine ⟨.of_note hnote, fun hst _ hkept => lift_ok (compare_eq_ok.2 ⟨?_, rfl⟩)⟩
  have hkept : t'.known n.id = t.known n.id := hkept n.id (mem_singleton_self _)
  rw [← (Prod.mk.inj (hst.view_eq n.id)).2, ← hkept]
  cases hnote
  rw [known_note, if_pos rfl]

/-- To count takes notes for the functions that there are, and where they say nothing new a count agrees. -/
theorem detect_confirms (hnodes : t.nodes = s.nodes) (h : detect n t = .ok () t') :
    Counts (s.counted nestingLimit (s.now n)) t t' ∧ (Noted counting s t → (s.counted nestingLimit (s.now n)).Nodup →
      (∀ id ∈ s.counted nestingLimit (s.now n), t'.known id = t.known id) → Agrees s n) := by
  obtain ⟨p, hcount⟩ := run_eq_ok.1 h
  have hnow : t.now n = s.now n := by rw [now, now, hnodes]
  rw [hnow] at hcount
  have hconfirms := (counted_confirms s).tie compare confirms_compare nestingLimit false (s.now n) t [] p t' hnodes hcount
  exact ⟨hconfirms.1, fun hst hnodup hkept => run_eq_ok.2 ⟨p, hconfirms.2 hst hnodup hkept⟩⟩

theorem notes_detect {γ : Type} {π : Facts → γ} (hπ : ∀ (f : Facts) mutableVars, π { f with mutableVars } = π f) (n : Node) :
    Notes π (detect n) := by
  intro s _ s' h
  refine (detect_confirms rfl h).1.noted.mono fun x y hxy => ?_
  rw [← hπ x none, hxy, hπ]

theorem detect_same (hagrees : Agrees s n) (ht : Noted counting s t) (h : detect n t = .ok () t') :
    Noted (fun f => f) t t' := by
  obtain ⟨p, hcompared⟩ := run_eq_ok.1 hagrees
  obtain ⟨p', hcount⟩ := run_eq_ok.1 h
  obtain ⟨_, t1, hcount', ht1⟩ :=
    (counted_suffices s).tie compare suffices_compare nestingLimit false (s.now n) t [] p s ht hcompared
  rw [← ht.now_eq] at hcount'
  obtain ⟨_, rfl⟩ := EStateM.Result.ok.inj (hcount'.symm.trans hcount)
  exact ht1

/-- If each function is counted once, the variables that are known to change stay the same if and only if a count agrees
with them. -/
theorem mutableVars_kept_iff (hnodup : (s.counted nestingLimit (s.now n)).Nodup) (ht : Noted counting s t)
    (h : detect n t = .ok () t') : (∀ id, (t'.known id).mutableVars = (t.known id).mutableVars) ↔ Agrees s n := by
  constructor
  · intro hkept
    obtain ⟨hcounts, hagrees⟩ := detect_confirms ht.nodes_eq h
    refine hagrees ht hnodup fun id _ => ?_
    have hview : { t'.known id with mutableVars := none } = { t.known id with mutableVars := none } := hcounts.noted.view_eq id
    calc t'.known id
      _ = { { t'.known id with mutableVars := none } with mutableVars := (t'.known id).mutableVars } := rfl
      _ = { { t.known id with mutableVars := none } with mutableVars := (t.known id).mutableVars } := by rw [hview, hkept]
      _ = t.known id := rfl
  · intro hagrees id
    rw [show t'.known id = t.known id from (detect_same hagrees ht h).view_eq id]

end

end Mutation
end Polyglot
