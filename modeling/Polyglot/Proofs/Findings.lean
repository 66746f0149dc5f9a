import Polyglot.Proofs.Noting

/-!
# What the passes find

Two passes add to what is known instead of finding it out anew. Calls that add to a list are appended to those that are
known of the list already. A function that can fail is marked, and no mark is ever taken back.
-/
namespace Polyglot

open Session Effect Scope List ListGrowth Facts EStateM.Result

variable {n : Node} {self : Node → Analysis Unit} {j : Nat} {id : NodeId}

/-- What is known of where things are defined. -/
def Facts.places (f : Facts) : Facts :=
  { scopes := f.scopes, vars := f.vars, bodyVars := f.bodyVars, elseVars := f.elseVars, assignedFrom := f.assignedFrom }

theorem Facts.of_places {x y : Facts} (h : x.places = y.places) :
    x.scopes = y.scopes ∧ x.vars = y.vars ∧ x.bodyVars = y.bodyVars ∧ x.elseVars = y.elseVars ∧
      x.assignedFrom = y.assignedFrom := by
  simpa [places] using h

namespace Session

/-! ### Looking -/

/-- A computation that changes nothing, and looks at nothing but nodes and what a view shows of them. -/
def Looks {α γ : Type} (π : Facts → γ) (x : Analysis α) : Prop :=
  ∀ s s' a t, Noted π s s' → x s = .ok a t → t = s ∧ x s' = .ok a s'

section

variable {α β γ : Type} {π : Facts → γ} {x : Analysis α} {f : α → Analysis β}

namespace Looks

theorem pure (a : α) : Looks π (Pure.pure a : Analysis α) := by
  intro s s' b t _ h
  cases h
  exact ⟨rfl, rfl⟩

theorem throw {e : Fault} : Looks π (throw e : Analysis α) := nofun

theorem bind (hx : Looks π x) (hf : ∀ a, Looks π (f a)) : Looks π (x >>= f) := by
  intro s s' b t hs h
  obtain ⟨a, u, hxs, hfu⟩ := bind_eq_ok.1 h
  obtain ⟨rfl, hxs'⟩ := hx s s' a u hs hxs
  obtain ⟨rfl, hfs'⟩ := hf a u s' b t hs hfu
  exact ⟨rfl, (bind_ok hxs').trans hfs'⟩

theorem mapM (hf : ∀ a, Looks π (f a)) (as : List α) : Looks π (as.mapM f) :=
  Sequential.mapM (P := Looks π) ⟨pure, bind⟩ fun a _ => hf a

end Looks

theorem looks_current (n : Node) : Looks π (current n) := by
  intro s s' a t hs h
  cases h
  exact ⟨rfl, congrArg (ok · s') (hs.now_eq n)⟩

theorem looks_nodeOf (id : NodeId) : Looks π (nodeOf id) := by
  intro s s' a t hs h
  cases h
  exact ⟨rfl, congrArg (ok · s') (hs.content_eq id)⟩

/-- What is done with facts relies on what the view shows of them. -/
theorem looks_facts {f : Facts → Analysis α} (hview : ∀ x y, π x = π y → f x = f y) (hf : ∀ x, Looks π (f x)) :
    Looks π (factsOf id >>= f) := by
  intro s s' a t hs h
  rw [bind_ok (factsOf_ok s' id), hview _ _ (hs.view_eq id)]
  exact hf _ s s' a t hs h

variable (hπ : ∀ x y, π x = π y → x.places = y.places)

include hπ

theorem looks_chainOf (n : Node) : Looks π (Scope.chainOf n) := by
  refine looks_facts (fun x y h => ?_) fun x => ?_
  · rw [(of_places (hπ x y h)).1]
  · split
    · exact .pure _
    · exact .throw

theorem looks_find (chain : List NodeId) (name : Option String) : Looks π (Scope.find chain name) := by
  intro s s' a t hs h
  rw [find_ok] at h ⊢
  cases h
  refine ⟨rfl, congrArg (ok · s') (seen_congr fun id _ => ⟨?_, fun i _ => hs.content_eq i⟩)⟩
  obtain ⟨_, hvars, hbody, helse, _⟩ := of_places (hπ _ _ (hs.view_eq id))
  rw [tables, tables, hvars, hbody, helse]

theorem looks_addedTo? (n : Node) : Looks π (addedTo? n) := by
  have hgrown : Looks π (grown? n) := by
    unfold grown?
    split
    · refine (looks_current _).bind fun func => ?_
      split
      · refine (looks_current _).bind fun value => ?_
        split <;> exact .pure _
      · exact .pure _
    · exact .pure _
  have hstored (n : Node) : Looks π (isStored n) := by
    unfold isStored
    split <;> first
      | exact of_ite .throw (.pure _)
      | exact .throw
  have hlist (n : Node) : Looks π (isListAssignment n) := by
    unfold isListAssignment
    split
    · refine (looks_current _).bind fun value => of_ite ?_ (.pure _)
      split
      · exact (looks_current _).bind fun t => hstored t
      · exact .throw
    · exact .pure _
  refine hgrown.bind fun name => ?_
  split
  · exact .pure _
  · refine (looks_chainOf hπ n).bind fun chain => (looks_find hπ chain _).bind fun var => ?_
    split
    · exact .pure _
    · refine looks_facts (fun x y h => ?_) fun x => ?_
      · rw [(of_places (hπ x y h)).2.2.2.2]
      · split
        · exact .throw
        · exact (looks_nodeOf _).bind fun source => (hlist source).bind fun _ => .pure _

end

/-! ### Lists that grow -/

def addedTo (s : Session) (n : Node) : Option NodeId :=
  match addedTo? n s with
  | .ok var _ => var
  | .error _ _ => none

/-- The calls that add to lists, each with its list. The pass does not look for any inside of calls. -/
def additions (s : Session) : Nat → Node → List (NodeId × NodeId)
  | 0, _ => []
  | k + 1, n =>
    if n.isCall then (s.addedTo n).toList.map (·, n.id) else n.children.flatMap fun c => s.additions k (s.now c)

def callsTo (var : NodeId) (js : List (NodeId × NodeId)) : List NodeId :=
  js.filterMap fun j => if j.1 = var then some j.2 else none

def grown (old : Option (List NodeId)) (new : List NodeId) : Option (List NodeId) :=
  if new = [] then old else some (old.getD [] ++ new)

theorem grown_append (old : Option (List NodeId)) (new new' : List NodeId) :
    grown (grown old new) new' = grown old (new ++ new') := by
  unfold grown
  by_cases h : new = []
  · simp [h]
  · by_cases h' : new' = []
    · simp [h']
    · simp [h, h', append_assoc]

theorem grown_eq_self_iff {old : Option (List NodeId)} {new : List NodeId} : grown old new = old ↔ new = [] := by
  unfold grown
  constructor
  · intro h
    split at h
    · assumption
    · have hlength := congrArg (fun o : Option (List NodeId) => (o.getD []).length) h
      simpa using hlength
  · exact fun h => if_pos h

/-- A step that appends calls to those that are known, and does nothing else. -/
structure Appends (js : List (NodeId × NodeId)) (s s' : Session) : Prop where
  noted : Noted (fun f => { f with calls := none }) s s'
  calls_eq : ∀ var, (s'.known var).calls = grown (s.known var).calls (callsTo var js)

namespace Appends

variable {js js' : List (NodeId × NodeId)} {s s' s'' : Session}

theorem refl (s : Session) : Appends [] s s := ⟨.refl s, fun _ => rfl⟩

theorem trans (h : Appends js s s') (h' : Appends js' s' s'') : Appends (js ++ js') s s'' where
  noted := h.noted.trans h'.noted
  calls_eq var := by rw [h'.calls_eq, h.calls_eq, grown_append, callsTo, callsTo, callsTo, filterMap_append]

theorem of_note {var call : NodeId} (h : note var (fun f => { f with calls := some (f.calls.getD [] ++ [call]) }) s = .ok () s') :
    Appends [(var, call)] s s' := by
  refine ⟨notes_note (fun f => ?_) s () s' h, fun i => ?_⟩
  · rfl
  rw [note_ok] at h
  cases h
  rw [known_note]
  by_cases hi : var = i <;> simp [hi, callsTo, grown]

end Appends

theorem Appends.places {js : List (NodeId × NodeId)} {s s' : Session} (h : Appends js s s') : Noted places s s' :=
  h.noted.mono fun _ _ h => (congrArg Facts.places h :)

abbrev collectFrom (j : Nat) : Node → Analysis Unit := tie step (fun _ => (fail .tooDeep : Analysis Unit)) j

theorem collectFrom_appends {s t t' : Session} (ht : Noted places s t) (hrun : collectFrom j n t = .ok () t') :
    Appends (s.additions j n) t t' := by
  induction j generalizing n t t' with
  | zero => cases hrun
  | succ j ih =>
    have heach (cs : List Node) {t : Session} (ht : Noted places s t) (hrun : Pass.each (collectFrom j) cs t = .ok () t') :
        Appends (cs.flatMap fun c => s.additions j (s.now c)) t t' := by
      induction cs generalizing t with
      | nil =>
        cases hrun
        exact .refl _
      | cons c cs ihcs =>
        obtain ⟨u, hc, hrun⟩ := each_cons_eq_ok.1 hrun
        have hu := ih ht (ht.now_eq c ▸ hc)
        exact hu.trans (ihcs (ht.trans hu.places) hrun)
    obtain ⟨_, _, _, shape⟩ := n
    cases shape with
    | call =>
      obtain ⟨var, u, hvar, hrun⟩ := bind_eq_ok.1 hrun
      obtain ⟨rfl, hseen⟩ := looks_addedTo? (fun _ _ h => h) _ t s var u ht.symm hvar
      change Appends ((s.addedTo _).toList.map (·, _)) u t'
      rw [addedTo, hseen]
      cases var with
      | none =>
        cases hrun
        exact .refl _
      | some var => exact .of_note hrun
    | _ => exact heach _ ht hrun

theorem collect_appends {s s' : Session} (h : collect n s = .ok () s') :
    Appends (s.additions nestingLimit (s.now n)) s s' := by
  obtain ⟨c, t, ⟨⟩, hrun⟩ := bind_eq_ok.1 h
  exact collectFrom_appends (.refl s) hrun

/-! ### Functions that can fail -/

def functionAround (s : Session) (n : Node) : Option Node :=
  (s.scopesOf n.id).bind fun chain => (chain.map s.content).find? Node.isFunction

/-- What a name stands for, seen from outside the innermost scope or else from inside. -/
def seenOutward (s : Session) (name : Option String) (chain : List NodeId) : Option Node :=
  (s.seen name chain.dropLast).or (s.seen name chain)

/-- A node at which the function around it can fail: an assertion, or a call of what can fail. -/
def MayFail (s : Session) (n : Node) : Prop :=
  match n.shape with
  | .assert .. => True
  | .call func .. => ∃ chain d, s.scopesOf n.id = some chain ∧ s.seenOutward (s.now func).ident? chain = some d ∧
      (s.known d.id).raises = true
  | _ => False

/-- The functions at and below a node that can fail are marked, as far as the marks that there are tell. -/
def RaisesClosed (s : Session) : Nat → Node → Prop
  | 0, _ => True
  | k + 1, n => (s.MayFail n → ∀ f, s.functionAround n = some f → (s.known f.id).raises = true) ∧
      ∀ c ∈ n.children, s.RaisesClosed k (s.now c)

/-! What is marked by one pass is what comes of going over the nodes in turn. -/

def marks (s : Session) (id : NodeId) : Prop := (s.known id).raises = true

def callee (s : Session) (n : Node) : Option NodeId :=
  match n.shape with
  | .call func .. => ((s.scopesOf n.id).bind (s.seenOutward (s.now func).ident?)).map (·.id)
  | _ => none

/-- The function around a node can fail there, if certain functions can fail. -/
def FailsBy (s : Session) (M : NodeId → Prop) (n : Node) : Prop :=
  (n.shape matches .assert ..) ∨ ∃ id, s.callee n = some id ∧ M id

def Closed (s : Session) (M : NodeId → Prop) (n : Node) : Prop := s.FailsBy M n → ∀ f, s.functionAround n = some f → M f.id

/-- To look at a node adds the function around it to those that can fail, if it can fail there. -/
def look (s : Session) (M : NodeId → Prop) (n : Node) (id : NodeId) : Prop :=
  M id ∨ s.FailsBy M n ∧ ∃ f, s.functionAround n = some f ∧ f.id = id

/-- The parts of a node that the pass goes to before it looks at the node itself. -/
def ahead (n : Node) : List Node :=
  match n.shape with
  | .call func .. => [func]
  | _ => []

/-- The nodes at and below a node, in the order in which the pass looks at them. -/
def lookedAt (s : Session) : Nat → Node → List Node
  | 0, _ => []
  | k + 1, n => (ahead n).flatMap (fun c => s.lookedAt k (s.now c)) ++
      n :: n.children.flatMap fun c => s.lookedAt k (s.now c)

section

variable {s s' t t' : Session} {n : Node} {ns : List Node} {self : Node → Analysis Unit} {k : Nat} {M N : NodeId → Prop}

theorem mayFail_iff : s.MayFail n ↔ s.FailsBy s.marks n := by
  obtain ⟨_, _, _, shape⟩ := n
  cases shape with
  | call func args keywords =>
    simp only [MayFail, FailsBy, callee, marks, Option.map_eq_some_iff, Option.bind_eq_some_iff]
    grind
  | _ => simp [MayFail, FailsBy, callee]

theorem mem_children_of_ahead {c : Node} (h : c ∈ ahead n) : c ∈ n.children := by
  obtain ⟨_, _, _, shape⟩ := n
  cases shape with
  | call func args keywords => exact mem_singleton.1 h ▸ mem_cons_self
  | _ => cases h

theorem raisesClosed_iff : s.RaisesClosed k n ↔ ∀ m ∈ s.lookedAt k n, s.Closed s.marks m := by
  induction k generalizing n with
  | zero => exact iff_of_true trivial nofun
  | succ k ih =>
    simp only [RaisesClosed, lookedAt, ih, mem_append, mem_cons, mem_flatMap, mayFail_iff]
    constructor
    · rintro ⟨hn, hparts⟩ m (⟨c, hc, hm⟩ | rfl | ⟨c, hc, hm⟩)
      · exact hparts c (mem_children_of_ahead hc) m hm
      · exact hn
      · exact hparts c hc m hm
    · exact fun h => ⟨h n (.inr (.inl rfl)), fun c hc m hm => h m (.inr (.inr ⟨c, hc, hm⟩))⟩

/-! ### Marks in turn -/

theorem foldl_look_of_marked {id : NodeId} (h : M id) : ns.foldl s.look M id := by
  induction ns generalizing M with
  | nil => exact h
  | cons n ns ih => exact ih (.inl h)

/-- What is marked in turn is among whatever is closed. -/
theorem foldl_look_subset (hM : ∀ id, M id → N id) (hN : ∀ m ∈ ns, s.Closed N m) :
    ∀ id, ns.foldl s.look M id → N id := by
  induction ns generalizing M with
  | nil => exact hM
  | cons n ns ih =>
    obtain ⟨hn, hns⟩ := forall_mem_cons.1 hN
    refine ih (fun id h => ?_) hns
    rcases h with h | ⟨hfails, f, hf, rfl⟩
    · exact hM id h
    · exact hn (hfails.imp_right fun ⟨id, hid, h⟩ => ⟨id, hid, hM id h⟩) f hf

theorem foldl_look_eq_iff : ns.foldl s.look M = M ↔ ∀ m ∈ ns, s.Closed M m := by
  constructor
  · intro h
    induction ns with
    | nil => nofun
    | cons n ns ih =>
      have hlook : s.look M n = M := by
        refine funext fun id => propext ⟨fun hid => ?_, .inl⟩
        rw [← h, foldl_cons]
        exact foldl_look_of_marked hid
      refine forall_mem_cons.2 ⟨fun hfails f hf => ?_, ih (by rwa [foldl_cons, hlook] at h)⟩
      exact hlook ▸ .inr ⟨hfails, f, hf, rfl⟩
  · exact fun h => funext fun id => propext ⟨foldl_look_subset (fun _ h => h) h id, foldl_look_of_marked⟩

/-! ### The pass -/

namespace Noted

variable (h : Noted Facts.places s s')

include h

theorem scopesOf_eq (id : NodeId) : s'.scopesOf id = s.scopesOf id := (of_places (h.view_eq id)).1

theorem seen_eq (name : Option String) (chain : List NodeId) : s'.seen name chain = s.seen name chain := by
  have hseen := looks_find (fun _ _ h => h) chain name s s' _ s h find_ok
  rw [find_ok] at hseen
  exact (ok.inj hseen.2).1

theorem callee_eq (n : Node) : s'.callee n = s.callee n := by
  have houtward (name : Option String) : s'.seenOutward name = s.seenOutward name := funext fun chain => by
    rw [seenOutward, seenOutward, h.seen_eq, h.seen_eq]
  unfold callee
  split
  · rw [houtward, h.scopesOf_eq, h.now_eq]
  · rfl

theorem look_eq : s'.look = s.look := by
  have hfails : s'.FailsBy = s.FailsBy := funext₂ fun M n => by rw [FailsBy, FailsBy, h.callee_eq]
  funext M n id
  rw [look, look, hfails, functionAround, functionAround, h.scopesOf_eq, funext h.content_eq]

theorem lookedAt_eq (k : Nat) (n : Node) : s'.lookedAt k n = s.lookedAt k n := by
  induction k generalizing n with
  | zero => rfl
  | succ k ih => simp only [lookedAt, ih, h.now_eq]

end Noted

theorem functionOf_ok (chain : List NodeId) :
    Scope.functionOf chain s = .ok ((chain.map s.content).find? Node.isFunction) s := by
  induction chain with
  | nil => rfl
  | cons id chain ih =>
    refine (bind_ok (nodeOf_ok s id)).trans ?_
    rw [map_cons, find?_cons]
    cases h : (s.content id).isFunction with
    | true => rfl
    | false => exact ih

theorem findOutward_eq_ok {chain : List NodeId} {name : Option String} {d : Option Node}
    (h : Scope.findOutward chain name s = .ok d s') : s.seenOutward name chain = d ∧ s = s' := by
  obtain ⟨outer, t, houter, h⟩ := bind_eq_ok.1 h
  obtain ⟨rfl, rfl⟩ : chain.dropLast = outer ∧ s = t := by
    unfold Scope.outer at houter
    split at houter
    · cases houter
    · cases houter
      exact ⟨rfl, rfl⟩
  rw [bind_ok find_ok] at h
  rw [seenOutward]
  cases hseen : s.seen name chain.dropLast with
  | some c =>
    rw [hseen] at h
    cases h
    exact ⟨rfl, rfl⟩
  | none =>
    rw [hseen] at h
    dsimp only at h
    rw [find_ok] at h
    cases h
    exact ⟨rfl, rfl⟩

/-- A run that changes marks only, to certain marks. -/
structure Marked (M : NodeId → Prop) (s s' : Session) : Prop where
  noted : Noted (fun f => { f with raises := false }) s s'
  marks_eq : s'.marks = M

theorem Marked.places (h : Marked M s s') : Noted Facts.places s s' := h.noted.mono fun _ _ h => (congrArg Facts.places h :)

theorem Marked.trans (h : Marked M s s') (h' : Marked N s' t) : Marked N s t := ⟨h.noted.trans h'.noted, h'.marks_eq⟩

theorem marked_of_not (h : ¬ s.FailsBy s.marks n) : Marked (s.look s.marks n) s s :=
  ⟨.refl s, funext fun id => propext (by simp [look, h])⟩

theorem marked_of_mark (hfails : s.FailsBy s.marks n) (h : Raising.mark n s = .ok () s') :
    Marked (s.look s.marks n) s s' := by
  obtain ⟨chain, t, hchain, h⟩ := bind_eq_ok.1 h
  obtain ⟨hscopes, rfl⟩ := chainOf_eq_ok.1 hchain
  have haround : s.functionAround n = (chain.map s.content).find? Node.isFunction := by
    rw [functionAround, scopesOf, ← known, hscopes, Option.bind_some]
  rw [bind_ok (functionOf_ok chain), ← haround] at h
  cases hf : s.functionAround n with
  | none =>
    rw [hf] at h
    cases h
    exact ⟨.refl s, funext fun id => propext (by simp [look, hf])⟩
  | some f =>
    rw [hf] at h
    replace h : note f.id ({ · with raises := true }) s = .ok () s' := h
    refine ⟨notes_note (fun f => ?_) s () s' h, funext fun id => propext ?_⟩
    · rfl
    · rw [note_ok] at h
      cases h
      rw [marks, known_note, look]
      by_cases hid : f.id = id
      · simp [hid, hf, hfails]
      · simp [hid, hf, marks]

/-- What a pass does at a node: it goes to some parts first, looks at the node, and goes on below. -/
theorem raising_step (h : Raising.step self n s = .ok () s') :
    ∃ t t', Pass.each self (ahead n) s = .ok () t ∧ Marked (t.look t.marks n) t t' ∧ Pass.below self n t' = .ok () s' := by
  obtain ⟨id, line, col, shape⟩ := n
  cases shape with
  | assert test msg =>
    obtain ⟨_, t, hmark, hbelow⟩ := bind_eq_ok.1 h
    exact ⟨s, t, rfl, marked_of_mark (.inl rfl) hmark, hbelow⟩
  | call func args keywords =>
    obtain ⟨c, _, ⟨⟩, h⟩ := bind_eq_ok.1 h
    obtain ⟨_, t, hself, h⟩ := bind_eq_ok.1 h
    obtain ⟨chain, _, hchain, h⟩ := bind_eq_ok.1 h
    obtain ⟨hscopes, rfl⟩ := chainOf_eq_ok.1 hchain
    obtain ⟨c, _, ⟨⟩, h⟩ := bind_eq_ok.1 h
    obtain ⟨d, _, hd, h⟩ := bind_eq_ok.1 h
    obtain ⟨hseen, rfl⟩ := findOutward_eq_ok hd
    have hcallee : t.callee ⟨id, line, col, .call func args keywords⟩ = d.map (·.id) := by
      rw [callee, show t.scopesOf id = some chain from hscopes, ← hseen]
      rfl
    refine ⟨t, ?_⟩
    have hahead : Pass.each self [func] s = .ok () t := each_cons_eq_ok.2 ⟨t, hself, rfl⟩
    cases d with
    | none => exact ⟨t, hahead, marked_of_not (by simp [FailsBy, hcallee]), h⟩
    | some d =>
      obtain ⟨f, _, hfacts, h⟩ := bind_eq_ok.1 h
      obtain ⟨rfl, rfl⟩ := ok.inj ((factsOf_ok t d.id).symm.trans hfacts)
      cases hraises : (t.known d.id).raises with
      | true =>
        rw [if_pos hraises] at h
        obtain ⟨_, t', hmark, hbelow⟩ := bind_eq_ok.1 h
        exact ⟨t', hahead, marked_of_mark (.inr ⟨d.id, hcallee, hraises⟩) hmark, hbelow⟩
      | false =>
        rw [if_neg (by simp [hraises])] at h
        exact ⟨t, hahead, marked_of_not (by simp [FailsBy, hcallee, marks, hraises]), h⟩
  | _ => exact ⟨s, s, rfl, marked_of_not (by simp [FailsBy, callee]), h⟩

abbrev raisingFrom (j : Nat) : Node → Analysis Unit := tie Raising.step (fun _ => (fail .tooDeep : Analysis Unit)) j

theorem raisingFrom_marked (ht : Noted places s t) (hrun : raisingFrom j n t = .ok () t') :
    Marked ((s.lookedAt j n).foldl s.look t.marks) t t' := by
  induction j generalizing n t t' with
  | zero => cases hrun
  | succ j ih =>
    have heach (cs : List Node) {t t' : Session} (ht : Noted places s t)
        (hrun : Pass.each (raisingFrom j) cs t = .ok () t') :
        Marked ((cs.flatMap fun c => s.lookedAt j (s.now c)).foldl s.look t.marks) t t' := by
      induction cs generalizing t with
      | nil =>
        cases hrun
        exact ⟨.refl _, rfl⟩
      | cons c cs ihcs =>
        obtain ⟨u, hself, hrun⟩ := each_cons_eq_ok.1 hrun
        have hu := ih ht (ht.now_eq c ▸ hself)
        rw [flatMap_cons, foldl_append, ← hu.marks_eq]
        exact hu.trans (ihcs (ht.trans hu.places) hrun)
    obtain ⟨u, u', hahead, hlook, hbelow⟩ := raising_step hrun
    have hu := heach _ ht hahead
    have hsu := ht.trans hu.places
    rw [hsu.look_eq] at hlook
    rw [lookedAt, foldl_append, foldl_cons, ← hu.marks_eq, ← hlook.marks_eq]
    exact hu.trans (hlook.trans (heach _ (hsu.trans hlook.places) hbelow))

/-- The pass over functions that can fail looks at the nodes of a program in turn. -/
theorem detect_marked (h : Raising.detect n s = .ok () s') :
    Marked ((s.lookedAt nestingLimit (s.now n)).foldl s.look s.marks) s s' := by
  obtain ⟨c, t, ⟨⟩, hrun⟩ := bind_eq_ok.1 h
  exact raisingFrom_marked (.refl s) hrun

end

end Session
end Polyglot
