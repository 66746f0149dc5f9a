import Polyglot.Proofs.Effects

/-!
# What is seen in a session

To look a name up changes nothing and always comes to an end. What is found depends on the contents and the tables that
are in view from the chain of scopes, and on nothing else.
-/
namespace Polyglot

open Session Effect List

variable {d : Node} {ids : List (Option NodeId)} {id : NodeId}

namespace Session

def content (s : Session) (id : NodeId) : Node := s.nodes.getD id default

def known (s : Session) (id : NodeId) : Facts := s.facts.getD id {}

def now (s : Session) (n : Node) : Node := s.nodes.getD n.id n

variable (s : Session)

theorem nodeOf_ok (id : NodeId) : nodeOf id s = .ok (s.content id) s := rfl

theorem factsOf_ok (id : NodeId) : factsOf id s = .ok (s.known id) s := rfl

theorem current_ok (n : Node) : current n s = .ok (s.now n) s := rfl

section

variable {s} {n m : Node}

theorem now_of_getElem? (h : s.nodes[n.id]? = some m) : s.now n = m := by
  rw [now, Std.TreeMap.getD_eq_getD_getElem?, h, Option.getD_some]

theorem content_of_getElem? (h : s.nodes[id]? = some m) : s.content id = m := by
  rw [content, Std.TreeMap.getD_eq_getD_getElem?, h, Option.getD_some]

theorem current_of_getElem? (h : s.nodes[n.id]? = some m) : current n s = .ok m s := by
  rw [current_ok, now_of_getElem? h]

end

theorem note_ok (id : NodeId) (f : Facts → Facts) :
    note id f s = .ok () { s with facts := s.facts.insert id (f (s.known id)) } := rfl

theorem known_note (id i : NodeId) (f : Facts) :
    known { s with facts := s.facts.insert id f } i = if id = i then f else s.known i := by
  unfold known
  rw [Std.TreeMap.getD_insert]
  by_cases h : id = i <;> simp [h]

/-- The annotation that was inferred for an identity, and whether there is any mention of one. -/
def inferred (s : Session) (id : NodeId) : Option (Option Node) := (s.known id).hint.map (·.map s.content)

def mention (s : Session) (n : Node) : Option (Option Node) :=
  match (s.now n).shape with
  | .arg _ a => some (a.map s.now)
  | .annAssign _ a _ _ => some (some (s.now a))
  | _ => s.inferred n.id

theorem hint?_ok (n : Node) : hint? n s = .ok (s.mention n) s := by
  unfold hint? mention
  refine (bind_ok (current_ok s n)).trans ?_
  cases (s.now n).shape with
  | arg _ a => cases a <;> rfl
  | annAssign => rfl
  | _ =>
    refine (bind_ok (factsOf_ok s n.id)).trans ?_
    unfold inferred
    rcases (s.known n.id).hint with _ | _ | id <;> rfl

theorem hintOf_ok (n : Node) : hintOf n s = .ok (s.mention n).join s := (bind_ok (hint?_ok s n)).trans rfl

def tables (s : Session) (id : NodeId) : List (List (Option NodeId)) :=
  [(s.known id).vars, (s.known id).bodyVars, (s.known id).elseVars].filterMap fun t => t

def view (s : Session) (id : NodeId) : List NodeId :=
  id :: (s.tables id).flatten.filterMap (fun i => i) ++ ((s.content id).shape.body?.getD []).map (·.id)

def firstSeen (s : Session) (name : Option String) : List (Option NodeId) → Option Node
  | [] => none
  | none :: rest => if name.isNone then none else firstSeen s name rest
  | some id :: rest => if (s.content id).ident? == name then some (s.content id) else firstSeen s name rest

def seenIn (s : Session) (name : Option String) (id : NodeId) : Option Node :=
  match (s.tables id).findSome? (s.firstSeen name) with
  | some n => some n
  | none =>
    match (s.content id).shape.body? with
    | some body => s.firstSeen name (body.map fun n => some n.id)
    | none => none

def seenFrom (s : Session) (name : Option String) : List NodeId → Option Node
  | [] => none
  | id :: rest =>
    match s.seenIn name id with
    | some n => some n
    | none => if (s.content id).shape matches .lambda .. then none else seenFrom s name rest

def seen (s : Session) (name : Option String) (chain : List NodeId) : Option Node := s.seenFrom name chain.reverse

end Session

theorem Effect.ite_ok {ε σ α : Type} {c : Prop} [Decidable c] {x y : EStateM ε σ α} {a b : α} {s t : σ}
    (hx : c → x s = .ok a t) (hy : ¬ c → y s = .ok b t) :
    (if c then x else y : EStateM ε σ α) s = .ok (if c then a else b) t := by
  split
  · exact hx ‹_›
  · exact hy ‹_›

theorem Effect.findSomeM?_ok {ε σ α β : Type} {f : α → EStateM ε σ (Option β)} {g : α → Option β} {s : σ} {as : List α}
    (h : ∀ a ∈ as, f a s = .ok (g a) s) : as.findSomeM? f s = .ok (as.findSome? g) s := by
  induction as with
  | nil => rfl
  | cons a as ih =>
    obtain ⟨ha, has⟩ := forall_mem_cons.1 h
    rw [List.findSomeM?, bind_ok ha, findSome?_cons]
    cases g a with
    | none => exact ih has
    | some b => rfl

namespace Scope

variable {s s' : Session} {name : Option String} {chain : List NodeId}

theorem firstNamed_ok (ids : List (Option NodeId)) : firstNamed name ids s = .ok (s.firstSeen name ids) s := by
  induction ids with
  | nil => rfl
  | cons id ids ih =>
    cases id with
    | none => exact ite_ok (fun _ => rfl) fun _ => ih
    | some id => exact (bind_ok (nodeOf_ok s id)).trans (ite_ok (fun _ => rfl) fun _ => ih)

theorem findIn_ok (id : NodeId) : findIn name id s = .ok (s.seenIn name id) s := by
  have htables : (s.tables id).findSomeM? (firstNamed name) s = .ok ((s.tables id).findSome? (s.firstSeen name)) s :=
    findSomeM?_ok fun t _ => firstNamed_ok t
  unfold findIn seenIn
  refine (bind_ok htables).trans ?_
  cases (s.tables id).findSome? (s.firstSeen name) with
  | some n => rfl
  | none =>
    refine (bind_ok (nodeOf_ok s id)).trans ?_
    cases (s.content id).shape.body? with
    | none => rfl
    | some body => exact firstNamed_ok _

theorem findFrom_ok : findFrom name chain s = .ok (s.seenFrom name chain) s := by
  induction chain with
  | nil => rfl
  | cons id chain ih =>
    rw [findFrom, seenFrom, bind_ok (findIn_ok id)]
    cases s.seenIn name id with
    | some n => rfl
    | none =>
      exact ite_ok (fun _ => rfl) fun _ => ih

theorem find_ok : find chain name s = .ok (s.seen name chain) s := findFrom_ok

theorem chainOf_eq_ok {n : Node} : chainOf n s = .ok chain s' ↔ (s.known n.id).scopes = some chain ∧ s = s' := by
  unfold chainOf
  rw [bind_ok (factsOf_ok s n.id)]
  cases (s.known n.id).scopes with
  | none => exact ⟨nofun, fun h => nomatch h.1⟩
  | some c =>
    constructor
    · intro h
      cases h
      exact ⟨rfl, rfl⟩
    · rintro ⟨hc, rfl⟩
      cases hc
      rfl

/-! ### What it depends on -/

theorem firstSeen_congr (h : ∀ i, some i ∈ ids → s'.content i = s.content i) :
    s'.firstSeen name ids = s.firstSeen name ids := by
  induction ids with
  | nil => rfl
  | cons id ids ih =>
    have ih := ih fun i hi => h i (mem_cons_of_mem _ hi)
    cases id with
    | none => rw [firstSeen, firstSeen, ih]
    | some id => rw [firstSeen, firstSeen, ih, h id mem_cons_self]

theorem seenIn_congr (htables : s'.tables id = s.tables id) (hview : ∀ i ∈ s.view id, s'.content i = s.content i) :
    s'.seenIn name id = s.seenIn name id := by
  have hmem : ∀ t ∈ s.tables id, s'.firstSeen name t = s.firstSeen name t := fun t ht =>
    firstSeen_congr fun i hi => hview i (by
      simp only [view, cons_append, mem_cons, mem_append, mem_filterMap, mem_flatten]
      exact .inr (.inl ⟨some i, ⟨t, ht, hi⟩, rfl⟩))
  have hfound : (s.tables id).findSome? (s'.firstSeen name) = (s.tables id).findSome? (s.firstSeen name) := by
    generalize s.tables id = ts at hmem
    induction ts with
    | nil => rfl
    | cons t ts ih =>
      obtain ⟨ht, hts⟩ := forall_mem_cons.1 hmem
      rw [findSome?_cons, findSome?_cons, ht, ih hts]
  have hbody (body : List Node) (hb : (s.content id).shape.body? = some body) :
      s'.firstSeen name (body.map fun n => some n.id) = s.firstSeen name (body.map fun n => some n.id) :=
    firstSeen_congr fun i hi => hview i (by
      obtain ⟨c, hc, ⟨⟩⟩ := mem_map.1 hi
      simp only [view, hb, Option.getD_some, mem_append, mem_map]
      exact .inr ⟨c, hc, rfl⟩)
  unfold seenIn
  rw [htables, hfound, hview id mem_cons_self]
  split
  · rfl
  · split
    · rename_i body hb
      exact hbody body hb
    · rfl

section

variable (h : ∀ id ∈ chain, s'.tables id = s.tables id ∧ ∀ i ∈ s.view id, s'.content i = s.content i)
include h

theorem seenFrom_congr :
    s'.seenFrom name chain = s.seenFrom name chain := by
  induction chain with
  | nil => rfl
  | cons id chain ih =>
    obtain ⟨⟨htables, hview⟩, hchain⟩ := forall_mem_cons.1 h
    rw [seenFrom, seenFrom, seenIn_congr htables hview, hview id mem_cons_self, ih hchain]

/-- A name is seen as the same in two sessions that agree on what is in view. -/
theorem seen_congr :
    s'.seen name chain = s.seen name chain :=
  seenFrom_congr fun id hid => h id (mem_reverse.1 hid)

end

theorem exists_of_firstSeen (h : s.firstSeen name ids = some d) : ∃ id, s.content id = d ∧ d.ident? = name := by
  induction ids with
  | nil => cases h
  | cons i ids ih =>
    cases i with
    | none =>
      rw [firstSeen] at h
      split at h
      · cases h
      · exact ih h
    | some i =>
      rw [firstSeen] at h
      split at h
      · rename_i hid
        cases h
        exact ⟨i, rfl, eq_of_beq hid⟩
      · exact ih h

theorem exists_of_seenIn (h : s.seenIn name id = some d) : ∃ id, s.content id = d ∧ d.ident? = name := by
  unfold seenIn at h
  split at h
  · rename_i n hn
    cases h
    obtain ⟨ids, -, hids⟩ := exists_of_findSome?_eq_some hn
    exact exists_of_firstSeen hids
  · split at h
    · exact exists_of_firstSeen h
    · cases h

theorem exists_of_seenFrom (h : s.seenFrom name chain = some d) : ∃ id, s.content id = d ∧ d.ident? = name := by
  induction chain with
  | nil => cases h
  | cons id chain ih =>
    rw [seenFrom] at h
    split at h
    · cases h
      exact exists_of_seenIn ‹_›
    · split at h
      · cases h
      · exact ih h

end Scope
end Polyglot
