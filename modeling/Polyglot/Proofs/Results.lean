import Polyglot.Proofs.Frame
import Polyglot.Proofs.Outline

/-!
# What functions are said to return

A return statement tells the type of its value to all functions around it. The results that are said after types were
inferred follow from those that were said before and from what was told, in the order in which the return statements
are come upon.
-/
namespace Polyglot

open Session Effect List Option

variable {new : String} {r : NodeId}

/-! ### Results -/

/-- What a function is said to return: nothing, a type by name, or a type by an annotation that is no name. -/
inductive Outcome where
  | unsaid
  | named (type : String)
  | other (id : NodeId)
  deriving DecidableEq

def Outcome.join : Outcome → String → Outcome
  | .unsaid, new => .named new
  | .named old, new => .named (if old = new then old else "Union[" ++ old ++ "," ++ new ++ "]")
  | .other id, _ => .other id

namespace Node

def name? (n : Node) : Option String :=
  match n.shape with
  | .name x _ => some x
  | _ => none

/-- The identity of the annotation of a function, and whether there is any; other nodes are no functions. -/
def result? (n : Node) : Option (Option NodeId) :=
  match n.shape with
  | .functionDef f => some (f.returns.map (·.id))
  | _ => none

def isReturn (n : Node) : Bool := n.shape matches .ret _

end Node

namespace Session

def saidBy (s : Session) (id : NodeId) : Outcome := (s.content id).name?.elim (.other id) .named

def outcome (s : Session) (id : NodeId) : Option Outcome := (s.content id).result?.map (·.elim .unsaid s.saidBy)

def IsName (s : Session) (id : NodeId) : Prop := id < s.next ∧ ∃ m, s.nodes[id]? = some m ∧ m.name?.isSome

/-- A session is sound for some identities: they are there, parts and scopes are among them or are names, and no two
functions have one annotation for their results. -/
structure SoundFor (A : NodeId → Prop) (s : Session) : Prop where
  keyed : s.Keyed
  known : ∀ id, A id → id < s.next ∧ ∃ m, s.nodes[id]? = some m
  parts : ∀ id, A id → ∀ c ∈ (s.content id).children, A c.id ∨ s.IsName c.id
  scopes : ∀ id chain, A id → s.scopesOf id = some chain → ∀ i ∈ chain, A i
  apart : ∀ f g r, A f → A g → (s.content f).result? = some (some r) → (s.content g).result? = some (some r) → f = g

end Session

/-! ### Return statements in the order in which they are come upon -/

/-- The parts of a node that the pass over types visits, in its order. Some are visited twice. -/
def Shape.visited {α : Type} : Shape α → List α
  | .name .. | .constant .. | .attribute .. | .boolOp .. => []
  | .list elts _ | .set elts => elts ++ elts
  | .assign targets value => targets ++ [value] ++ [value]
  | .forLoop l => l.target :: l.iter :: (l.target :: l.iter :: l.body ++ l.orelse)
  | s => s.children

namespace Shape

variable {α : Type}

def unsaid : Shape α → Shape α
  | .functionDef f => .functionDef { f with returns := none }
  | shape => shape

def saying (result : Option NodeId) : Shape Node → Shape Node
  | .functionDef f => .functionDef { f with returns := result.map fun id => ⟨id, none, none, .pass⟩ }
  | shape => shape

end Shape

/-- The return statements at and below a node, if those below its parts are known. -/
def Node.returnsWith (below : NodeId → List NodeId) (n : Node) : List NodeId :=
  (n.shape.visited.flatMap fun c => below c.id) ++ if n.isReturn then [n.id] else []

/-- The return statements at and below a node, for so many levels. -/
def Session.returnsBelow (s : Session) : Nat → NodeId → List NodeId
  | 0, _ => []
  | k + 1, id => (s.content id).returnsWith (s.returnsBelow k)

theorem Shape.visited_map {α β : Type} (f : α → β) (shape : Shape α) : (shape.map f).visited = shape.visited.map f := by
  have hchildren := children_map f shape
  cases shape <;> first
    | exact hchildren
    | simp [map, traverse, traverse.loop, visited]

theorem Shape.mem_children_of_visited {α : Type} {c : α} {shape : Shape α} (h : c ∈ shape.visited) : c ∈ shape.children := by
  cases shape <;> first
    | exact h
    | (simp only [visited, children, mem_append, mem_cons, not_mem_nil] at h ⊢ <;> tauto)

namespace Node

variable {m n : Node}

theorem returnsWith_eq (below : NodeId → List NodeId) (n : Node) :
    n.returnsWith below = (n.shape.visited.map (·.id)).flatMap below ++ if n.isReturn then [n.id] else [] := by
  rw [returnsWith, flatMap_map]

section

variable (h : m.outline = n.outline)
include h

theorem visited_of_outline : m.shape.visited.map (·.id) = n.shape.visited.map (·.id) := by
  have hvisited := congrArg Shape.visited (shape_of_outline h)
  rwa [Shape.visited_map, Shape.visited_map, map_stub_eq] at hvisited

theorem result?_of_outline : m.result? = n.result? := by
  refine eq_of_kept (fun ⟨_, _, _, shape⟩ => ?_) h
  cases shape with
  | functionDef f =>
    obtain ⟨name, args, body, decorators, returns⟩ := f
    cases returns <;> rfl
  | _ => rfl

theorem name?_of_outline : m.name? = n.name? :=
  eq_of_kept (fun ⟨_, _, _, shape⟩ => by cases shape <;> rfl) h

theorem isReturn_of_outline : m.isReturn = n.isReturn :=
  eq_of_kept (fun ⟨_, _, _, shape⟩ => by cases shape <;> rfl) h

end

theorem mem_children_of_result (h : n.result? = some (some r)) : ∃ c ∈ n.children, c.id = r := by
  unfold result? at h
  split at h
  · rename_i f hf
    obtain ⟨c, hc, rfl⟩ := map_eq_some_iff.1 (some.inj h)
    refine ⟨c, ?_, rfl⟩
    simp [children, hf, Shape.children, hc]
  · cases h

theorem shape_of_name (h : n.name?.isSome) : ∃ x u, n.shape = .name x u := by
  unfold name? at h
  split at h
  · rename_i x u hshape
    exact ⟨x, u, hshape⟩
  · cases h

theorem children_of_name (h : n.name?.isSome) : n.children = [] := by
  obtain ⟨x, u, hshape⟩ := shape_of_name h
  rw [children, hshape]
  rfl

/-- A node without its parts, and without an annotation for its result. -/
def unsaid (n : Node) : Node := n.outline.withShape n.outline.shape.unsaid

theorem unsaid_of_outline (h : m.outline = n.outline) : m.unsaid = n.unsaid := by rw [unsaid, h, unsaid]

theorem name?_of_unsaid (h : m.unsaid = n.unsaid) : m.name? = n.name? :=
  eq_of_kept (fun ⟨_, _, _, shape⟩ => by cases shape <;> rfl) h

theorem outline_of_unsaid (h : m.unsaid = n.unsaid) (hresult : m.result? = n.result?) : m.outline = n.outline := by
  have houtline (n : Node) : n.outline = n.unsaid.withShape (n.unsaid.shape.saying n.result?.join) := by
    obtain ⟨_, _, _, shape⟩ := n
    cases shape with
    | functionDef f =>
      obtain ⟨name, args, body, decorators, returns⟩ := f
      cases returns <;> rfl
    | _ => rfl
  rw [houtline m, h, hresult, ← houtline]

/-- A node becomes another one, which has all parts of the node and at most names besides. -/
structure Grows (n m : Node) (new : List NodeId) : Prop where
  isReturn_eq : m.isReturn = n.isReturn
  opensScope_eq : m.opensScope = n.opensScope
  children_eq : m.children.map (·.id) = n.children.map (·.id) ++ new
  visited_eq : m.shape.visited.map (·.id) = n.shape.visited.map (·.id) ++ new

namespace Grows

theorem of_outline (h : m.outline = n.outline) : Grows n m [] where
  isReturn_eq := isReturn_of_outline h
  opensScope_eq := opensScope_of_outline h
  children_eq := by rw [childIds_of_outline h, append_nil]
  visited_eq := by rw [visited_of_outline h, append_nil]

theorem of_names (hn : n.name?.isSome) (hm : m.name?.isSome) : Grows n m [] := by
  obtain ⟨x, u, hn⟩ := shape_of_name hn
  obtain ⟨y, v, hm⟩ := shape_of_name hm
  constructor <;> simp [isReturn, opensScope, children, hn, hm, Shape.children, Shape.visited]

theorem of_said (h : m.unsaid = n.unsaid) (hn : n.result? = some none) (hm : m.result? = some (some r)) :
    Grows n m [r] := by
  obtain ⟨_, _, _, shape⟩ := n
  obtain ⟨_, _, _, shape'⟩ := m
  cases shape with
  | functionDef f =>
    cases shape' with
    | functionDef g =>
      obtain ⟨-, hargs, hbody, hdecorators, -⟩ := Function.mk.inj (Shape.functionDef.inj (congrArg Node.shape h))
      have hargs : g.args.id = f.args.id := (Node.mk.inj hargs).1
      have hparts : g.returns.toList.map (·.id) = f.returns.toList.map (·.id) ++ [r] := by
        obtain ⟨c, hc, rfl⟩ := map_eq_some_iff.1 (some.inj hm)
        simp [hc, map_eq_none_iff.1 (some.inj hn)]
      constructor <;> simp [isReturn, opensScope, children, Shape.children, Shape.visited, hargs, hparts,
        map_stub_eq.1 hbody, map_stub_eq.1 hdecorators]
    | _ => cases hm
  | _ => cases hn

end Grows

end Node

namespace Session

variable {A : NodeId → Prop} {s s' : Session} {id : NodeId} {m ann : Node}

theorem content_insert (i : NodeId) :
    content { s with nodes := s.nodes.insert m.id m } i = if m.id = i then m else s.content i := by
  unfold content
  rw [Std.TreeMap.getD_insert]
  by_cases h : m.id = i <;> simp [h]

theorem SoundFor.getElem? (h : SoundFor A s) (hid : A id) : s.nodes[id]? = some (s.content id) := by
  obtain ⟨m, hm⟩ := (h.known id hid).2
  rw [hm, content_of_getElem? hm]

theorem SoundFor.content_id (h : SoundFor A s) (hid : A id) : (s.content id).id = id := h.keyed id _ (h.getElem? hid)

theorem SoundFor.result (h : SoundFor A s) (hid : A id) (hr : (s.content id).result? = some (some r)) :
    A r ∨ s.IsName r := by
  obtain ⟨c, hc, rfl⟩ := Node.mem_children_of_result hr
  exact h.parts id hid c hc

theorem SoundFor.there (h : SoundFor A s) (hid : A id ∨ s.IsName id) : id < s.next ∧ ∃ m, s.nodes[id]? = some m := by
  rcases hid with hid | ⟨hlt, m, hm, _⟩
  · exact h.known id hid
  · exact ⟨hlt, m, hm⟩

theorem SoundFor.outline_of_steady (hs : SoundFor A s) (h : Steady s s') (hid : A id ∨ s.IsName id) :
    (s'.content id).outline = (s.content id).outline := by
  obtain ⟨hlt, m, hm⟩ := hs.there hid
  obtain ⟨m', hm', heq⟩ := h.outline_eq id m hlt hm
  rw [content_of_getElem? hm, content_of_getElem? hm', heq]

theorem IsName.name? (h : s.IsName id) : (s.content id).name?.isSome := by
  obtain ⟨m, hm, hname⟩ := h.2
  rwa [content_of_getElem? hm]

theorem IsName.returnsBelow (h : s.IsName id) (k : Nat) : s.returnsBelow k id = [] := by
  cases k with
  | zero => rfl
  | succ k =>
    obtain ⟨x, u, hshape⟩ := Node.shape_of_name h.name?
    rw [Session.returnsBelow, Node.returnsWith, Node.isReturn, hshape]
    rfl

/-- What a function was told, by what was told to whom. -/
def toldTo (id : NodeId) (js : List (NodeId × String)) : List String := js.filterMap fun j => if j.1 = id then some j.2 else none

theorem toldTo_other {i : NodeId} (h : id ≠ i) : toldTo i [(id, new)] = [] := by
  simp [toldTo, h]

theorem toldTo_append (id : NodeId) (js js' : List (NodeId × String)) :
    toldTo id (js ++ js') = toldTo id js ++ toldTo id js' := filterMap_append

/-- A step in which functions were told of types, one after the other. What is not the name of a result stays as it is, but
that a function without an annotation for its result may get one. -/
structure Follows (A : NodeId → Prop) (s : Session) (js : List (NodeId × String)) (s' : Session) : Prop where
  before : SoundFor A s
  next_le : s.next ≤ s'.next
  keyed : s'.Keyed
  known : ∀ id, A id → ∃ m, s'.nodes[id]? = some m
  retyped : ∀ id, (s.known id).Retyped (s'.known id)
  openScopes_eq : s'.openScopes = s.openScopes
  isName : ∀ id, s.IsName id → s'.IsName id
  unsaid_eq : ∀ id, A id → ((s.content id).name? = none ∨ ∀ f, A f → (s.content f).result? ≠ some (some id)) →
    (s'.content id).unsaid = (s.content id).unsaid
  result?_eq : ∀ f, A f → (s'.content f).result? = (s.content f).result? ∨
    (s.content f).result? = some none ∧ ∃ r, (s'.content f).result? = some (some r) ∧ ¬ A r ∧ s'.IsName r
  apart : ∀ f g r, A f → A g → (s'.content f).result? = some (some r) → (s'.content g).result? = some (some r) → f = g
  outcome_eq : ∀ id, A id → s'.outcome id = (s.outcome id).map fun o => (toldTo id js).foldl Outcome.join o

namespace Follows

variable {js js' : List (NodeId × String)} {s'' : Session}

theorem refl (h : SoundFor A s) : Follows A s [] s where
  before := h
  next_le := le_rfl
  keyed := h.keyed
  known id hid := (h.known id hid).2
  retyped _ := .refl _
  openScopes_eq := rfl
  isName _ h := h
  unsaid_eq _ _ _ := rfl
  result?_eq _ _ := .inl rfl
  apart := h.apart
  outcome_eq _ _ := map_id'.symm

theorem trans (h : Follows A s js s') (h' : Follows A s' js' s'') : Follows A s (js ++ js') s'' where
  before := h.before
  next_le := h.next_le.trans h'.next_le
  keyed := h'.keyed
  known := h'.known
  retyped id := (h.retyped id).trans (h'.retyped id)
  openScopes_eq := h'.openScopes_eq.trans h.openScopes_eq
  isName id hid := h'.isName id (h.isName id hid)
  unsaid_eq id hid hfree := by
    have hunsaid := h.unsaid_eq id hid hfree
    refine (h'.unsaid_eq id hid (hfree.imp (fun hname => ?_) fun hfree f hf heq => ?_)).trans hunsaid
    · rwa [Node.name?_of_unsaid hunsaid]
    · rcases h.result?_eq f hf with hsame | ⟨_, r, hr, hnew, _⟩
      · exact hfree f hf (hsame ▸ heq)
      · cases hr.symm.trans heq
        exact hnew hid
  result?_eq f hf := by
    rcases h.result?_eq f hf, h'.result?_eq f hf with ⟨hsame | ⟨hnone, r, hr, hnew, hname⟩, hsame' | ⟨hnone', hsaid⟩⟩
    · exact .inl (hsame'.trans hsame)
    · exact .inr ⟨hsame ▸ hnone', hsaid⟩
    · exact .inr ⟨hnone, r, hsame'.trans hr, hnew, h'.isName r hname⟩
    · cases hr.symm.trans hnone'
  apart := h'.apart
  outcome_eq id hid := by
    rw [h'.outcome_eq id hid, h.outcome_eq id hid, Option.map_map, toldTo_append]
    exact congrArg (Option.map · _) (funext fun o => foldl_append.symm)

/-! What follows for the parts of nodes -/

section

variable (h : Follows A s js s')
include h

theorem grows (hid : A id) :
    ∃ new, (∀ r ∈ new, ¬ A r ∧ s'.IsName r) ∧ (s.content id).Grows (s'.content id) new := by
  cases hname : (s.content id).name? with
  | some x =>
    -- what is a name stays one, and has no parts
    have hold : s.IsName id := ⟨(h.before.known id hid).1, _, h.before.getElem? hid, by rw [hname]; rfl⟩
    exact ⟨[], nofun, .of_names hold.name? (h.isName id hold).name?⟩
  | none =>
    have hunsaid := h.unsaid_eq id hid (.inl hname)
    rcases h.result?_eq id hid with hsame | ⟨hnone, r, hr, hnew⟩
    · exact ⟨[], nofun, .of_outline (Node.outline_of_unsaid hunsaid hsame)⟩
    · exact ⟨[r], fun i hi => mem_singleton.1 hi ▸ hnew, .of_said hunsaid hnone hr⟩

theorem parts (hid : A id) {c : Node} (hc : c ∈ (s'.content id).children) :
    (∃ d ∈ (s.content id).children, d.id = c.id) ∨ ¬ A c.id ∧ s'.IsName c.id := by
  obtain ⟨new, hnew, hgrows⟩ := h.grows hid
  have hmem : c.id ∈ (s.content id).children.map (·.id) ++ new := hgrows.children_eq ▸ mem_map_of_mem hc
  exact (mem_append.1 hmem).imp mem_map.1 (hnew _)

theorem parts_kept (hid : A id) {d : Node} (hd : d ∈ (s.content id).children) :
    ∃ c ∈ (s'.content id).children, c.id = d.id := by
  obtain ⟨new, _, hgrows⟩ := h.grows hid
  exact mem_map.1 (hgrows.children_eq ▸ mem_append_left _ (mem_map_of_mem hd))

theorem opensScope_eq (hid : A id) : (s'.content id).opensScope = (s.content id).opensScope := by
  obtain ⟨_, _, hgrows⟩ := h.grows hid
  exact hgrows.opensScope_eq

theorem scopesOf_eq (id : NodeId) : s'.scopesOf id = s.scopesOf id := (congrArg Facts.scopes (h.retyped id).untyped_eq :)

theorem sound : SoundFor A s' where
  keyed := h.keyed
  known id hid := ⟨(h.before.known id hid).1.trans_le h.next_le, h.known id hid⟩
  parts id hid c hc := by
    rcases h.parts hid hc with ⟨d, hd, hdc⟩ | hnew
    · exact hdc ▸ (h.before.parts id hid d hd).imp_right (h.isName _)
    · exact .inr hnew.2
  scopes id chain hid hchain := h.before.scopes id chain hid ((h.scopesOf_eq id).symm.trans hchain)
  apart := h.apart

theorem outline_eq (hid : A id) (hnone : s.outcome id = none)
    (hfree : (s.content id).name? = none ∨ ∀ f, A f → (s.content f).result? ≠ some (some id)) :
    (s'.content id).outline = (s.content id).outline := by
  refine Node.outline_of_unsaid (h.unsaid_eq id hid hfree) ((h.result?_eq id hid).resolve_right fun hnew => ?_)
  rw [outcome, hnew.1] at hnone
  cases hnone

/-- The return statements below a node stay the same, for all that is added to the parts of nodes are names. -/
theorem returnsBelow_eq (k : Nat) (hid : A id ∨ s.IsName id) :
    s'.returnsBelow k id = s.returnsBelow k id := by
  induction k generalizing id with
  | zero => rfl
  | succ k ih =>
    rcases hid with hid | hid
    · obtain ⟨new, hnew, hgrows⟩ := h.grows hid
      have hnone : new.flatMap (s'.returnsBelow k) = [] := by
        rw [flatMap_eq_nil_iff]
        exact fun r hr => (hnew r hr).2.returnsBelow k
      have hparts : ((s.content id).shape.visited.map (·.id)).flatMap (s'.returnsBelow k) =
          ((s.content id).shape.visited.map (·.id)).flatMap (s.returnsBelow k) := by
        rw [flatMap_map, flatMap_map]
        exact flatMap_congr fun c hc => ih (h.before.parts id hid c (Shape.mem_children_of_visited hc))
      rw [returnsBelow, returnsBelow, Node.returnsWith_eq, Node.returnsWith_eq, hgrows.isReturn_eq, h.sound.content_id hid,
        h.before.content_id hid, hgrows.visited_eq, flatMap_append, hnone, append_nil, hparts]
    · rw [hid.returnsBelow, (h.isName id hid).returnsBelow]

end

/-! What functions are told -/

variable (hs : SoundFor A s)
include hs

theorem of_steady (h : Steady s s') : Follows A s [] s' := by
  have houtline (i : NodeId) (hi : A i ∨ s.IsName i) := hs.outline_of_steady h hi
  have hresult (i : NodeId) (hi : A i) : (s'.content i).result? = (s.content i).result? :=
    Node.result?_of_outline (houtline i (.inl hi))
  have hsaid (f : NodeId) (hf : A f) : s'.outcome f = s.outcome f := by
    unfold outcome
    rw [hresult f hf]
    rcases hfunction : (s.content f).result? with _ | _ | r
    · rfl
    · rfl
    · have hr : A r ∨ s.IsName r := hs.result hf hfunction
      simp only [map_some, elim_some, saidBy, Node.name?_of_outline (houtline r hr)]
  refine
    { before := hs
      next_le := h.next_le
      keyed := h.keyed hs.keyed
      known := fun i hi => ?_
      retyped := h.retyped
      openScopes_eq := h.openScopes_eq
      isName := fun i hi => ?_
      unsaid_eq := fun i hi _ => Node.unsaid_of_outline (houtline i (.inl hi))
      result?_eq := fun f hf => .inl (hresult f hf)
      apart := fun f g r hf hg hfr hgr => hs.apart f g r hf hg (hresult f hf ▸ hfr) (hresult g hg ▸ hgr)
      outcome_eq := fun i hi => (hsaid i hi).trans map_id'.symm }
  · obtain ⟨hlt, m, hm⟩ := hs.known i hi
    obtain ⟨m', hm', _⟩ := h.outline_eq i m hlt hm
    exact ⟨m', hm'⟩
  · obtain ⟨hlt, m, hm, hname⟩ := hi
    obtain ⟨m', hm', heq⟩ := h.outline_eq i m hlt hm
    exact ⟨hlt.trans_le h.next_le, m', hm', Node.name?_of_outline heq ▸ hname⟩

/-- A node gets another content, of which a name stays a name and a function a function. What becomes of the results is
still to be shown. -/
theorem of_insert (hs' : s' = { s with nodes := s.nodes.insert m.id m })
    (hname : (s.content m.id).name?.isSome → m.name?.isSome)
    (hunsaid : ((s.content m.id).name? = none ∨ ∀ f, A f → (s.content f).result? ≠ some (some m.id)) →
      m.unsaid = (s.content m.id).unsaid)
    (hresult : m.result? = (s.content m.id).result? ∨ (s.content m.id).result? = some none ∧
      ∃ r, m.result? = some (some r) ∧ (¬ A r ∧ s.IsName r) ∧ ∀ g, A g → (s.content g).result? ≠ some (some r))
    (houtcome : ∀ i, A i → s'.outcome i = (s.outcome i).map fun o => (toldTo i js).foldl Outcome.join o) :
    Follows A s js s' := by
  have hcontent (i : NodeId) : s'.content i = if m.id = i then m else s.content i := by rw [hs', content_insert]
  have hget (i : NodeId) : s'.nodes[i]? = if m.id = i then some m else s.nodes[i]? := by rw [hs', getElem?_insert]
  have hnames (i : NodeId) (hi : s.IsName i) : s'.IsName i := by
    obtain ⟨hlt, n, hn, hnname⟩ := hi
    refine ⟨by rwa [hs'], ?_⟩
    rw [hget]
    split
    · rename_i heq
      exact ⟨m, rfl, hname (by rwa [heq, content_of_getElem? hn])⟩
    · exact ⟨n, hn, hnname⟩
  -- a function has the result that it had, or one that no function had
  have hold {f r : NodeId} (h : (s'.content f).result? = some (some r)) :
      (s.content f).result? = some (some r) ∨ f = m.id ∧ ∀ g, A g → (s.content g).result? ≠ some (some r) := by
    rw [hcontent] at h
    split at h
    · rename_i heq
      subst heq
      rcases hresult with hsame | ⟨_, r', hr', _, hfree⟩
      · exact .inl (hsame ▸ h)
      · cases hr'.symm.trans h
        exact .inr ⟨rfl, hfree⟩
    · exact .inl h
  refine
    { before := hs
      next_le := hs' ▸ le_rfl
      keyed := hs' ▸ hs.keyed.insert _
      known := fun i hi => ?_
      retyped := fun _ => by rw [hs']; exact .refl _
      openScopes_eq := by rw [hs']
      isName := hnames
      unsaid_eq := fun i _ hfree => ?_
      result?_eq := fun f _ => ?_
      apart := fun f g r hf hg hfr hgr => ?_
      outcome_eq := houtcome }
  · rw [hget]
    split
    · exact ⟨m, rfl⟩
    · exact (hs.known i hi).2
  · rw [hcontent]
    split
    · rename_i heq
      subst heq
      exact hunsaid hfree
    · rfl
  · rw [hcontent]
    split
    · rename_i heq
      subst heq
      exact hresult.imp_right fun ⟨hnone, r, hr, hnew, _⟩ => ⟨hnone, r, hr, hnew.1, hnames r hnew.2⟩
    · exact .inl rfl
  · rcases hold hfr, hold hgr with ⟨hfr | ⟨rfl, hfree⟩, hgr | ⟨rfl, hfree'⟩⟩
    · exact hs.apart f g r hf hg hfr hgr
    · exact absurd hfr (hfree' f hf)
    · exact absurd hgr (hfree g hg)
    · rfl

/-- A function that was not said to return anything is said to return a type. -/
theorem of_said {f : Function Node} {r : Node} (hid : A id) (houtline : (s.content id).outline = m.outline)
    (hm : m.shape = .functionDef f) (hnone : f.returns = none) (hr : s.IsName r.id) (hname : (s.content r.id).name? = some new)
    (hnew : ¬ A r.id) (hfree : ∀ g, A g → (s.content g).result? ≠ some (some r.id)) {m' : Node}
    (hm' : m' = m.withShape (.functionDef { f with returns := some r }))
    (hs' : s' = { s with nodes := s.nodes.insert m'.id m' }) : Follows A s [(id, new)] s' := by
  have hmid : m'.id = id := hm' ▸ (Node.id_of_outline houtline).symm.trans (hs.content_id hid)
  have hresult : m'.result? = some (some r.id) := by rw [hm']; rfl
  have hold : (s.content id).result? = some none := by
    rw [Node.result?_of_outline houtline]
    simp [Node.result?, hm, hnone]
  have hunsaid : m'.unsaid = (s.content id).unsaid := by
    rw [Node.unsaid_of_outline houtline, hm']
    obtain ⟨_, _, _, shape⟩ := m
    cases hm
    rfl
  subst hmid
  have hcontent (i : NodeId) : s'.content i = if m'.id = i then m' else s.content i := by rw [hs', content_insert]
  have holdname := Node.name?_of_unsaid hunsaid
  have hsaid (i : NodeId) : s'.saidBy i = s.saidBy i := by
    rw [saidBy, saidBy, hcontent]
    split
    · rename_i heq
      rw [← heq, holdname]
    · rfl
  refine of_insert hs hs' (fun h => holdname ▸ h) (fun _ => hunsaid) (.inr ⟨hold, r.id, hresult, ⟨hnew, hr⟩, hfree⟩) fun i hi => ?_
  by_cases heq : m'.id = i
  · subst heq
    have hri : s'.saidBy r.id = .named new := by rw [hsaid, saidBy, hname]; rfl
    rw [outcome, outcome, hcontent, if_pos rfl, hresult, hold]
    simp [toldTo, hri, Outcome.join]
  · rw [toldTo_other heq, outcome, outcome, hcontent, if_neg heq, funext hsaid]
    exact map_id'.symm

theorem of_renamed {r : Node} {old : String} {u : Usage} (hid : A id)
    (hresult : (s.content id).result? = some (some r.id)) (hr : s.nodes[r.id]? = some r) (hshape : r.shape = .name old u)
    (hne : old ≠ new) {r' : Node} (hr' : r' = r.withShape (.name ("Union[" ++ old ++ "," ++ new ++ "]") u))
    (hs' : s' = { s with nodes := s.nodes.insert r'.id r' }) : Follows A s [(id, new)] s' := by
  have hrid : r'.id = r.id := by rw [hr']; rfl
  have hold : s.content r.id = r := content_of_getElem? hr
  have hcontent (i : NodeId) : s'.content i = if r.id = i then r' else s.content i := by rw [hs', content_insert, hrid]
  have hname : r.name? = some old := by rw [Node.name?, hshape]
  -- a name is no function, so the annotations of functions stay where they are
  have hsame : r'.result? = r.result? := by
    rw [hr']
    simp [Node.result?, Node.withShape, hshape]
  refine of_insert hs hs' (fun _ => by rw [hr']; rfl) (fun hfree => ?_) (.inl (by rw [hrid, hold, hsame])) fun i hi => ?_
  · rcases hfree with hnone | hfree
    · rw [hrid, hold, hname] at hnone
      cases hnone
    · exact absurd hresult (hrid ▸ hfree id hid)
  have hresults : (s'.content i).result? = (s.content i).result? := by
    rw [hcontent]
    split
    · rename_i heq
      rw [← heq, hold, hsame]
    · rfl
  by_cases heq : id = i
  · subst heq
    have hbefore : s.saidBy r.id = .named old := by rw [saidBy, hold, hname]; rfl
    have hafter : s'.saidBy r.id = .named ("Union[" ++ old ++ "," ++ new ++ "]") := by
      rw [saidBy, hcontent, if_pos rfl, hr']
      rfl
    rw [outcome, outcome, hresults, hresult]
    simp [toldTo, hbefore, hafter, Outcome.join, hne]
  · rw [toldTo_other heq, outcome, outcome, hresults]
    refine Eq.trans ?_ map_id'.symm
    refine map_congr fun o ho => ?_
    cases o with
    | none => rfl
    | some i' =>
      have hne' : r.id ≠ i' := fun h => heq (hs.apart id i i' hid hi (h ▸ hresult) ho)
      rw [elim_some, elim_some, saidBy, saidBy, hcontent, if_neg hne']

theorem of_unmoved (h : (s.outcome id).map (·.join new) = s.outcome id) : Follows A s [(id, new)] s := by
  refine { refl hs with outcome_eq := fun i hi => ?_ }
  by_cases heq : id = i
  · subst heq
    simpa [toldTo] using h.symm
  · rw [toldTo_other heq]
    exact map_id'.symm

theorem of_joinResult (hid : A id) (h : Inference.joinResult ann new id s = .ok () s') :
    Follows A s [(id, new)] s' := by
  obtain ⟨m, t, hm, h⟩ := bind_eq_ok.1 h
  obtain ⟨hcontent, rfl⟩ : s.content id = m ∧ s = t := by
    cases hm
    exact ⟨rfl, rfl⟩
  obtain ⟨_, _, _, shape⟩ := m
  cases shape with
  | functionDef f =>
    obtain ⟨fname, args, body, decorators, returns⟩ := f
    cases returns with
    | none =>
      obtain ⟨_, _, ⟨⟩, h⟩ := bind_eq_ok.1 h
      -- a new name is made for the annotation, and then the function gets it
      obtain ⟨r, s1, hr, h⟩ := bind_eq_ok.1 h
      obtain ⟨l, t, hl, h⟩ := bind_eq_ok.1 h
      obtain ⟨_, s2, hset, ⟨⟩⟩ := bind_eq_ok.1 h
      have hs1 : Steady s s1 := calm_typeName new s r s1 hr hs.keyed
      have hcalm : Steady s1 s2 := by
        have hkeyed := hs1.keyed hs.keyed
        have ht := Inference.calm_lifetimeOf (some ann) s1 l t hl hkeyed
        exact ht.trans (Along.optionForM (fun l _ => Inference.calm_setLifetime r l) t _ s2 hset (ht.keyed hkeyed))
      have hrid : r.id = s.next := by
        cases hr
        rfl
      obtain ⟨r', hr', hr'name⟩ : ∃ r', s2.nodes[r.id]? = some r' ∧ r'.name? = some new := by
        cases hr
        obtain ⟨r', hr', houtline⟩ := hcalm.outline_eq s.next ⟨s.next, none, none, .name new .unset⟩ (Nat.lt_succ_self _)
          Std.TreeMap.getElem?_insert_self
        exact ⟨r', hr', (Node.name?_of_outline houtline).trans rfl⟩
      have hfresh (i : NodeId) (hi : A i ∨ s.IsName i) : i ≠ r.id :=
        hrid ▸ Nat.ne_of_lt (hs.there hi).1
      have hlt : r.id < s2.next := by
        refine Nat.lt_of_lt_of_le ?_ hcalm.next_le
        cases hr
        exact Nat.lt_succ_self _
      have h2 := of_steady hs (hs1.trans hcalm)
      have houtline := hs.outline_of_steady (hs1.trans hcalm) (.inl hid)
      refine h2.trans (of_said h2.sound hid (houtline.trans (congrArg Node.outline hcontent)) rfl rfl ⟨hlt, r', hr', ?_⟩ ?_
        (fun hA => hfresh _ (.inl hA) rfl) (fun g hg hgr => ?_) rfl rfl)
      · rw [hr'name]
        rfl
      · rw [content_of_getElem? hr', hr'name]
      · rw [Node.result?_of_outline (hs.outline_of_steady (hs1.trans hcalm) (.inl hg))] at hgr
        exact hfresh _ (hs.result hg hgr) rfl
    | some r =>
      have hresult : (s.content id).result? = some (some r.id) := by rw [hcontent]; rfl
      obtain ⟨_, c, hc⟩ := hs.there (hs.result hid hresult)
      have hcid := hs.keyed _ c hc
      have hnow : (some r : Option Node).mapM current s = .ok (some c) s := by
        rw [mapM_some, map_eq_pure_bind]
        exact (bind_ok (current_of_getElem? hc)).trans rfl
      obtain ⟨_, _, hsome, h⟩ := bind_eq_ok.1 h
      obtain ⟨rfl, rfl⟩ := EStateM.Result.ok.inj (hnow.symm.trans hsome)
      have hunmoved (h : (s.saidBy r.id).join new = s.saidBy r.id) : Follows A s [(id, new)] s :=
        of_unmoved hs (by rw [outcome, hresult]; exact congrArg some h)
      have hsaid : s.saidBy r.id = c.name?.elim (.other r.id) .named := by rw [saidBy, content_of_getElem? hc]
      obtain ⟨_, _, _, shape⟩ := c
      cases shape with
      | name old u =>
        by_cases hne : old = new
        · dsimp only at h
          rw [if_neg (by simp [hne])] at h
          cases h
          exact hunmoved (by rw [hsaid]; exact congrArg Outcome.named (if_pos hne))
        · dsimp only at h
          rw [if_pos (by simp [hne])] at h
          cases h
          exact of_renamed hs hid (hcid ▸ hresult) (hcid ▸ hc) rfl hne rfl rfl
      | _ =>
        cases h
        exact hunmoved (by rw [hsaid]; rfl)
  | _ =>
    cases h
    exact of_unmoved hs (by rw [outcome, hcontent]; rfl)

theorem of_chain {chain : List NodeId} (hchain : ∀ i ∈ chain, A i)
    (h : chain.forM (Inference.joinResult ann new) s = .ok () s') : Follows A s (chain.map (·, new)) s' := by
  induction chain generalizing s with
  | nil =>
    cases h
    exact refl hs
  | cons id chain ih =>
    obtain ⟨hid, hchain⟩ := forall_mem_cons.1 hchain
    obtain ⟨_, t, hjoin, h⟩ := bind_eq_ok.1 h
    have ht := of_joinResult hs hid hjoin
    exact ht.trans (ih ht.sound hchain h)

end Follows

end Session

end Polyglot
