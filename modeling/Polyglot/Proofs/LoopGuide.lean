import Polyglot.Proofs.Frame

/-!
# Where a break leads

`Place` says what counts for a statement: the loop that a break leaves, and the loop that the pass takes for it, which
is the one that a search finds. `Fit` singles out the programs for which one mark serves all loops. `Guides` says, of a
session in the midst of the pass, that the search for the loop of a break ends where `Place` says.
-/
namespace Polyglot

open Effect Session Blocks List Node Scope

/-- Where statements stand: the loop that a search finds from there, the loop that a break leaves, and whether some
loop around has an else part. -/
structure Place where
  found : Option Node := none
  loop : Option Node := none
  watched : Bool := false

namespace Place

def leaving (p : Place) : Bool := p.loop.any parted

def inBranch (p : Place) (body : List Node) : Place := { p with found := (lastLoop body).or p.found }

/-- A loop over items is a scope, other loops are none. -/
def foundIn (p : Place) (n : Node) : Option Node := if n.opensScope then some n else p.found

def inLoop (p : Place) (n : Node) : Place := ⟨p.foundIn n, some n, p.watched || n.parted⟩

def inElse (p : Place) (n : Node) : Place := { p with found := p.foundIn n }

end Place

/-- Statements whose loops can do with one mark: no loop with an else part stands in another such loop, and the search
from a break finds the loop that is left if this has an else part, and else none that has one. `marks` says that the
mark is set among these statements; it is not in the second body of a branch or a loop. -/
inductive Fit : (p : Place) → (marks : Bool) → List Node → Prop
  | nil {p : Place} {marks : Bool} : Fit p marks []
  | simple {p : Place} {marks : Bool} {n : Node} {ns : List Node} (hn : n.isSimple = true) (hfree : n.Free)
      (hplain : n.Plain) (h : Fit p marks ns) : Fit p marks (n :: ns)
  | leave {p : Place} {marks : Bool} {n l : Node} {ns : List Node} (hn : n.shape = .breakLoop) (hl : p.loop = some l)
      (hparted : l.parted = true → marks = true ∧ p.found = some l)
      (hfound : l.parted = false → marks = true → ∀ f, p.found = some f → f.parted = false) (h : Fit p marks ns) :
      Fit p marks (n :: ns)
  | again {p : Place} {marks : Bool} {n : Node} {ns : List Node} (hn : n.shape = .continueLoop) (h : Fit p marks ns) :
      Fit p marks (n :: ns)
  | cond {p : Place} {marks : Bool} {n test : Node} {body orelse ns : List Node} (hn : n.shape = .cond test body orelse)
      (hfree : test.Free) (hplain : test.Plain) (hbody : Fit (p.inBranch body) true body)
      (horelse : Fit (p.inBranch body) false orelse) (h : Fit p marks ns) : Fit p marks (n :: ns)
  | loop {p : Place} {marks : Bool} {n : Node} {head : Head} {body orelse ns : List Node}
      (hn : n.shape = head.shape body orelse) (hfree : head.Free) (hplain : ∀ c ∈ head.parts, c.Plain)
      (helse : orelse ≠ [] → marks = true ∧ p.watched = false ∧ ∃ e ∈ orelse.head?, e.line.isSome = true)
      (hbody : Fit (p.inLoop n) true body) (horelse : Fit (p.inElse n) false orelse) (h : Fit p marks ns) :
      Fit p marks (n :: ns)

theorem Fit.regular {p : Place} {marks : Bool} {ns : List Node} (h : Fit p marks ns) : Regular ns := by
  induction h with
  | nil => exact .nil
  | simple hn _ _ _ ih | leave hn _ _ _ _ ih | again hn _ ih => exact .leaf (by simp [isLeaf, hn]) ih
  | cond hn _ hplain _ _ _ ihbody _ ih => exact .cond hn (hplain _ .self) ihbody ih
  | loop hn _ _ _ _ _ _ _ _ ih => exact .loop hn ih

abbrev idsOf (k : Nat) (ns : List Node) : List NodeId := ns.flatMap (ids k)

theorem idsOf_subset {k : Nat} {ns ms : List Node} (h : ∀ n ∈ ns, n ∈ ms) : idsOf k ns ⊆ idsOf k ms := by
  intro id hid
  obtain ⟨n, hn, hid⟩ := mem_flatMap.1 hid
  exact mem_flatMap.2 ⟨n, h n hn, hid⟩

theorem idsOf_left {k : Nat} {ns ms : List Node} : idsOf k ns ⊆ idsOf k (ns ++ ms) := idsOf_subset fun _ => mem_append_left _

theorem idsOf_right {k : Nat} {ns ms : List Node} : idsOf k ms ⊆ idsOf k (ns ++ ms) := idsOf_subset fun _ => mem_append_right _

/-- A session holds a tree in the place of a statement, in which a search finds the loop that it finds in the
statement, provided that this has no else part. The tree is made of nodes of the statement and of nodes that were made
since some earlier session. -/
structure Settled (k : Nat) (s s' : Session) (c t : Node) : Prop where
  id_eq : t.id = c.id
  kept : Kept (c.ids k) (k + 2) s s' t
  regular : Regular [t]
  loopOf_eq : (∀ f, c.loopOf = some f → f.parted = false) → t.loopOf.map (·.id) = c.loopOf.map (·.id)
  mem_ids : ∀ f, c.loopOf = some f → f.id ∈ c.ids k

namespace Settled

variable {k : Nat} {s s' s'' : Session} {c t : Node} {E A : NodeId → Prop} {J : List NodeId} {chain : List NodeId}

theorem sees (h : Settled k s s' c t) (hA : ∀ id ∈ c.ids k, ¬ A id) : Sees A (k + 2) s' c := by
  intro j hj n hid
  obtain ⟨found, hfound, heq⟩ := Sees.of_holds (A := fun _ => True) h.kept.holds h.regular j hj n (hid.trans h.id_eq.symm)
  refine ⟨found, hfound, fun hallowed => ?_⟩
  rw [heq fun _ _ _ => trivial]
  refine h.loopOf_eq fun f hf => ?_
  rw [Bool.eq_false_iff]
  exact fun hparted => hA f.id (h.mem_ids f hf) (hallowed f hf hparted)

theorem moved (h : Settled k s s' c t) (hmoved : Moved J E s' s'') (hlt : ∀ id ∈ c.ids k, id < s'.next)
    (hdisjoint : ∀ id ∈ c.ids k, id ∉ J) (hJ : ∀ id ∈ J, id < s.next) : Settled k s s'' c t :=
  { h with kept := h.kept.moved hmoved hlt hdisjoint hJ }

theorem of_ready (h : Ready E k s' chain c) (hregular : Regular [c]) : Settled k s s' c c where
  id_eq := rfl
  kept := .of_holds h.holds (by omega) (List.Subset.refl _)
  regular := hregular
  loopOf_eq _ := rfl
  mem_ids f hf := by
    obtain ⟨n, hn, hwithin⟩ := hregular.within (Lowered.lastLoop_singleton c ▸ hf)
    rw [mem_singleton.1 hn] at hwithin
    exact h.holds.mem_ids hwithin

end Settled

/-- A search that changes nothing and finds a certain loop. -/
abbrev Finds (search : Analysis (Option Node)) (s : Session) (found : Option Node) : Prop :=
  ∃ o, search s = .ok o s ∧ o.map (·.id) = found.map (·.id)

/-- From inside some statements, a search outwards through a chain of scopes finds a loop. This remains so as long as
nothing changes but these statements, and a search in them still finds what it may have to find. -/
def Guides (E : NodeId → Prop) (k : Nat) (s : Session) (chain enclosing : List NodeId) (found : Option Node)
    (cs : List Node) : Prop :=
  ∀ s' A, Moved (idsOf k cs) E s s' → (∀ id, A id → id ∈ enclosing ∨ id ∈ idsOf k cs) →
    (∀ c ∈ cs, Sees A (k + 2) s' c) → (∀ f, found = some f → f.parted = true → A f.id) →
    Finds (findByKindFrom isLoop chain) s' found

namespace Guides

variable {E A : NodeId → Prop} {k : Nat} {s s' : Session} {chain enclosing : List NodeId} {found : Option Node}
  {cs before after body orelse : List Node} {c n test : Node} {head : Head} {o : Opening}

theorem moved (h : Guides E k s chain enclosing found cs) (hmoved : Moved (idsOf k cs) E s s') :
    Guides E k s' chain enclosing found cs :=
  fun s'' A hmoved' hA hsees hfound => h s'' A (hmoved.trans hmoved') hA hsees hfound

theorem disjoint_ids {b : Node} (hnodup : (idsOf k (before ++ c :: after)).Nodup) (hb : b ∈ before ++ after) :
    ∀ id ∈ b.ids k, id ∉ c.ids k := by
  intro id hid hid'
  simp only [idsOf, flatMap_append, flatMap_cons] at hnodup
  obtain ⟨_, hrest, hfront⟩ := nodup_append.1 hnodup
  obtain ⟨_, _, hback⟩ := nodup_append.1 hrest
  rcases mem_append.1 hb with hb | hb
  · exact hfront id (mem_flatMap.2 ⟨b, hb, hid⟩) id (mem_append_left _ hid') rfl
  · exact hback id hid' id (mem_flatMap.2 ⟨b, hb, hid⟩) rfl

/-- From inside one of the statements, the others being settled. -/
theorem one (h : Guides E k s chain enclosing found (before ++ c :: after))
    (hmoved : Moved (idsOf k (before ++ c :: after)) E s s')
    (hsettled : ∀ b ∈ before ++ after, ∃ t, Settled k s s' b t) (hnodup : (idsOf k (before ++ c :: after)).Nodup)
    (hlt : ∀ id ∈ idsOf k (before ++ c :: after), id < s.next)
    (henclosing : ∀ id ∈ enclosing, id ∉ idsOf k (before ++ c :: after)) :
    Guides E k s' chain enclosing found [c] := by
  have hc : idsOf k [c] = c.ids k := by simp
  have hsub : idsOf k [c] ⊆ idsOf k (before ++ c :: after) :=
    fun id hid => mem_flatMap.2 ⟨c, by simp, hc ▸ hid⟩
  intro s'' A hmoved' hA hsees hfound
  refine h s'' A (hmoved.trans (hmoved'.mono hsub)) (fun id hid => (hA id hid).imp_right fun h => hsub h) ?_ hfound
  intro b hb
  by_cases hbc : b = c
  · exact hsees b (by simp [hbc])
  · have hb' : b ∈ before ++ after := by
      simp only [mem_append, mem_cons] at hb ⊢
      tauto
    obtain ⟨t, ht⟩ := hsettled b hb'
    have hids : ∀ id ∈ b.ids k, id ∈ idsOf k (before ++ c :: after) :=
      fun id hid => mem_flatMap.2 ⟨b, hb, hid⟩
    refine (ht.moved hmoved' (fun id hid => ?_) (hc ▸ disjoint_ids hnodup hb') (fun id hid => hlt id (hsub hid))).sees ?_
    · exact (hlt id (hids id hid)).trans_le hmoved.next_le
    · intro id hid hAid
      rcases hA id hAid with hin | hin
      · exact henclosing id hin (hids id hid)
      · exact disjoint_ids hnodup hb' id hid (hc ▸ hin)

/-! ### Entering a block -/

theorem nodeOf_of_keyAt (h : s.keyAt n.id = some n.key) : ∃ c, nodeOf n.id s = .ok c s ∧ c.key = n.key := by
  obtain ⟨c, hc, hkey⟩ := Option.map_eq_some_iff.1 h
  refine ⟨c, ?_, hkey⟩
  rw [nodeOf_ok, content_of_getElem? hc]

theorem opening?_loop (hn : n.shape = head.shape body orelse) : n.shape.opening? = some (.loop head, body, orelse) :=
  hn ▸ Shape.opening?_shape (o := .loop head) nofun

theorem opening?_cond (hn : n.shape = .cond test body orelse) : n.shape.opening? = some (.cond test, body, orelse) := by
  rw [hn]
  rfl

theorem findByKindFrom_loop (hkey : s.keyAt n.id = some n.key) (hn : n.shape = head.shape body orelse) :
    ∃ c, findByKindFrom isLoop (n.id :: chain) s = .ok (some c) s ∧ c.id = n.id := by
  obtain ⟨c, hc, hckey⟩ := nodeOf_of_keyAt hkey
  obtain ⟨b, e, hc', _, _⟩ := opening?_of_key hckey (opening?_loop hn)
  have hloop : isLoop c = true := by
    have hshape := (Shape.eq_shape_of_opening? hc').1
    cases head <;> simp [isLoop, hshape, Opening.shape, Head.shape]
  refine ⟨c, ?_, id_of_key hckey⟩
  rw [findByKindFrom, bind_ok hc, if_pos hloop]
  rfl

/-- In another scope its body is searched before the scopes around it. -/
theorem findByKindFrom_body (chain : List NodeId) (hkey : s.keyAt n.id = some n.key)
    (hn : n.shape.opening? = some (o, body, orelse)) (ho : ∀ head, o ≠ .loop head) :
    ∃ b : List Node, b.map (·.id) = body.map (·.id) ∧ ∀ f, findInBody isLoop nestingLimit b s = .ok f s →
      findByKindFrom isLoop (n.id :: chain) s =
        if f.isSome then .ok f s else findByKindFrom isLoop chain s := by
  obtain ⟨⟨id, line, col, shape⟩, hc, hckey⟩ := nodeOf_of_keyAt hkey
  obtain ⟨b, e, hc', hids, _⟩ := opening?_of_key hckey hn
  obtain ⟨hshape, _⟩ := Shape.eq_shape_of_opening? hc'
  refine ⟨b, hids, fun f hf => ?_⟩
  rw [findByKindFrom, bind_ok hc]
  cases o with
  | loop head => exact absurd rfl (ho head)
  | module | cond =>
    cases hshape
    change (findInBody isLoop nestingLimit b >>= _) s = _
    rw [bind_ok hf]
    cases f <;> rfl

/-- What a part of a block is in relation to the block, where the search inside it is concerned. -/
structure Inner (k : Nat) (s : Session) (n : Node) (cs : List Node) : Prop where
  keyAt_eq : s.keyAt n.id = some n.key
  lt : n.id < s.next
  not_mem : n.id ∉ idsOf k cs
  subset : idsOf k cs ⊆ n.ids (k + 1)

theorem Inner.moved (h : Inner k s n cs) (hmoved : Moved (idsOf k cs) E s s') : s'.keyAt n.id = some n.key :=
  (hmoved.keyAt_eq _ h.lt h.not_mem).trans h.keyAt_eq

theorem Inner.outer (h : Inner k s n cs) (hmoved : Moved (idsOf k cs) E s s') : Moved (idsOf (k + 1) [n]) E s s' := by
  refine hmoved.mono fun id hid => ?_
  rw [idsOf, flatMap_singleton]
  exact h.subset hid

theorem Inner.allowed (h : Inner k s n cs) (hA : ∀ id, A id → id ∈ n.id :: enclosing ∨ id ∈ idsOf k cs) (id : NodeId)
    (hid : A id) : id ∈ enclosing ∨ id ∈ idsOf (k + 1) [n] := by
  rw [idsOf, flatMap_singleton]
  rcases hA id hid with hmem | hmem
  · rcases mem_cons.1 hmem with rfl | hmem
    · exact .inr (id_mem_ids (by omega))
    · exact .inl hmem
  · exact .inr (h.subset hmem)

section

variable (hinner : Inner k s n cs) (hn : n.shape = head.shape body orelse)
include hinner hn

theorem enter_each : Guides E k s (n.id :: chain) (n.id :: enclosing) (some n) cs := by
  intro s' A hmoved hA hsees hfound
  obtain ⟨c, hc, hid⟩ := findByKindFrom_loop (hinner.moved hmoved) hn
  exact ⟨some c, hc, congrArg some hid⟩

theorem enter_while (h : Guides E (k + 1) s chain enclosing found [n]) :
    Guides E k s chain (n.id :: enclosing) found cs := by
  intro s' A hmoved hA hsees hfound
  refine h s' A (hinner.outer hmoved) (hinner.allowed hA) ?_ hfound
  intro c hc j hj m hm
  obtain rfl := mem_singleton.1 hc
  obtain ⟨d, hd, hdkey⟩ := current_of_keyAt (show s'.keyAt m.id = some c.key by rw [hm, hinner.moved hmoved])
  obtain ⟨b, e, hd', _, _⟩ := opening?_of_key hdkey (opening?_loop hn)
  refine ⟨some d, Sees.findAt_loop hd (Shape.eq_shape_of_opening? hd').1, fun _ => ?_⟩
  rw [loopOf_loop hn, Option.map_some, Option.map_some, id_of_key hdkey]

/-- A loop over items is found itself, another loop lets the search pass. -/
theorem enter_loop {p : Place} (h : Guides E (k + 1) s chain enclosing p.found [n]) :
    Guides E k s (n.inside chain) (n.id :: enclosing) (p.foundIn n) cs := by
  unfold inside Place.foundIn
  cases head with
  | each target iter =>
    have hscope : n.opensScope = true := by simp [opensScope, hn, Head.shape]
    rw [hscope]
    exact enter_each hinner hn
  | «while» test =>
    have hscope : n.opensScope = false := by simp [opensScope, hn, Head.shape]
    rw [hscope]
    exact enter_while hinner hn h

end

/-- A search from inside a scope that is no loop: first its body, then what is around it. -/
theorem findByKindFrom_scope (hkey : s.keyAt n.id = some n.key) (hn : n.shape.opening? = some (o, body, orelse))
    (ho : ∀ head, o ≠ .loop head) (hbody : ∀ b ∈ body, Sees A (k + 2) s b) (hk : k + 3 ≤ nestingLimit)
    (hfound : ∀ f, (lastLoop body).or found = some f → f.parted = true → A f.id)
    (houter : lastLoop body = none → Finds (findByKindFrom isLoop chain) s found) :
    Finds (findByKindFrom isLoop (n.id :: chain)) s ((lastLoop body).or found) := by
  obtain ⟨i, hi⟩ := exists_nestingLimit
  obtain ⟨b, hids, hsearch⟩ := findByKindFrom_body chain hkey hn ho
  obtain ⟨f, hf, hfeq⟩ := Sees.findInBody_ok hbody hids (show k + 2 ≤ i by omega)
  rw [Finds, hsearch f (hi ▸ hf)]
  cases hlast : lastLoop body with
  | none =>
    have hnone : f = none := by simpa [hlast] using hfeq
    subst hnone
    exact houter hlast
  | some g =>
    have hg := hfeq fun f hf => hfound f (by rw [hf, Option.some_or])
    rw [hlast] at hg
    obtain ⟨f, rfl⟩ : ∃ f', f = some f' := by
      cases f with
      | none => cases hg
      | some f => exact ⟨f, rfl⟩
    exact ⟨some f, rfl, hg⟩

/-- In a branch, what matters is that a search in its first body goes well. -/
theorem enter_branch (h : Guides E (k + 1) s chain enclosing found [n]) (hinner : Inner k s n cs)
    (hn : n.shape = .cond test body orelse) (htest : Holds k s test) (hblock : test.isBlock = false)
    (htestids : ∀ id ∈ test.ids k, id < s.next ∧ id ∉ idsOf k cs)
    (hbody : ∀ s' A, Moved (idsOf k cs) E s s' → (∀ id, A id → id ∈ n.id :: enclosing ∨ id ∈ idsOf k cs) →
      (∀ c ∈ cs, Sees A (k + 2) s' c) → ∀ b ∈ body, Sees A (k + 2) s' b) (hk : k + 3 ≤ nestingLimit) :
    Guides E k s (n.id :: chain) (n.id :: enclosing) ((lastLoop body).or found) cs := by
  have hopening := opening?_cond hn
  intro s' A hmoved hA hsees hfound
  have hbody' := hbody s' A hmoved hA hsees
  have htest' : current test s' = .ok test s' :=
    current_of_holds (hmoved.holds htest (fun id hid => (htestids id hid).1) fun id hid => (htestids id hid).2) hblock
  refine findByKindFrom_scope (hinner.moved hmoved) hopening nofun hbody' hk hfound fun hnone => ?_
  refine h s' A (hinner.outer hmoved) (hinner.allowed hA) ?_ fun f hf => hfound f (by rw [hnone, Option.none_or, hf])
  -- seen from outside, a search in the branch is a search in its body
  intro c hc j hj m hm
  obtain rfl := mem_singleton.1 hc
  obtain ⟨d, hd, hdkey⟩ := current_of_keyAt (show s'.keyAt m.id = some c.key by rw [hm, hinner.moved hmoved])
  obtain ⟨b, e, hd', hids, _⟩ := opening?_of_key hdkey hopening
  obtain ⟨i, rfl⟩ := exists_succ_of_lt hj
  rw [Sees.findAt_cond hd (Shape.eq_shape_of_opening? hd').1 htest' hblock, loopOf_cond hn]
  exact Sees.findInBody_ok hbody' hids (by omega)

theorem enter_module (hinner : Inner k s n cs) (hn : n.shape = .module body)
    (hbody : ∀ s' A, Moved (idsOf k cs) E s s' → (∀ id, A id → id ∈ [n.id] ∨ id ∈ idsOf k cs) →
      (∀ c ∈ cs, Sees A (k + 2) s' c) → ∀ b ∈ body, Sees A (k + 2) s' b) (hk : k + 3 ≤ nestingLimit) :
    Guides E k s [n.id] [n.id] ((lastLoop body).or none) cs := by
  intro s' A hmoved hA hsees hfound
  have hopening : n.shape.opening? = some (.module, body, []) := by rw [hn]; rfl
  exact findByKindFrom_scope (hinner.moved hmoved) hopening nofun (hbody s' A hmoved hA hsees) hk
    hfound fun _ => ⟨none, rfl, rfl⟩

end Guides
end Polyglot
