import Polyglot.Proofs.Frame
import Polyglot.Proofs.Widths

/-!
# The types of sums

When types are inferred, a sum of variables that are declared with integers of fixed width is annotated with the name of
the type that the row of types gives for it.
-/
namespace Polyglot

open Session Effect List Node Option IntType

variable {J : List NodeId} {id : NodeId} {x : String} {u : Usage}

namespace Inference

/-! ### The pass over a sum -/

/-- A step that makes new nodes and annotates nodes among `I`. All else is as it was. -/
structure Annotates (I : List NodeId) (s s' : Session) : Prop where
  next_le : s.next ≤ s'.next
  nodes_eq : ∀ id < s.next, s'.nodes[id]? = s.nodes[id]?
  known_eq : ∀ id, s'.known id = { s.known id with hint := (s'.known id).hint }
  hint_eq : ∀ id ∉ I, (s'.known id).hint = (s.known id).hint

namespace Annotates

variable {I : List NodeId} {s s' s'' : Session} {chain : List NodeId}

theorem annotate {n a : Node} (hn : n.id ∈ I) : ∃ s', annotate n a s = .ok () s' ∧ Annotates I s s' ∧
    s'.next = s.next ∧ s'.nodes = s.nodes ∧ (s'.known n.id).hint = some (some a.id) := by
  refine ⟨_, note_ok s n.id _, ⟨le_rfl, fun _ _ => rfl, fun id => ?_, fun id hid => ?_⟩, rfl, rfl, ?_⟩
  · rw [known_note]
    split
    · rename_i h
      rw [h]
    · rfl
  · rw [known_note, if_neg]
    rintro rfl
    exact hid hn
  · rw [known_note, if_pos rfl]

variable (h : Annotates I s s')
include h

theorem trans (h' : Annotates I s' s'') : Annotates I s s'' where
  next_le := h.next_le.trans h'.next_le
  nodes_eq id hid := (h'.nodes_eq id (hid.trans_le h.next_le)).trans (h.nodes_eq id hid)
  known_eq id := by rw [h'.known_eq id, h.known_eq id]
  hint_eq id hid := (h'.hint_eq id hid).trans (h.hint_eq id hid)

theorem content_eq (hid : id < s.next) : s'.content id = s.content id := by
  unfold content
  rw [Std.TreeMap.getD_eq_getD_getElem?, Std.TreeMap.getD_eq_getD_getElem?, h.nodes_eq id hid]

theorem tables_eq (id : NodeId) : s'.tables id = s.tables id := by
  unfold tables
  rw [h.known_eq id]

theorem scopesOf_eq (id : NodeId) : s'.scopesOf id = s.scopesOf id := by
  change (s'.known id).scopes = (s.known id).scopes
  rw [h.known_eq id]

end Annotates

def InView (s : Session) (chain : List NodeId) : Prop := ∀ id ∈ chain, ∀ i ∈ s.view id, i < s.next

structure NamesType (s : Session) (t : Node) (type : IntType) : Prop where
  lt : t.id < s.next
  known : s.nodes[t.id]? = some t
  shape : ∃ name u, t.shape = .name name u ∧ ofName name = some type

def TypedAs (s : Session) (n : Node) (type : IntType) : Prop :=
  ∃ t, (s.known n.id).hint = some (some t.id) ∧ NamesType s t type

/-- A definition that says a type: a parameter, or a variable that is declared where it is seen. It stands outside of
`I`. -/
structure Says (s : Session) (I : List NodeId) (d : Node) (type : IntType) : Prop where
  outside : d.id ∉ I
  known : s.nodes[d.id]? = some d
  lt : d.id < s.next
  kind : (∃ y a t, d.shape = .arg y (some a) ∧ a.id = t.id ∧ NamesType s t type) ∨
    ∃ y u chain, d.shape = .name y u ∧ TypedAs s d type ∧ s.scopesOf d.id = some chain ∧ InView s chain ∧
      s.seen (some y) chain = some d

variable {I : List NodeId} {s s' : Session} {n d t : Node} {chain : List NodeId} {type : IntType}

section

variable (hs : Annotates I s s')
include hs

theorem InView.annotates (h : InView s chain) : InView s' chain := by
  intro id hid i hi
  have hview : s'.view id = s.view id := by
    unfold view
    rw [hs.tables_eq, hs.content_eq (h id hid id mem_cons_self)]
  exact (h id hid i (hview ▸ hi)).trans_le hs.next_le

theorem InView.seen_eq (h : InView s chain) (name : Option String) :
    s'.seen name chain = s.seen name chain :=
  Scope.seen_congr fun id hid => ⟨hs.tables_eq id, fun i hi => hs.content_eq (h id hid i hi)⟩

theorem NamesType.annotates (h : NamesType s t type) : NamesType s' t type :=
  ⟨h.lt.trans_le hs.next_le, (hs.nodes_eq _ h.lt).trans h.known, h.shape⟩

theorem TypedAs.annotates (h : TypedAs s n type) (hn : n.id ∉ I) : TypedAs s' n type := by
  obtain ⟨t, hhint, ht⟩ := h
  exact ⟨t, (hs.hint_eq _ hn).trans hhint, ht.annotates hs⟩

end

theorem Says.annotates (h : Says s I d type) (hs : Annotates J s s') (hJ : J ⊆ I) :
    Says s' I d type where
  outside := h.outside
  known := (hs.nodes_eq _ h.lt).trans h.known
  lt := h.lt.trans_le hs.next_le
  kind := by
    rcases h.kind with ⟨y, a, t, hd, ha, ht⟩ | ⟨y, u, chain, hd, htyped, hchain, hview, hseen⟩
    · exact .inl ⟨y, a, t, hd, ha, ht.annotates hs⟩
    · exact .inr ⟨y, u, chain, hd, htyped.annotates hs fun hmem => h.outside (hJ hmem), (hs.scopesOf_eq _).trans hchain,
        hview.annotates hs, (hview.seen_eq hs _).trans hseen⟩

/-- A definition that says a type mentions a node that names it. -/
theorem Says.mention (h : Says s I d type) : ∃ t, s.mention d = some (some t) ∧ NamesType s t type := by
  rcases h.kind with ⟨y, a, t, hd, ha, ht⟩ | ⟨y, u, _, hd, ⟨t, hhint, ht⟩, _⟩
  · refine ⟨t, ?_, ht⟩
    simp only [Session.mention, now_of_getElem? h.known, hd, map_some]
    rw [now_of_getElem? (ha ▸ ht.known)]
  · refine ⟨t, ?_, ht⟩
    simp only [Session.mention, now_of_getElem? h.known, hd, inferred, hhint, map_some]
    rw [content_of_getElem? ht.known]

theorem chain?_ok {c : Option (List NodeId)} (h : s.scopesOf n.id = c) : Scope.chain? n s = .ok c s :=
  (bind_ok (factsOf_ok s n.id)).trans (congrArg (EStateM.Result.ok · s) h)

theorem find_of_seen {name : Option String} (h : s.seen name chain = some d) : Scope.find chain name s = .ok (some d) s :=
  Scope.find_ok.trans (congrArg (EStateM.Result.ok · s) h)

/-- A definition that says a type has the type that it says. -/
theorem Says.typeStep_ok (h : Says s I d type) (self : Option Node → Analysis (Option Node)) :
    typeStep self (some d) s = .ok (s.mention d).join s := by
  unfold typeStep
  rcases h.kind with ⟨y, a, t, hd, _⟩ | ⟨y, u, chain, hd, _, hchain, _, hseen⟩
  · simp only [hd]
    exact hintOf_ok s d
  · simp only [hd]
    rw [bind_ok (chain?_ok hchain)]
    dsimp only
    rw [bind_ok (find_of_seen hseen)]
    simp only [BEq.rfl, if_true]
    exact hintOf_ok s d

/-- So has every other name that is seen as the definition. -/
theorem Says.typeOf_ok (h : Says s I d type) (hn : n.id ∈ I) (hknown : s.nodes[n.id]? = some n)
    (hshape : n.shape = .name x u) (hchain : s.scopesOf n.id = some chain) (hseen : s.seen (some x) chain = some d) :
    ∃ t, typeOf n s = .ok (some t) s ∧ NamesType s t type := by
  obtain ⟨t, hmention, ht⟩ := h.mention
  refine ⟨t, ?_, ht⟩
  obtain ⟨m, hm⟩ : ∃ m, nestingLimit = m + 2 := ⟨998, nestingLimit_eq⟩
  have hne : (d.id == n.id) = false := beq_eq_false_iff_ne.2 fun heq => h.outside (heq ▸ hn)
  unfold typeOf
  rw [bind_ok (current_ok s n), now_of_getElem? hknown]
  unfold typeOf?
  rw [hm]
  change typeStep (tie typeStep _ (m + 1)) (some n) s = _
  unfold typeStep
  simp only [hshape]
  rw [bind_ok (chain?_ok hchain)]
  dsimp only
  rw [bind_ok (find_of_seen hseen)]
  simp only [hne, Bool.false_eq_true, if_false]
  exact (h.typeStep_ok _).trans (by rw [hmention]; rfl)

def sumOf : Nat → Node → Option Sum
  | 0, _ => none
  | k + 1, n =>
    match n.shape with
    | .name x _ => some (.named x)
    | .binOp l .add r => (sumOf k l).bind fun a => (sumOf k r).map a.plus
    | _ => none

/-- A sum stands in a program: its nodes are there, each once and in one scope, and from there its variables are seen as
definitions that say their types. The definitions stand outside of `I`, and the sum within. -/
structure Stands (I : List NodeId) (types : String → IntType) (k : Nat) (s : Session) (chain : List NodeId) (n : Node)
    (e : Sum) : Prop where
  sum : sumOf k n = some e
  holds : Holds k s n
  nodup : (n.ids k).Nodup
  within : n.ids k ⊆ I
  lt : ∀ id ∈ n.ids k, id < s.next
  scopes : ∀ id ∈ n.ids k, s.scopesOf id = some chain
  inView : InView s chain
  declared : ∀ x ∈ e.names, ∃ d, s.seen (some x) chain = some d ∧ Says s I d (types x)

variable {types : String → IntType} {k : Nat} {e : Sum} {l r : Node}

theorem Stands.annotates (h : Stands I types k s chain n e) (hs : Annotates J s s') (hJ : J ⊆ I) :
    Stands I types k s' chain n e where
  sum := h.sum
  holds := h.holds.congr fun id hid => congrArg (Option.map Node.key) (hs.nodes_eq id (h.lt id hid))
  nodup := h.nodup
  within := h.within
  lt id hid := (h.lt id hid).trans_le hs.next_le
  scopes id hid := (hs.scopesOf_eq id).trans (h.scopes id hid)
  inView := h.inView.annotates hs
  declared x hx := by
    obtain ⟨d, hseen, hd⟩ := h.declared x hx
    exact ⟨d, (h.inView.seen_eq hs _).trans hseen, hd.annotates hs hJ⟩

theorem Stands.known (h : Stands I types k s chain n e) : s.nodes[n.id]? = some n := by
  obtain ⟨k, rfl⟩ := h.holds.exists_succ
  obtain ⟨c, hc, hkey⟩ := map_eq_some_iff.1 h.holds.1
  have hopening : n.shape.opening? = none := by
    have hsum := h.sum
    unfold sumOf at hsum
    cases hn : n.shape with
    | module | cond | forLoop | whileLoop => rw [hn] at hsum; cases hsum
    | _ => rfl
  rw [hc, eq_of_key hkey hopening]

/-- A sum is a variable, or it is made of two sums that stand beside each other. -/
theorem Stands.cases (h : Stands I types (k + 1) s chain n e) :
    (∃ x u, n.shape = .name x u ∧ e = .named x) ∨
      ∃ l r a b, n.shape = .binOp l .add r ∧ e = .plus a b ∧ Stands I types k s chain l a ∧ Stands I types k s chain r b ∧
        n.id ∉ l.ids k ++ r.ids k ∧ (l.ids k).Disjoint (r.ids k) := by
  have hsum := h.sum
  unfold sumOf at hsum
  split at hsum
  · rename_i x u hn
    cases hsum
    exact .inl ⟨x, u, hn, rfl⟩
  · rename_i l r hn
    obtain ⟨a, ha, hsum⟩ := bind_eq_some_iff.1 hsum
    obtain ⟨b, hb, rfl⟩ := map_eq_some_iff.1 hsum
    have hchildren : n.children = [l, r] := by simp [Node.children, hn, Shape.children]
    have hids : n.ids (k + 1) = n.id :: (l.ids k ++ r.ids k) := by simp [Node.ids, hchildren]
    have hnodup := hids ▸ h.nodup
    obtain ⟨hnot, hnodup⟩ := nodup_cons.1 hnodup
    obtain ⟨hl, hr, hdisjoint⟩ := nodup_append'.1 hnodup
    have hpart (c : Node) (d : Sum) (hc : c ∈ n.children) (hd : sumOf k c = some d) (hnodup : (c.ids k).Nodup)
        (hnames : d.names ⊆ (a.plus b).names) : Stands I types k s chain c d :=
      { sum := hd
        holds := h.holds.2 c hc
        nodup := hnodup
        within := fun id hid => h.within (ids_subset_of_mem hc hid)
        lt := fun id hid => h.lt id (ids_subset_of_mem hc hid)
        scopes := fun id hid => h.scopes id (ids_subset_of_mem hc hid)
        inView := h.inView
        declared := fun x hx => h.declared x (hnames hx) }
    exact .inr ⟨l, r, a, b, hn, rfl, hpart l a (by simp [hchildren]) ha hl (subset_append_left ..),
      hpart r b (by simp [hchildren]) hb hr (subset_append_right ..), hnot, hdisjoint⟩
  · cases hsum

theorem Annotates.mono (h : Annotates J s s') (hJ : J ⊆ I) : Annotates I s s' :=
  ⟨h.next_le, h.nodes_eq, h.known_eq, fun id hid => h.hint_eq id fun hmem => hid (hJ hmem)⟩

theorem annotate_typeName {name : String} (hn : n.id ∈ I) (hname : ofName name = some type) :
    ∃ s', (do annotate n (← typeName name) : Analysis Unit) s = .ok () s' ∧ Annotates I s s' ∧ TypedAs s' n type := by
  let t : Node := ⟨s.next, none, none, .name name .unset⟩
  let s1 : Session := { s with next := s.next + 1, nodes := s.nodes.insert t.id t }
  have hfresh : typeName name s = .ok t s1 := rfl
  have hnew : Annotates I s s1 := by
    refine ⟨Nat.le_succ _, fun id hid => ?_, fun _ => rfl, fun _ _ => rfl⟩
    exact (getElem?_insert ..).trans (if_neg (Nat.ne_of_gt hid))
  obtain ⟨s2, hannotate, hs2, hnext, hnodes, hhint⟩ := Annotates.annotate (s := s1) (a := t) hn
  refine ⟨s2, (bind_ok hfresh).trans hannotate, hnew.trans hs2, t, hhint, ?_, ?_, name, .unset, rfl, hname⟩
  · rw [hnext]
    exact Nat.lt_succ_self _
  · rw [hnodes]
    exact Std.TreeMap.getElem?_insert_self

theorem Stands.annotation_ok (h : Stands I types k s chain n e) (htyped : TypedAs s n type) :
    ∃ t, hintOf n s = .ok (some t) s ∧ NamesType s t type := by
  obtain ⟨t, hhint, ht⟩ := htyped
  have hinferred : s.inferred n.id = some (some t) := by
    simp only [inferred, hhint, map_some, content_of_getElem? ht.known]
  refine ⟨t, (hintOf_ok s n).trans ?_, ht⟩
  obtain ⟨k, rfl⟩ := h.holds.exists_succ
  rcases h.cases with ⟨_, _, hn, _⟩ | ⟨_, _, _, _, hn, _⟩
  all_goals
    simp only [Session.mention, now_of_getElem? h.known, hn, hinferred]
    rfl

theorem Stands.operandType_ok (h : Stands I types k s chain l e) (hn : s.scopesOf n.id = some chain)
    (htyped : TypedAs s l (e.type types)) :
    ∃ t, operandType n l s = .ok (some t) s ∧ NamesType s t (e.type types) := by
  obtain ⟨k, rfl⟩ := h.holds.exists_succ
  unfold operandType
  rcases h.cases with ⟨x, u, hl, rfl⟩ | ⟨_, _, _, _, hl, _⟩
  · obtain ⟨d, hseen, hd⟩ := h.declared x mem_cons_self
    obtain ⟨t, hmention, ht⟩ := hd.mention
    have hdefinition : definitionOf n l s = .ok (some d) s := by
      unfold definitionOf
      simp only [hl]
      rw [bind_ok (Scope.chainOf_eq_ok.2 ⟨hn, rfl⟩), find_of_seen hseen]
    rw [bind_ok hdefinition]
    exact ⟨t, (hintOf_ok s d).trans (by rw [hmention]; rfl), ht⟩
  · have hdefinition : definitionOf n l s = .ok (some l) s := by
      unfold definitionOf
      simp only [hl]
      rfl
    rw [bind_ok hdefinition]
    exact h.annotation_ok htyped

theorem joinOperands_ok {a b : IntType} (hn : n.id ∈ I) (hl : NamesType s l a) (hr : NamesType s r b) :
    ∃ s', joinOperands n .add l r s = .ok () s' ∧ Annotates I s s' ∧ TypedAs s' n (a.plus b) := by
  have hfixed : ∀ p ∈ names, (p.1 == "int") = false ∧ widthNames.contains p.1 = true := by decide
  obtain ⟨x, u, hx, hxname⟩ := hl.shape
  obtain ⟨y, w, hy, hyname⟩ := hr.shape
  obtain ⟨hxint, hxfixed⟩ := hfixed _ (mem_of_lookup hxname)
  obtain ⟨hyint, hyfixed⟩ := hfixed _ (mem_of_lookup hyname)
  obtain ⟨s', hs', hannotates, htyped⟩ := annotate_typeName (s := s) hn (ofName_widened hxname hyname)
  refine ⟨s', ?_, hannotates, htyped⟩
  unfold joinOperands
  simp only [ident?_of_name hx, ident?_of_name hy, some_beq_some, hxint, hyint, Bool.and_false, Bool.false_eq_true, if_false,
    any_some, hxfixed, hyfixed, Bool.and_true, if_true, getD_some]
  exact hs'

def AllTyped (types : String → IntType) (s : Session) : Nat → Node → Prop
  | 0, _ => False
  | k + 1, n => (∃ a, sumOf (k + 1) n = some a ∧ TypedAs s n (a.type types)) ∧ ∀ c ∈ n.children, AllTyped types s k c

theorem AllTyped.typedAs (h : AllTyped types s k n) (he : sumOf k n = some e) : TypedAs s n (e.type types) := by
  cases k with
  | zero => exact h.elim
  | succ k =>
    obtain ⟨a, ha, htyped⟩ := h.1
    obtain rfl : a = e := some.inj (ha.symm.trans he)
    exact htyped

theorem AllTyped.annotates (h : AllTyped types s k n) (hs : Annotates J s s') (hJ : ∀ id ∈ n.ids k, id ∉ J) :
    AllTyped types s' k n := by
  induction k generalizing n with
  | zero => exact h
  | succ k ih =>
    obtain ⟨⟨a, ha, htyped⟩, hparts⟩ := h
    refine ⟨⟨a, ha, htyped.annotates hs (hJ _ mem_cons_self)⟩, fun c hc => ih (hparts c hc) fun id hid => ?_⟩
    exact hJ id (ids_subset_of_mem hc hid)

/-- The pass over a sum returns. It annotates the nodes of the sum only, and each part with the name of its type. -/
theorem visit_sum (stop : Node → Analysis Unit) {j : Nat} (h : Stands I types k s chain n e) (hk : k ≤ j) :
    ∃ s', tie (step rules) stop j n s = .ok () s' ∧ Annotates (n.ids k) s s' ∧ AllTyped types s' k n := by
  induction k generalizing j s n e with
  | zero => exact h.holds.elim
  | succ k ih =>
    obtain ⟨j, rfl⟩ := exists_succ_of_lt hk
    have hid := h.holds.mem_ids .self
    change ∃ s', step rules (tie (step rules) stop j) n s = .ok () s' ∧ _
    rcases h.cases with ⟨x, u, hn, rfl⟩ | ⟨l, r, a, b, hn, rfl, hl, hr, hnot, hdisjoint⟩
    · obtain ⟨d, hseen, hd⟩ := h.declared x mem_cons_self
      obtain ⟨t, htype, ht⟩ := hd.typeOf_ok (h.within hid) h.known hn (h.scopes _ hid) hseen
      obtain ⟨s', hannotate, hs', _, _, hhint⟩ := Annotates.annotate (s := s) (a := t) hid
      refine ⟨s', ?_, hs', ⟨_, h.sum, t, hhint, ht.annotates hs'⟩, ?_⟩
      · simp only [step, hn]
        rw [bind_ok htype]
        exact hannotate
      · simp [Node.children, hn, Shape.children]
    · have hchildren : n.children = [l, r] := by simp [Node.children, hn, Shape.children]
      have hsub {c : Node} (hc : c ∈ [l, r]) : c.ids k ⊆ n.ids (k + 1) := ids_subset_of_mem (hchildren ▸ hc)
      obtain ⟨s1, h1, hs1, htl⟩ := ih hl (j := j) (by omega)
      have hr1 := hr.annotates hs1 hl.within
      obtain ⟨s2, h2, hs2, htr⟩ := ih hr1 (j := j) (by omega)
      have hs12 : Annotates (n.ids (k + 1)) s s2 := (hs1.mono (hsub (by simp))).trans (hs2.mono (hsub (by simp)))
      have hl2 := hl.annotates hs12 h.within
      have hr2 := hr.annotates hs12 h.within
      have htl := htl.annotates hs2 fun id hid => hdisjoint hid
      have hscopes : s2.scopesOf n.id = some chain := (hs12.scopesOf_eq _).trans (h.scopes _ hid)
      obtain ⟨t, ht, htname⟩ := hl2.operandType_ok hscopes (htl.typedAs hl.sum)
      obtain ⟨u, hu, huname⟩ := hr2.operandType_ok hscopes (htr.typedAs hr.sum)
      obtain ⟨s3, h3, hs3, htyped⟩ := joinOperands_ok (I := [n.id]) mem_cons_self htname huname
      refine ⟨s3, ?_, hs12.trans (hs3.mono (cons_subset.2 ⟨hid, nil_subset _⟩)), ⟨_, h.sum, htyped⟩, ?_⟩
      · have hbelow : Pass.below (m := Analysis) (tie (step rules) stop j) n s = .ok () s2 := by
          unfold Pass.below
          rw [hchildren]
          have hl' := (bind_ok (current_of_getElem? hl.known)).trans h1
          have hr' := (bind_ok (current_of_getElem? hr1.known)).trans h2
          exact (bind_ok hl').trans (bind_ok hr')
        simp only [step, hn]
        change binOpRule _ n s = _
        unfold binOpRule
        rw [bind_ok hbelow]
        simp only [hn]
        rw [bind_ok (current_ok s2 l), now_of_getElem? hl2.known, bind_ok ht, bind_ok (current_ok s2 r),
          now_of_getElem? hr2.known, bind_ok hu]
        exact h3
      · have hapart (c : Node) (hc : c.ids k ⊆ l.ids k ++ r.ids k) : ∀ id ∈ c.ids k, id ∉ [n.id] := by
          rintro id hid hmem
          obtain rfl := mem_singleton.1 hmem
          exact hnot (hc hid)
        rw [hchildren]
        simp only [forall_mem_cons, not_mem_nil, false_implies, implies_true, and_true]
        exact ⟨htl.annotates hs3 (hapart l (subset_append_left ..)),
          htr.annotates hs3 (hapart r (subset_append_right ..))⟩

/-- Wherever a sum of variables of fixed width stands, the pass over it returns and annotates each part of it with the
name of a type. If no operand has 64 bits, every value of the sum is one of its type if and only if signed and unsigned
variables are not mixed in it. And whatever the widths, the type of the sum has no fewer bits than those of both operands
if and only if none of them is signed and has more than twice the bits of the other, unsigned one. -/
theorem sum_in_range_iff (types : String → IntType) (k j : Nat) (s : Session) (chain : List NodeId) (n : Node) (e : Sum)
    (stop : Node → Analysis Unit) (h : Stands (n.ids k) types k s chain n e) (hk : k ≤ j) :
    ∃ s' t name u, tie (step rules) stop j n s = .ok () s' ∧ AllTyped types s' k n ∧
      hintOf n s' = .ok (some t) s' ∧ t.shape = .name name u ∧ IntType.ofName name = some (e.type types) ∧
      (e.Narrow types → (e.Fits types ↔ ¬ e.Mixed types)) ∧
      ∀ a b, e = .plus a b →
        ((a.type types).bits ≤ (e.type types).bits ∧ (b.type types).bits ≤ (e.type types).bits ↔
          ¬ ((a.type types).Outgrows (b.type types) ∨ (b.type types).Outgrows (a.type types))) := by
  obtain ⟨s', hvisit, hs', htyped⟩ := visit_sum stop h hk
  obtain ⟨t, hhint, ht⟩ := (h.annotates hs' (List.Subset.refl _)).annotation_ok (htyped.typedAs h.sum)
  obtain ⟨name, u, hshape, hname⟩ := ht.shape
  refine ⟨s', t, name, u, hvisit, htyped, hhint, hshape, hname, Sum.fits_iff, ?_⟩
  rintro a b rfl
  exact bits_le_plus_iff (a.type types) (b.type types)

def nameNode (id : NodeId) (x : String) : Node := ⟨id, none, none, .name x .load⟩

def threefold : Node :=
  ⟨10, none, none, .binOp ⟨8, none, none, .binOp (nameNode 6 "a") .add (nameNode 7 "a")⟩ .add (nameNode 9 "b")⟩

/-- It stands in a scope with a parameter of eight bits and one that is a truth value. -/
def scopeOfTwo : Session :=
  { next := 11
    nodes := .ofList ([⟨1, none, none, .module []⟩, ⟨2, none, none, .arg "a" (some (nameNode 3 "i8"))⟩, nameNode 3 "i8",
      ⟨4, none, none, .arg "b" (some (nameNode 5 "bool"))⟩, nameNode 5 "bool", nameNode 6 "a", nameNode 7 "a",
      ⟨8, none, none, .binOp (nameNode 6 "a") .add (nameNode 7 "a")⟩, nameNode 9 "b", threefold].map
        fun n : Node => (n.id, n))
    facts := .ofList ((1, ({ vars := some [some 2, some 4] } : Facts)) ::
      [6, 7, 8, 9, 10].map fun id => (id, { scopes := some [1] })) }

/-- It is given 32 bits, and every value of it fits. -/
theorem threefold_in_range :
    let types : String → IntType := fun x => if x = "a" then .signed .w8 else .bool
    let e : Sum := .plus (.plus (.named "a") (.named "a")) (.named "b")
    Stands (threefold.ids 3) types 3 scopeOfTwo [1] threefold e ∧ e.Fits types ∧
      ∃ s' t name u, tie (step rules) (fun _ => pure ()) 5 threefold scopeOfTwo = .ok () s' ∧
        hintOf threefold s' = .ok (some t) s' ∧ t.shape = .name name u ∧ ofName name = some (.signed .w32) := by
  intro types e
  have hstands : Stands (threefold.ids 3) types 3 scopeOfTwo [1] threefold e :=
    { sum := rfl
      holds := by
        have hname (c : Node) (hc : scopeOfTwo.keyAt c.id = some c.key) (hnone : c.children = []) :
            ∀ j, Holds (j + 1) scopeOfTwo c := fun j => ⟨hc, by rw [hnone]; exact forall_mem_nil _⟩
        refine ⟨rfl, forall_mem_cons.2 ⟨⟨rfl, ?_⟩, forall_mem_singleton.2 (hname _ rfl rfl 1)⟩⟩
        exact forall_mem_cons.2 ⟨hname _ rfl rfl 0, forall_mem_singleton.2 (hname _ rfl rfl 0)⟩
      nodup := by decide
      within := List.Subset.refl _
      lt := by decide
      scopes := by decide
      inView := by unfold InView; decide
      declared := by
        have ha : Says scopeOfTwo (threefold.ids 3) ⟨2, none, none, .arg "a" (some (nameNode 3 "i8"))⟩ (types "a") :=
          ⟨by decide, rfl, by decide, .inl ⟨_, _, _, rfl, rfl, by decide, rfl, _, _, rfl, rfl⟩⟩
        have hb : Says scopeOfTwo (threefold.ids 3) ⟨4, none, none, .arg "b" (some (nameNode 5 "bool"))⟩ (types "b") :=
          ⟨by decide, rfl, by decide, .inl ⟨_, _, _, rfl, rfl, by decide, rfl, _, _, rfl, rfl⟩⟩
        simp only [e, Sum.names, cons_append, nil_append, forall_mem_cons]
        exact ⟨⟨_, rfl, ha⟩, ⟨_, rfl, ha⟩, ⟨_, rfl, hb⟩, forall_mem_nil _⟩ }
  obtain ⟨s', t, name, u, hvisit, _, hhint, hshape, hname, hfits, _⟩ :=
    sum_in_range_iff types 3 5 scopeOfTwo [1] threefold e (fun _ => pure ()) hstands (by decide)
  refine ⟨hstands, (hfits ?_).2 ?_, s', t, name, u, hvisit, hhint, hshape, hname⟩
  · exact ⟨⟨trivial, trivial, by decide, by decide⟩, trivial, by decide, by decide⟩
  · unfold Sum.Mixed
    decide

def resultOf (source : String) : Option IntType :=
  match (do
    let n ← readProgram source
    let _ ← Run.analyse [] n
    match (← refresh n).shape with
    | .module [⟨_, _, _, .functionDef f⟩] => return f.returns.bind Node.ident?
    | _ => return none : Analysis (Option String)) {} with
  | .ok name _ => name.bind ofName
  | .error _ _ => none

/-- The sum of a signed and an unsigned integer has an unsigned type. Minus one is then out of range, and with 32 bits
against eight the type has fewer bits than an operand. -/
theorem mixed_sum_out_of_range :
    resultOf "def f(a: i8, b: u8):\n    return a + b\n" = some (.unsigned .w16) ∧
      IntType.Has (.signed .w8) (-1) ∧ IntType.Has (.unsigned .w8) 0 ∧ ¬ IntType.Has (.unsigned .w16) (-1 + 0) ∧
      resultOf "def f(a: i32, b: u8):\n    return a + b\n" = some (.unsigned .w16) ∧
      IntType.bits (.unsigned .w16) < IntType.bits (.signed .w32) := by
  decide +kernel

end Inference
end Polyglot
