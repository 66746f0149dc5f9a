import Mathlib.Data.List.Nodup
import Polyglot.Proofs.Outline
import Polyglot.Proofs.Isolation

/-!
# Names for temporaries

Four lowerings put names into a program that were not there. Each counts for itself, and the names of all of them are
the same word with a number. So they meet the names of another run, or of the program, exactly in the numbers that both
have.
-/
namespace Polyglot
open Session Effect List Lowering Shape

variable {lang : Language} {shape : Shape Node} {line : Option Nat} {n c m : Node} {step : Lowering}

def Shape.word? {α : Type} : Shape α → Option String
  | .name x _ => some x
  | _ => none

/-- A word with the numbers after `i` up to `j`. -/
def numbered (word : String) (i j : Nat) : List String := (List.range' (i + 1) (j - i)).map fun k => word ++ toString k

section

variable {word x : String} {i j k : Nat}

theorem mem_numbered : x ∈ numbered word i j ↔ ∃ k, i < k ∧ k ≤ j ∧ x = word ++ toString k := by
  simp only [numbered, mem_map, mem_range'_1]
  constructor
  · rintro ⟨k, hk, rfl⟩
    exact ⟨k, by omega, by omega, rfl⟩
  · rintro ⟨k, hik, hkj, rfl⟩
    exact ⟨k, by omega, rfl⟩

theorem range'_append_range' (hij : i ≤ j) (hjk : j ≤ k) :
    List.range' i (j - i) ++ List.range' j (k - j) = List.range' i (k - i) := by
  have hrange := range'_append_1 (s := i) (m := j - i) (n := k - j)
  rwa [show i + (j - i) = j by omega, show j - i + (k - j) = k - i by omega] at hrange

theorem numbered_append (hij : i ≤ j) (hjk : j ≤ k) : numbered word i j ++ numbered word j k = numbered word i k := by
  have hrange := range'_append_range' (Nat.succ_le_succ hij) (Nat.succ_le_succ hjk)
  rw [Nat.succ_sub_succ, Nat.succ_sub_succ, Nat.succ_sub_succ] at hrange
  rw [numbered, numbered, ← map_append, hrange, numbered]

theorem append_toString_inj : word ++ toString i = word ++ toString j ↔ i = j := by
  refine ⟨fun h => ?_, fun h => h ▸ rfl⟩
  have hdigits : Nat.toDigits 10 i = Nat.toDigits 10 j := by
    rwa [String.append_right_inj, Nat.toString_eq_ofList_toDigits, Nat.toString_eq_ofList_toDigits,
      String.ofList_inj] at h
  rw [← Nat.ofDigitChars_ten_toDigits (n := i), hdigits, Nat.ofDigitChars_ten_toDigits]

theorem nodup_numbered : (numbered word i j).Nodup :=
  List.Nodup.map (fun _ _ h => append_toString_inj.1 h) nodup_range'

end

namespace Session

def given (s : Session) (kind : String) : Nat := (s.temporaries.lookup kind).getD 0

def nameAt (s : Session) (id : NodeId) : Option (Option String) := s.nodes[id]?.map (·.shape.word?)

/-- The names among the nodes that were made since, in order. -/
def newNames (s t : Session) : List String := (List.range' s.next (t.next - s.next)).filterMap fun id => (t.nameAt id).join

/-- The node is known, as the name that it is. -/
def Held (s : Session) (n : Node) : Prop := s.nameAt n.id = some n.shape.word?

/-- Contents go by their own identities, which were given out, and their parts are held. -/
structure Sound (s : Session) : Prop where
  keyed : s.Keyed
  below : ∀ (id : NodeId) (n : Node), s.nodes[id]? = some n → id < s.next
  children : ∀ (id : NodeId) (n : Node), s.nodes[id]? = some n → ∀ c ∈ n.children, s.Held c

/-- What names are made of, and what is counted for it. -/
structure Supply where
  word : String
  kind : String

/-- Nodes that are known stay known by their names, the new nodes that are names are numbered, and no other kind of
temporary is counted. -/
structure Names (w : Supply) (s t : Session) : Prop where
  sound : t.Sound
  next_le : s.next ≤ t.next
  kept : ∀ id x, s.nameAt id = some x → t.nameAt id = some x
  made : ∀ id, s.next ≤ id → id < t.next → ∃ x, t.nameAt id = some x
  given_le : s.given w.kind ≤ t.given w.kind
  given_eq : ∀ other, other ≠ w.kind → t.given other = s.given other
  newNames_eq : s.newNames t = numbered w.word (s.given w.kind) (t.given w.kind)

namespace Names

variable {w : Supply} {s t u : Session} {n : Node}

theorem unchanged (h : t.Sound) (hnames : t.nameAt = s.nameAt) (hnext : t.next = s.next) (hgiven : t.given = s.given) :
    Names w s t where
  sound := h
  next_le := Nat.le_of_eq hnext.symm
  kept id x hx := by rwa [hnames]
  made id hle hlt := absurd (hnext ▸ hlt) (Nat.not_lt.2 hle)
  given_le := Nat.le_of_eq (congrFun hgiven.symm w.kind)
  given_eq other _ := by rw [hgiven]
  newNames_eq := by simp [newNames, numbered, hnext, hgiven]

theorem trans (h : Names w s t) (h' : Names w t u) : Names w s u where
  sound := h'.sound
  next_le := h.next_le.trans h'.next_le
  kept id x hx := h'.kept id x (h.kept id x hx)
  made id hle hlt := by
    by_cases hid : id < t.next
    · obtain ⟨x, hx⟩ := h.made id hle hid
      exact ⟨x, h'.kept id x hx⟩
    · exact h'.made id (Nat.le_of_not_lt hid) hlt
  given_le := h.given_le.trans h'.given_le
  given_eq other ho := (h'.given_eq other ho).trans (h.given_eq other ho)
  newNames_eq := by
    rw [newNames, ← range'_append_range' h.next_le h'.next_le, filterMap_append,
      ← numbered_append h.given_le h'.given_le, ← h.newNames_eq, ← h'.newNames_eq]
    refine congrArg (· ++ _) (filterMap_congr fun id hid => ?_)
    rw [mem_range'_1, Nat.add_sub_cancel' h.next_le] at hid
    obtain ⟨x, hx⟩ := h.made id hid.1 hid.2
    rw [hx, h'.kept id x hx]

section

variable (hnodes : t.nodes = s.nodes.insert n.id n)
include hnodes

theorem nameAt_insert (id : NodeId) : t.nameAt id = if n.id = id then some n.shape.word? else s.nameAt id := by
  unfold nameAt
  rw [hnodes, getElem?_insert]
  split <;> rfl

theorem sound_of_insert (hs : s.Sound) (hkept : ∀ id x, s.nameAt id = some x → t.nameAt id = some x)
    (hle : s.next ≤ t.next) (hid : n.id < t.next) (hchildren : ∀ c ∈ n.children, s.Held c) : t.Sound := by
  have hcases {id : NodeId} {m : Node} (h : t.nodes[id]? = some m) : id = n.id ∧ m = n ∨ s.nodes[id]? = some m := by
    rw [hnodes, getElem?_insert] at h
    split at h
    · exact .inl ⟨‹n.id = id›.symm, (Option.some.inj h).symm⟩
    · exact .inr h
  refine ⟨fun id m h => ?_, fun id m h => ?_, fun id m h c hc => hkept _ _ ?_⟩
  all_goals obtain ⟨rfl, rfl⟩ | h := hcases h
  · rfl
  · exact hs.keyed id m h
  · exact hid
  · exact (hs.below id m h).trans_le hle
  · exact hchildren c hc
  · exact hs.children id m h c hc

end

theorem record (hs : s.Sound) (hn : s.Held n) (hchildren : ∀ c ∈ n.children, s.Held c) :
    Names w s { s with nodes := s.nodes.insert n.id n } := by
  have hnames : nameAt { s with nodes := s.nodes.insert n.id n } = s.nameAt := by
    funext id
    rw [nameAt_insert (s := s) rfl]
    split
    · rename_i h
      rw [← h]
      exact hn.symm
    · rfl
  obtain ⟨m, hm, -⟩ := Option.map_eq_some_iff.1 hn
  refine unchanged (sound_of_insert rfl hs ?_ le_rfl (hs.below _ m hm) hchildren) hnames rfl rfl
  exact fun id x hx => by rwa [hnames]

/-- A new node is the next temporary or no name. -/
theorem make (hs : s.Sound) (hid : n.id = s.next) (hchildren : ∀ c ∈ n.children, s.Held c)
    (hnext : t.next = s.next + 1) (hnodes : t.nodes = s.nodes.insert n.id n) (hle : s.given w.kind ≤ t.given w.kind)
    (heq : ∀ other, other ≠ w.kind → t.given other = s.given other)
    (hword : n.shape.word?.toList = numbered w.word (s.given w.kind) (t.given w.kind)) : Names w s t := by
  have hself : t.nameAt n.id = some n.shape.word? := (nameAt_insert hnodes _).trans (if_pos rfl)
  have hkept (id : NodeId) (x : Option String) (hx : s.nameAt id = some x) : t.nameAt id = some x := by
    obtain ⟨m, hm, -⟩ := Option.map_eq_some_iff.1 hx
    rwa [nameAt_insert hnodes, if_neg (hid ▸ Nat.ne_of_gt (hs.below id m hm))]
  have hlt : n.id < t.next := by
    rw [hid, hnext]
    exact Nat.lt_succ_self _
  have hnext_le : s.next ≤ t.next := hnext ▸ Nat.le_succ _
  refine ⟨sound_of_insert hnodes hs hkept hnext_le hlt hchildren, hnext_le, hkept, fun id hge hlt => ?_, hle, heq, ?_⟩
  · obtain rfl : id = n.id := by
      rw [hid]
      rw [hnext] at hlt
      exact Nat.le_antisymm (Nat.le_of_lt_succ hlt) hge
    exact ⟨_, hself⟩
  · rw [newNames, hnext, Nat.add_sub_cancel_left, ← hword, ← hid]
    cases h : n.shape.word? <;> simp [hself, h]

end Names

/-! ### Computations that number the names they make -/

section

variable {w : Supply} {kind : String} {α β : Type} {l l' : List Node} {x : Analysis α} {f : α → List Node}

/-- From nodes `l` that are held, a computation numbers the names that it makes, and holds the nodes of its result. -/
def Supplies (w : Supply) (l : List Node) (x : Analysis α) (f : α → List Node) : Prop :=
  ∀ s a t, s.Sound → (∀ n ∈ l, s.Held n) → x s = .ok a t → Names w s t ∧ ∀ n ∈ f a, t.Held n

namespace Supplies

variable {f' : β → List Node} {y : α → Analysis β} {as : List α}

theorem pure {a : α} (h : f a ⊆ l) : Supplies w l (Pure.pure a) f := by
  intro s _ t hs hl hrun
  cases hrun
  exact ⟨.unchanged hs rfl rfl rfl, fun n hn => hl n (h hn)⟩

theorem throw {e : Fault} : Supplies w l (throw e : Analysis α) f := nofun

theorem mono (h : Supplies w l x f) (hl : l ⊆ l') : Supplies w l' x f :=
  fun s a t hs hl' => h s a t hs fun n hn => hl' n (hl hn)

/-- The second computation may make use of what is known of the result of the first. -/
theorem bind_of {Q : α → Prop} (hx : Supplies w l x f) (hQ : ∀ s a t, x s = .ok a t → Q a)
    (hy : ∀ a, Q a → Supplies w (f a ++ l) (y a) f') : Supplies w l (x >>= y) f' := by
  intro s b u hs hl hrun
  obtain ⟨a, t, hxs, hyt⟩ := bind_eq_ok.1 hrun
  obtain ⟨hnames, ha⟩ := hx s a t hs hl hxs
  have hl' : ∀ n ∈ f a ++ l, t.Held n := fun n hn => (mem_append.1 hn).elim (ha n) fun hn => hnames.kept _ _ (hl n hn)
  obtain ⟨hnames', hb⟩ := hy a (hQ s a t hxs) t b u hnames.sound hl' hyt
  exact ⟨hnames.trans hnames', hb⟩

theorem bind (hx : Supplies w l x f) (hy : ∀ a, Supplies w (f a ++ l) (y a) f') : Supplies w l (x >>= y) f' :=
  hx.bind_of (fun _ _ _ _ => trivial) fun a _ => hy a

theorem current_bind {y : Node → Analysis β} (hc : c ∈ l) (hy : ∀ n, Supplies w (n :: n.children ++ l) (y n) f') :
    Supplies w l (current c >>= y) f' := by
  intro s b u hs hl hrun
  obtain ⟨n, hn, -⟩ := Option.map_eq_some_iff.1 (hl c hc)
  have hheld : s.Held n := by
    rw [Held, nameAt, hs.keyed _ n hn, hn]
    rfl
  rw [bind_ok (current_of_getElem? hn)] at hrun
  refine hy n s b u hs ?_ hrun
  rw [cons_append, forall_mem_cons]
  exact ⟨hheld, fun m hm => (mem_append.1 hm).elim (hs.children _ n hn m) (hl m)⟩

theorem mapM (h : ∀ a ∈ as, ∀ l', l ⊆ l' → Supplies w l' (y a) f') :
    Supplies w l (as.mapM y) (fun bs => bs.flatMap f') := by
  induction as generalizing l with
  | nil => exact pure (by simp)
  | cons a as ih =>
    rw [mapM_cons]
    refine (h a mem_cons_self l (List.Subset.refl l)).bind fun b => ?_
    refine (ih fun a ha l' hl' => h a (mem_cons_of_mem _ ha) l' fun n hn =>
      hl' (mem_append_right _ hn)).bind fun bs => pure ?_
    simp

theorem mapM_nodes {y : α → Analysis Node} (h : ∀ a ∈ as, ∀ l', l ⊆ l' → Supplies w l' (y a) ([·])) :
    Supplies w l (as.mapM y) (fun ms => ms) := by
  simpa using mapM h

theorem note {id : NodeId} {h : Facts → Facts} : Supplies w l (note id h) (fun _ => []) := by
  intro s _ t hs _ hrun
  cases hrun
  exact ⟨.unchanged ⟨hs.keyed, hs.below, hs.children⟩ rfl rfl rfl, forall_mem_nil _⟩

theorem lineOf : Supplies w l (lineOf n) (fun _ => []) := by
  unfold Session.lineOf
  split
  · exact pure (nil_subset _)
  · exact throw

theorem record (hm : m ∈ l) (hid : m.id = n.id) (hword : m.shape.word? = n.shape.word?) (hchildren : n.children ⊆ l) :
    Supplies w l (Session.record n) (fun _ => n :: n.children) := by
  intro s a t hs hl hrun
  cases hrun
  have hheld : s.Held n := by
    rw [Held, ← hid, ← hword]
    exact hl m hm
  have hnames : Names w s _ := .record hs hheld fun c hc => hl c (hchildren hc)
  exact ⟨hnames, forall_mem_cons.2 ⟨hnames.kept _ _ hheld, fun c hc => hnames.kept _ _ (hl c (hchildren hc))⟩⟩

theorem edit (hm : m ∈ l) (hid : m.id = n.id) (hword : m.shape.word? = shape.word?) (hchildren : shape.children ⊆ l) :
    Supplies w l (Session.edit n shape) (fun m => m :: m.children) :=
  (record (n := n.withShape shape) hm hid hword hchildren).bind fun _ => pure (subset_append_left _ _)

theorem fresh (hword : shape.word? = none) (hchildren : shape.children ⊆ l) :
    Supplies w l (Session.fresh shape) (fun m => m :: m.children) := by
  intro s n t hs hl hrun
  cases hrun
  let m : Node := ⟨s.next, none, none, shape⟩
  let u : Session := { s with next := s.next + 1, nodes := s.nodes.insert m.id m }
  have hheld : ∀ c ∈ m.children, s.Held c := fun c hc => hl c (hchildren hc)
  have hmade : Names w s u := .make (n := m) hs rfl hheld rfl rfl le_rfl (fun _ _ => rfl)
    (by simp [m, u, given, hword, numbered])
  have hm : u.Held m := (Names.nameAt_insert (s := s) rfl _).trans (if_pos rfl)
  exact ⟨hmade, forall_mem_cons.2 ⟨hm, fun c hc => hmade.kept _ _ (hheld c hc)⟩⟩

theorem placed (line col : Option Nat) {x : Analysis Node} (hx : Supplies w l x fun m => m :: m.children) :
    Supplies w l (do
      let n ← x
      let n := { n with line, col }
      Session.record n
      return n) ([·]) := by
  refine hx.bind fun n => ?_
  have hparts : n.children ⊆ n :: n.children ++ l := subset_cons_of_subset _ (subset_append_left _ _)
  exact (record (n := { n with line, col }) (m := n) (by simp) rfl rfl hparts).bind fun _ => pure (by simp)

theorem freshAt {col : Option Nat} (hword : shape.word? = none) (hchildren : shape.children ⊆ l) :
    Supplies w l (Session.freshAt line col shape) ([·]) :=
  placed line col (fresh hword hchildren)

theorem lookup_filter {other : String} {ts : List (String × Nat)} (h : other ≠ kind) :
    (ts.filter (·.1 != kind)).lookup other = ts.lookup other := by
  induction ts with
  | nil => rfl
  | cons t ts ih =>
    obtain ⟨k, i⟩ := t
    by_cases hk : k = kind
    · simp [hk, ih, lookup_cons, beq_false_of_ne h]
    · simp [hk, ih, lookup_cons]

theorem nameOn :
    Supplies w l (nextTemporary w.kind >>= fun i => Lowering.nameOn line (w.word ++ toString i)) ([·]) := by
  have hname : Supplies w l (nextTemporary w.kind >>= fun i => Session.fresh (.name (w.word ++ toString i) .unset))
      (fun m => m :: m.children) := by
    intro s n t hs _ hrun
    cases hrun
    let i := s.given w.kind + 1
    let m : Node := ⟨s.next, none, none, .name (w.word ++ toString i) .unset⟩
    let u : Session := { s with
      temporaries := (w.kind, i) :: s.temporaries.filter (·.1 != w.kind), next := s.next + 1, nodes := s.nodes.insert m.id m }
    have hkind : u.given w.kind = i := by simp [u, given]
    have hothers (other : String) (ho : other ≠ w.kind) : u.given other = s.given other := by
      simp only [u, given, lookup_cons, beq_false_of_ne ho, lookup_filter ho]
    have hmade : Names w s u := .make (n := m) hs rfl (forall_mem_nil _) rfl rfl (hkind ▸ Nat.le_succ _) hothers
      (by simp [hkind, i, m, numbered, word?])
    have hm : u.Held m := (Names.nameAt_insert (s := s) rfl _).trans (if_pos rfl)
    exact ⟨hmade, forall_mem_singleton.2 hm⟩
  have hplaced := placed line none hname
  rwa [bind_assoc] at hplaced

/-! ### Through the parts of a node -/

theorem traverse {one : Node → Analysis Node} {many : List Node → Analysis (List Node)}
    (hone : ∀ c, Supplies w [c] (one c) ([·])) (hmany : ∀ cs, Supplies w cs (many cs) (fun ms => ms))
    (hl : shape.children ⊆ l) : Supplies w l (shape.traverse one many) children := by
  have hone' {l : List Node} {c : Node} (hc : c ∈ l) : Supplies w l (one c) ([·]) :=
    (hone c).mono fun _ h => mem_singleton.1 h ▸ hc
  have hmany' {l cs : List Node} (hcs : cs ⊆ l) : Supplies w l (many cs) (fun ms => ms) := (hmany cs).mono hcs
  have hopt {l : List Node} {o : Option Node} (ho : o.toList ⊆ l) : Supplies w l (o.mapM one) Option.toList := by
    cases o with
    | none => exact pure (nil_subset _)
    | some c => exact (hone' (ho (by simp))).bind fun m => pure (by simp)
  have hsparse {l : List Node} {os : List (Option Node)} (hos : os.filterMap id ⊆ l) :
      Supplies w l (Shape.traverse.sparse one os) (List.filterMap id) := by
    have hmap : Supplies w l (os.mapM fun o => o.mapM one) (fun bs => bs.flatMap Option.toList) :=
      mapM fun o ho l' hl' => hopt fun c hc => hl' (hos (mem_filterMap.2 ⟨o, ho, by simpa using hc⟩))
    have hparts : List.filterMap id = fun bs : List (Option Node) => bs.flatMap Option.toList :=
      funext fun bs => filterMap_eq_flatMap_toList id bs
    exact hparts ▸ hmap
  cases shape
  all_goals
    simp only [Shape.traverse, Shape.traverse.function, Shape.traverse.loop, Shape.traverse.trial, bind_assoc, pure_bind]
    repeat' first
      | refine (hone' ?_).bind fun _ => ?_
      | refine (hmany' ?_).bind fun _ => ?_
      | refine (hopt ?_).bind fun _ => ?_
      | refine (hsparse ?_).bind fun _ => ?_
      | refine pure ?_
  all_goals
    clear hone hmany hone' hmany' hopt hsparse
    simp only [children, subset_def, mem_append, mem_cons, not_mem_nil, or_false] at hl ⊢
    grind only

theorem word?_of_traverse {one : Node → Analysis Node} {many : List Node → Analysis (List Node)} {shape' : Shape Node}
    {s t : Session} (h : shape.traverse one many s = .ok shape' t) : shape'.word? = shape.word? := by
  have hany {γ : Type} (y : Analysis γ) : Ensures (fun _ => True) (fun _ => True) y := fun _ _ _ _ _ => ⟨trivial, trivial⟩
  suffices hword : Ensures (fun _ => True) (fun b => b.word? = shape.word?) (shape.traverse one many) from
    (hword s shape' t trivial h).2
  cases shape
  all_goals
    repeat' first
      | exact Ensures.pure rfl
      | refine (hany _).bind fun _ _ => ?_

theorem again {one : Node → Node → Analysis Node} {many : Node → List Node → Analysis (List Node)} (hc : c ∈ l)
    (hone : ∀ n c, Supplies w [c] (one n c) ([·])) (hmany : ∀ n cs, Supplies w cs (many n cs) (fun ms => ms))
    {renew : Node → Shape Node → Node} (hid : ∀ n shape, (renew n shape).id = n.id)
    (hshape : ∀ n shape, (renew n shape).shape = shape) :
    Supplies w l (do
      let n ← current c
      let shape ← n.shape.traverse (one n) (many n)
      Session.record (renew n shape)
      return renew n shape) ([·]) := by
  refine current_bind hc fun n => ?_
  refine (traverse (hone n) (hmany n) (subset_cons_of_subset _ (subset_append_left _ _))).bind_of
    (fun s shape t h => word?_of_traverse h) fun shape hword => ?_
  refine (record (m := n) (by simp) (hid n shape).symm (by rw [hshape, hword]) ?_).bind fun _ => pure (by simp)
  rw [Node.children, hshape]
  exact subset_append_left _ _

theorem eachOf {one : Node → Analysis Node} (hone : ∀ c, Supplies w [c] (one c) ([·])) (cs : List Node) :
    Supplies w cs (cs.mapM one) (fun ms => ms) :=
  mapM_nodes fun c hc _ hl' => (hone c).mono fun _ h => mem_singleton.1 h ▸ hl' hc

theorem placeFrom (k line col : Nat) (c : Node) : Supplies w [c] (placeFrom k line col c) ([·]) := by
  induction k generalizing line col c with
  | zero => exact throw
  | succ k ih =>
    exact again mem_cons_self (fun _ => ih _ _) (fun _ => eachOf (ih _ _)) (fun _ _ => by split <;> rfl)
      fun _ _ => by split <;> rfl

theorem refreshFrom (k : Nat) (c : Node) : Supplies w [c] (refreshFrom k c) ([·]) := by
  induction k generalizing c with
  | zero => exact throw
  | succ k ih => exact again mem_cons_self (fun _ => ih) (fun _ => eachOf ih) (fun _ _ => rfl) fun _ _ => rfl

theorem block {body : List Node} (hbody : body ⊆ l) : Supplies w l (Lowering.block body n) ([·]) := by
  refine (fresh rfl (nil_subset _)).bind fun test => lineOf.bind fun line => ?_
  have hcond : (cond test body []).children ⊆ [] ++ (test :: test.children ++ l) := by
    have hrest : body ⊆ test :: test.children ++ l := subset_append_of_subset_right _ hbody
    simpa [children] using hrest
  refine (freshAt rfl hcond).bind fun b => note.bind fun _ => ?_
  exact (placeFrom _ _ _ b).mono (by simp)

/-! ### Lowerings -/

variable {self : Rewrite}

/-- What a lowering does with a node, as far as names are concerned. -/
def Lowers (w : Supply) (self : Node → Analysis (List Node)) : Prop :=
  ∀ n, Supplies w (n :: n.children) (self n) (fun ms => ms)

section

variable (hself : Lowers w self)
include hself

theorem one (hc : c ∈ l) : Supplies w l (Lowering.one self c) ([·]) := by
  refine current_bind hc fun n => ((hself n).mono (subset_append_left _ _)).bind fun ms => ?_
  split
  · exact pure (by simp)
  · exact throw

theorem many {cs : List Node} (hcs : cs ⊆ l) :
    Supplies w l (Lowering.many self cs) (fun ms => ms) := by
  have hmap : Supplies w l (cs.mapM fun c => do self (← current c)) (fun mss => mss.flatMap fun ms => ms) :=
    mapM fun c hc l' hl' => current_bind (hl' (hcs hc)) fun n => (hself n).mono (subset_append_left _ _)
  exact hmap.bind fun mss => pure (by simp [flatMap_id'])

theorem descend :
    Supplies w (n :: n.children) (descend self n) (fun m => m :: m.children) := by
  have htraverse : Supplies w (n :: n.children) (n.shape.traverse (Lowering.one self) (Lowering.many self)) children :=
    traverse (fun _ => one hself mem_cons_self) (fun _ => many hself (List.Subset.refl _)) (subset_cons_self _ _)
  refine htraverse.bind_of (fun _ _ _ h => word?_of_traverse h) fun shape hword => ?_
  refine current_bind (by simp) fun m => edit (m := n) (by simp) rfl ?_ ?_
  · split <;> exact hword.symm
  · refine List.Subset.trans (?_ : _ ⊆ shape.children) (subset_append_of_subset_right _ (subset_append_left _ _))
    split <;> exact List.Subset.refl _

theorem through : Lowers w (through self) :=
  fun _ => (descend hself).bind fun m => pure (by simp)

end

theorem run (hstep : ∀ self, Lowers w self → Lowers w (step self)) (n : Node) :
    Supplies w [n] (run step n) ([·]) := by
  have htie (k : Nat) : Lowers w (tie step (fun _ => fail .tooDeep) k) := by
    induction k with
    | zero => exact fun _ => throw
    | succ k ih => exact hstep _ ih
  refine current_bind mem_cons_self fun m => ?_
  refine ((htie nestingLimit m).mono (subset_append_left _ _)).bind fun ms => ?_
  split
  · exact (refreshFrom _ _).mono (by simp)
  · exact throw

def wordOf (lang : Language) : String := if lang == .nim then "tmp" else "__tmp"

theorem temporary :
    Supplies ⟨wordOf lang, kind⟩ l (Destructuring.temporary lang kind >>= Lowering.nameOn line) ([·]) := by
  exact nameOn

theorem assignOn {target value : Node} (htarget : target ∈ l) (hvalue : value ∈ l) :
    Supplies w l (Lowering.assignOn line target value) ([·]) :=
  freshAt rfl (by simp [children, htarget, hvalue])

theorem spread {elts : List Node} {u : Usage} (hshape : m.shape = .tuple elts u) (hm : m ∈ l) (hn : n ∈ l)
    (helts : elts ⊆ l) :
    Supplies ⟨wordOf lang, kind⟩ l (do
      let temps ← elts.mapM fun _ => do Lowering.nameOn n.line (← Destructuring.temporary lang kind)
      let _ ← Session.edit m (.tuple temps u)
      let assigns ← (elts.zip temps).mapM fun (e, t) => Lowering.assignOn n.line e t
      return [← Lowering.block (n :: assigns) n]) (fun ms => ms) := by
  refine (mapM_nodes fun _ _ _ _ => temporary).bind fun temps => ?_
  have hedit : Supplies ⟨wordOf lang, kind⟩ (temps ++ l) (Session.edit m (.tuple temps u)) (fun m => m :: m.children) :=
    edit (mem_append_right _ hm) rfl (by rw [hshape]; rfl) (subset_append_left _ _)
  refine hedit.bind fun m' => ?_
  have hassigns : Supplies ⟨wordOf lang, kind⟩ (m' :: m'.children ++ (temps ++ l))
      ((elts.zip temps).mapM fun (e, t) => Lowering.assignOn n.line e t) (fun ms => ms) := by
    refine mapM_nodes fun (e, t) hpair l' hl' => assignOn (hl' ?_) (hl' ?_)
    · simp [helts (of_mem_zip hpair).1]
    · simp [(of_mem_zip hpair).2]
  exact hassigns.bind fun assigns => (block (by simp [hn])).bind fun b => pure (by simp)

theorem viaTemporaries (hself : Lowers ⟨wordOf lang, "destructuring"⟩ self) :
    Lowers ⟨wordOf lang, "destructuring"⟩ (Destructuring.viaTemporaries lang self) := by
  intro n
  unfold Destructuring.viaTemporaries
  split
  · rename_i targets value hn
    split
    · exact pure (by simp)
    · cases targets with
      | nil => exact pure (by simp)
      | cons target targets =>
        rw [head?_cons, Option.mapM_some, bind_map_left]
        refine current_bind (by simp [Node.children, hn, children]) fun m => ?_
        split
        · rename_i i line col elts u hm
          cases hm
          cases elts with
          | nil => exact throw
          | cons e es =>
            refine current_bind (by simp [Node.children, children]) fun first => ?_
            split
            · exact pure (by simp)
            · exact spread rfl (by simp) (by simp)
                (subset_append_of_subset_right _ (subset_cons_of_subset _ (subset_append_left _ _)))
        · exact pure (by simp)
  · exact through hself n

/-- What a block is given to manage is assigned, to a temporary if it has no name. -/
theorem managedItem {line : Nat} {i : Node} (hi : i ∈ l) :
    Supplies ⟨wordOf lang, kind⟩ l (do
      match (← current i).shape with
      | .withItem context vars =>
        let target ← match vars with
          | some t => Pure.pure t
          | none => Lowering.nameOn (some line) (← Destructuring.temporary lang kind)
        Lowering.assignOn (some line) target context
      | _ => fail .wrongSort) ([·]) := by
  refine current_bind hi fun item => ?_
  split
  · rename_i context vars hitem
    have hchildren : item.children = context :: vars.toList := by rw [Node.children, hitem]; rfl
    have hcontext : context ∈ item :: item.children ++ l := by simp [hchildren]
    cases vars with
    | some t => exact assignOn (by simp [hchildren]) hcontext
    | none =>
      dsimp only
      rw [← bind_assoc]
      exact temporary.bind fun t => assignOn (by simp) (mem_append_right _ hcontext)
  · exact throw

theorem openManaged (hself : Lowers ⟨wordOf lang, "managed"⟩ self) :
    Lowers ⟨wordOf lang, "managed"⟩ (Blocks.openManaged lang self) := by
  intro n
  unfold Blocks.openManaged
  split
  · split
    · exact pure (by simp)
    · refine (descend hself).bind fun m => ?_
      split
      · rename_i items body hm
        have hchildren : m.children = items ++ body := by rw [Node.children, hm]; rfl
        have hparts : items ++ body ⊆ m :: m.children ++ (n :: n.children) :=
          hchildren ▸ subset_cons_of_subset _ (subset_append_left _ _)
        obtain ⟨hitems, hbody⟩ := append_subset.1 hparts
        refine lineOf.bind fun line => (mapM_nodes fun i hi l' hl' => managedItem (hl' (hitems hi))).bind fun stmts => ?_
        have hstmts : stmts ++ body ⊆ stmts ++ ([] ++ (m :: m.children ++ (n :: n.children))) :=
          append_subset.2 ⟨subset_append_left _ _, subset_append_of_subset_right _ hbody⟩
        exact (block hstmts).bind fun b => note.bind fun _ => pure (by simp)
      · exact throw
  · exact through hself n

theorem nameLists (hself : Lowers ⟨"__tmp", "comparison"⟩ self) : Lowers ⟨"__tmp", "comparison"⟩ (Cpp.nameLists self) := by
  intro n
  unfold Cpp.nameLists
  split
  · rename_i left ops comparators hn
    have hparts : left :: comparators ⊆ n :: n.children := by simp [Node.children, hn, children]
    obtain ⟨hleft, hcomparators⟩ := cons_subset.1 hparts
    refine (one hself hleft).bind fun left' => ?_
    refine (mapM_nodes fun c hc l' hl' => one hself (hl' (mem_append_right _ (hcomparators hc)))).bind fun rights => ?_
    split
    · rename_i right rest
      split
      · rw [← bind_assoc]
        refine nameOn.bind fun tmp => ?_
        refine (assignOn (by simp) (by simp)).bind fun set => ?_
        have hcompare : (compare left' ops (tmp :: rest)).children ⊆
            [set] ++ ([tmp] ++ (right :: rest ++ ([left'] ++ (n :: n.children)))) := by
          intro c hc
          simp only [children, mem_cons] at hc
          rcases hc with rfl | rfl | hc
          all_goals simp [*]
        refine (freshAt rfl hcompare).bind fun compare => ?_
        exact (block (by simp)).bind fun b => pure (by simp)
      · exact pure (by simp)
    · exact throw
  · exact through hself n

theorem namePrinted (hself : Lowers ⟨"__tmp", "printed"⟩ self) : Lowers ⟨"__tmp", "printed"⟩ (Kotlin.namePrinted self) := by
  intro n
  unfold Kotlin.namePrinted
  split
  · rename_i func args kwds hn
    have hparts : func :: (args ++ kwds) ⊆ n :: n.children := by simp [Node.children, hn, children]
    obtain ⟨hfunc, hrest⟩ := cons_subset.1 hparts
    have hword (f : Node) (as : List Node) : n.shape.word? = (call f as kwds).word? := by rw [hn]; rfl
    refine (one hself hfunc).bind fun func' => ?_
    have hcall : (call func' args kwds).children ⊆ [func'] ++ (n :: n.children) :=
      cons_subset_cons _ hrest
    refine (edit (m := n) (by simp) rfl (hword func' args) hcall).bind_of (Q := fun m => m.id = n.id)
      (fun _ _ _ h => by cases h; rfl) fun m hm => ?_
    split
    · rename_i a hprint
      have ha : a ∈ n :: n.children := hrest (by simp)
      have hkwds : kwds ⊆ n :: n.children := fun c hc => hrest (by simp [hc])
      split
      · exact pure (by simp)
      · refine lineOf.bind fun line => ?_
        rw [← bind_assoc]
        refine nameOn.bind fun tmp => ?_
        refine (assignOn (by simp) (by simp only [mem_append, ha, or_true])).bind fun set => ?_
        have hcall : (call func' [tmp] kwds).children ⊆
            [set] ++ ([tmp] ++ ([] ++ (m :: m.children ++ ([func'] ++ (n :: n.children))))) := by
          intro c hc
          simp only [children, mem_append, mem_cons, not_mem_nil, or_false] at hc
          rcases hc with (rfl | rfl) | hc
          · simp
          · simp
          · simp only [mem_append, hkwds hc, or_true]
        refine (edit (m := n) (by simp) hm.symm (hword func' [tmp]) hcall).bind fun m' => ?_
        exact (block (by simp)).bind fun b => note.bind fun _ => pure (by simp)
    · exact pure (by simp)
  · exact through hself n

end Supplies
end

instance (s : Session) (n : Node) : Decidable (s.Held n) := inferInstanceAs (Decidable (_ = _))

instance (s : Session) : Decidable s.Sound :=
  decidable_of_iff (∀ p ∈ s.nodes.toList, p.2.id = p.1 ∧ p.1 < s.next ∧ ∀ c ∈ p.2.children, s.Held c) <| by
    have hmem {id : NodeId} {n : Node} : (id, n) ∈ s.nodes.toList ↔ s.nodes[id]? = some n :=
      Std.TreeMap.mem_toList_iff_getElem?_eq_some
    constructor
    · exact fun h => ⟨fun id n hn => (h _ (hmem.2 hn)).1, fun id n hn => (h _ (hmem.2 hn)).2.1,
        fun id n hn => (h _ (hmem.2 hn)).2.2⟩
    · rintro h ⟨id, n⟩ hn
      exact ⟨h.keyed id n (hmem.1 hn), h.below id n (hmem.1 hn), h.children id n (hmem.1 hn)⟩

end Session

open Session Supplies

/-- The lowerings of a target that introduce names, by what they count. -/
def Target.introducing (t : Target) : List (String × Lowering) :=
  [("destructuring", Destructuring.viaTemporaries t.language), ("managed", Blocks.openManaged t.language)] ++
    (if t.language = .cpp then t.lowerings.map fun p => ("comparison", p.2) else []) ++
    if t.language = .kotlin then t.laterLowerings.map fun p => ("printed", p.2) else []

theorem Target.lowers_of_introducing {t : Target} (ht : t ∈ Targets.all) {kind : String}
    (hstep : (kind, step) ∈ t.introducing) {self : Rewrite}
    (hself : Lowers ⟨wordOf t.language, kind⟩ self) : Lowers ⟨wordOf t.language, kind⟩ (step self) := by
  have hlanguages : (Targets.all.map Target.language).Nodup := by decide
  have honly {u : Target} (hu : u ∈ Targets.all) (h : t.language = u.language) : t = u :=
    inj_on_of_nodup_map hlanguages ht hu h
  simp only [introducing, mem_append, mem_cons, not_mem_nil, or_false, Prod.mk.injEq] at hstep
  rcases hstep with ((⟨rfl, rfl⟩ | ⟨rfl, rfl⟩) | hstep) | hstep
  · exact viaTemporaries hself
  · exact openManaged hself
  · split at hstep
    · rename_i h
      obtain rfl := honly (u := Cpp.target) (by simp [Targets.all]) h
      obtain ⟨rfl, rfl⟩ : kind = "comparison" ∧ step = Cpp.nameLists := by simpa [Cpp.target] using hstep
      exact nameLists hself
    · cases hstep
  · split at hstep
    · rename_i h
      obtain rfl := honly (u := Kotlin.target) (by simp [Targets.all]) h
      obtain ⟨rfl, rfl⟩ : kind = "printed" ∧ step = Kotlin.namePrinted := by simpa [Kotlin.target] using hstep
      exact namePrinted hself
    · cases hstep

/-- The names that a run introduces are the numbers that it counts: no two are alike, they are new to a program unless it
uses one of these numbers itself, and two runs that count apart introduce the same name for every number both come to. -/
theorem temporaries_apart_iff {t : Target} (ht : t ∈ Targets.all) {kind kind' : String} {step step' : Lowering}
    (hstep : (kind, step) ∈ t.introducing) (hstep' : (kind', step') ∈ t.introducing) {n m n' m' : Node}
    {s u s' u' : Session} (hs : s.Sound) (hn : s.Held n) (hrun : Lowering.run step n s = .ok m u) (hs' : s'.Sound)
    (hn' : s'.Held n') (hrun' : Lowering.run step' n' s' = .ok m' u') :
    s.newNames u = numbered (wordOf t.language) (s.given kind) (u.given kind) ∧ (s.newNames u).Nodup ∧
      (∀ other, other ≠ kind → u.given other = s.given other) ∧
      (∀ source : List String, (s.newNames u).Disjoint source ↔
        ∀ i, s.given kind < i → i ≤ u.given kind → wordOf t.language ++ toString i ∉ source) ∧
      ((s.newNames u).Disjoint (s'.newNames u') ↔
        ∀ i, ¬(s.given kind < i ∧ i ≤ u.given kind ∧ s'.given kind' < i ∧ i ≤ u'.given kind')) := by
  have hnames : Names ⟨wordOf t.language, kind⟩ s u :=
    (run (fun _ => Target.lowers_of_introducing ht hstep) n s m u hs (forall_mem_singleton.2 hn) hrun).1
  have hnames' : Names ⟨wordOf t.language, kind'⟩ s' u' :=
    (run (fun _ => Target.lowers_of_introducing ht hstep') n' s' m' u' hs' (forall_mem_singleton.2 hn') hrun').1
  rw [hnames.newNames_eq, hnames'.newNames_eq]
  refine ⟨rfl, nodup_numbered, hnames.given_eq, fun source => ?_, ?_⟩
  · constructor
    · exact fun h i hi hi' hmem => h (mem_numbered.2 ⟨i, hi, hi', rfl⟩) hmem
    · intro h x hx hmem
      obtain ⟨i, hi, hi', rfl⟩ := mem_numbered.1 hx
      exact h i hi hi' hmem
  · constructor
    · rintro h i ⟨hi, hiu, hi', hiu'⟩
      exact h (mem_numbered.2 ⟨i, hi, hiu, rfl⟩) (mem_numbered.2 ⟨i, hi', hiu', rfl⟩)
    · intro h x hx hx'
      obtain ⟨i, hi, hiu, rfl⟩ := mem_numbered.1 hx
      obtain ⟨j, hj, hju, heq⟩ := mem_numbered.1 hx'
      obtain rfl := append_toString_inj.1 heq
      exact h i ⟨hi, hiu, hj, hju⟩

def managing : Node :=
  ⟨1, none, none, .module [⟨2, some 1, some 0, .withBlock
    [⟨3, none, none, .withItem ⟨4, some 1, some 5, .name "a" .load⟩ none⟩]
    [⟨5, some 1, some 8, .assign
      [⟨6, some 1, some 8, .tuple [⟨7, some 1, some 8, .attribute ⟨8, some 1, some 8, .name "b" .load⟩ "c" .store⟩] .store⟩]
      ⟨9, some 1, some 15, .name "d" .load⟩⟩]⟩]⟩

theorem managing_names_alike :
    let s := after (recordAll nestingLimit managing { next := 10 })
    let u := after (run (Destructuring.viaTemporaries .nim) managing s)
    let u' := after (run (Blocks.openManaged .nim) managing u)
    s.newNames u = ["tmp1"] ∧ u.newNames u' = ["tmp1"] ∧ ¬(s.newNames u).Disjoint (u.newNames u') := by
  intro s u u'
  have ht : Nim.target ∈ Targets.all := by simp [Targets.all]
  have hs : s.Sound := by decide +kernel
  have hu : u.Sound := by decide +kernel
  obtain ⟨m, hrun⟩ : ∃ m, run (Destructuring.viaTemporaries .nim) managing s = .ok m u :=
    ok_after_of_returned (by decide +kernel)
  obtain ⟨m', hrun'⟩ : ∃ m', run (Blocks.openManaged .nim) managing u = .ok m' u' :=
    ok_after_of_returned (by decide +kernel)
  have hapart := temporaries_apart_iff ht (.head _) (.tail _ (.head _)) hs (by decide +kernel) hrun hu (by decide +kernel) hrun'
  refine ⟨by decide +kernel, by decide +kernel, fun h => hapart.2.2.2.2.1 h 1 ?_⟩
  decide +kernel

/-- A managed block and a tuple come to the same temporary, and a name of the program is taken for another. -/
theorem temporaries_collide :
    Run.lastText Nim.target {} [("a.py", "with a: b.c, = d\n")] =
        some "if true:\n  let tmp1 = a\n  let (tmp1) = d\n  b.c = tmp1\n\n" ∧
      Run.lastText Nim.target {} [("a.py", "tmp1 = 1\nwith a: f(tmp1)\n")] =
        some "let tmp1 = 1\nif true:\n  tmp1 = a\n  f(tmp1)\n\n" := by
  decide +kernel

end Polyglot
