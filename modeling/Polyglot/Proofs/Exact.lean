import Polyglot.Proofs.Frame
import Polyglot.Proofs.Parts

/-!
# Trees that are known as they are

After a program is read or refreshed, the session has every node of it as it is. A lowering that replaces nothing then
leaves all contents as they are, whatever it notes; and what it notes at one node is there when it is done.
-/
namespace Polyglot

open Session Effect List

namespace Effect.Leads

variable {ε σ α : Type} {P Q : σ → Prop} {a : α}

/-- One element of a list is where the change happens. -/
theorem mapM {f : α → EStateM ε σ α} {as : List α} (ha : a ∈ as) (hP : ∀ c ∈ as, Yields P (f c) c)
    (hQ : ∀ c ∈ as, Yields Q (f c) c) (hchange : Leads P Q (f a) a) : Leads P Q (as.mapM f) as := by
  induction as with
  | nil => cases ha
  | cons c as ih =>
    obtain ⟨hPc, hPas⟩ := forall_mem_cons.1 hP
    obtain ⟨-, hQas⟩ := forall_mem_cons.1 hQ
    rw [mapM_cons]
    rcases mem_cons.1 ha with rfl | ha
    · exact bind hchange ((Yields.mapM_same hQas).bind (.pure _))
    · exact bind hPc (bind (ih ha hPas hQas) (Yields.pure _))

end Effect.Leads

namespace Session

variable {s s' : Session} {n c : Node} {k j : Nat} {P : Session → Prop} {chain : List NodeId}

theorem Exact.getElem? (h : Exact k s n) : s.nodes[n.id]? = some n := by
  cases k with
  | zero => exact h.elim
  | succ k => exact h.1

theorem Holds.exact (h : Holds k s n) (hplain : n.Plain) : Exact k s n := by
  induction k generalizing n with
  | zero => exact h
  | succ k ih =>
    obtain ⟨m, hm, hkey⟩ := Option.map_eq_some_iff.1 h.1
    obtain rfl := Node.eq_of_key hkey (Node.opening?_of_isBlock (hplain n .self))
    exact ⟨hm, fun c hc => ih (h.2 c hc) (hplain.part hc)⟩

theorem Exact.within (h : Exact k s n) (hc : c.Within n) : s.nodes[c.id]? = some c := by
  induction hc generalizing k with
  | self => exact h.getElem?
  | part hc _ ih =>
    cases k with
    | zero => exact h.elim
    | succ k => exact ih (h.2 _ hc)

theorem Chained.scopesOf (h : Chained k s chain n) (hc : c.Within n) :
    ∃ chain', s.scopesOf c.id = some chain' ∧ ∀ i ∈ chain', i ∈ chain ∨ i ∈ n.ids k := by
  induction hc generalizing k chain with
  | self =>
    cases k with
    | zero => exact h.elim
    | succ k => exact ⟨_, h.1, fun i hi => (Node.mem_inside (mem_reverse.1 hi)).imp_right fun hi => mem_cons.2 (.inl hi)⟩
  | part hc _ ih =>
    cases k with
    | zero => exact h.elim
    | succ k =>
      obtain ⟨chain', hscopes, hmem⟩ := ih (h.2 _ hc)
      refine ⟨chain', hscopes, fun i hi => ?_⟩
      rcases hmem i hi with hi | hi
      · exact (Node.mem_inside hi).imp_right fun hi => mem_cons.2 (.inl hi)
      · exact .inr (Node.ids_subset_of_mem hc hi)

theorem getElem?_insert_same (hc : s.nodes[c.id]? = some c) (id : NodeId) :
    (s.nodes.insert c.id c)[id]? = s.nodes[id]? := by
  rw [getElem?_insert]
  split
  · rw [← ‹c.id = id›, hc]
  · rfl

/-- A kind of sessions with the contents of one session, to which the contents of its nodes make no difference. -/
structure Storing (s : Session) (P : Session → Prop) : Prop where
  getElem?_eq : ∀ s', P s' → ∀ id : NodeId, s'.nodes[id]? = s.nodes[id]?
  insert : ∀ s' (c : Node), P s' → s.nodes[c.id]? = some c → P { s' with nodes := s'.nodes.insert c.id c }

namespace Storing

theorem same (s : Session) :
    Storing s fun t => (∀ id : NodeId, t.nodes[id]? = s.nodes[id]?) ∧ t.facts = s.facts ∧ t.next = s.next :=
  ⟨fun _ ht => ht.1, fun _ c ht hc =>
    ⟨fun id => (getElem?_insert_same ((ht.1 c.id).trans hc) id).trans (ht.1 id), ht.2⟩⟩

theorem current (hP : Storing s P) (hc : s.nodes[c.id]? = some c) : Yields P (Session.current c) c :=
  fun s' hs' => ⟨s', current_of_getElem? ((hP.getElem?_eq s' hs' c.id).trans hc), hs'⟩

theorem refreshFrom (hP : Storing s P) (h : Exact k s n) (hk : k ≤ j) : Yields P (refreshFrom j n) n :=
  refreshFrom_yields h.holds.shallow hk rfl (fun s' hs' c hc => ⟨c, (hP.getElem?_eq s' hs' c.id).trans (h.within hc), rfl⟩)
    fun s' c hc hs' => hP.insert s' c hs' (h.within hc)

end Storing

end Session

namespace Lowering

variable {s : Session} {n m : Node} {k j : Nat} {P Q : Session → Prop} {step : Lowering}
  {stop : Rewrite}

theorem commit_same (hP : Storing s P) (h : s.nodes[n.id]? = some n) : Yields P (commit n n.shape) n := by
  intro s' hs'
  obtain ⟨t, hcurrent, ht⟩ := hP.current h s' hs'
  refine ⟨_, (bind_ok hcurrent).trans ?_, hP.insert t n ht h⟩
  obtain ⟨_, _, _, shape⟩ := n
  cases shape <;> rfl

section

variable {self : Rewrite} {cs : List Node} {c : Node}

theorem one_leads (h : Leads P Q (do self (← current c)) [c]) : Leads P Q (one self c) c := by
  intro s' hs'
  obtain ⟨t, hrun, ht⟩ := h s' hs'
  obtain ⟨d, u, hcurrent, hself⟩ := bind_eq_ok.1 hrun
  exact ⟨t, (bind_ok hcurrent).trans ((bind_ok hself).trans rfl), ht⟩

theorem through_of_parts (hQ : Storing s Q) (hn : s.nodes[n.id]? = some n)
    (h : Leads P Q (n.children.mapM (one self)) n.children) : Leads P Q (through self n) [n] := by
  have htraverse : Leads P Q (n.shape.traverse (one self) (many self)) n.shape := by
    intro s' hs'
    obtain ⟨t, hrun, ht⟩ := h s' hs'
    obtain ⟨shape, htraverse, hchildren, hframe⟩ := Shape.traverse_of_mapM hrun
    obtain rfl := Shape.ext_children hframe hchildren
    exact ⟨t, Shape.traverse_many many_of_one htraverse, ht⟩
  exact (htraverse.bind (commit_same hQ hn)).bind (Yields.pure [n])

theorem through_same (hP : Storing s P) (hn : s.nodes[n.id]? = some n)
    (h : ∀ c ∈ n.children, Yields P (do self (← current c)) [c]) : Yields P (through self n) [n] :=
  through_of_parts hP hn (Yields.mapM_same fun c hc => one_leads (h c hc))

/-- What changes inside of a part of a node has changed when the whole is done. -/
theorem through_leads (hQ : Storing s Q) (hn : s.nodes[n.id]? = some n) (hc : c ∈ n.children)
    (hPs : ∀ c ∈ n.children, Yields P (do self (← current c)) [c])
    (hQs : ∀ c ∈ n.children, Yields Q (do self (← current c)) [c]) (hchange : Leads P Q (do self (← current c)) [c]) :
    Leads P Q (through self n) [n] :=
  through_of_parts hQ hn
    (.mapM hc (fun c hc => one_leads (hPs c hc)) (fun c hc => one_leads (hQs c hc)) (one_leads hchange))

end

/-- A lowering that leaves every node of a tree as it is, or goes through it, leaves the tree as it is. -/
theorem tie_same (hP : Storing s P)
    (hstep : ∀ c : Node, c.Within n → (∀ self, step self c = through self c) ∨ ∀ self, Yields P (step self c) [c])
    (h : Exact k s n) (hk : k ≤ j) : Yields P (tie step stop j n) [n] := by
  induction k generalizing n j with
  | zero => exact h.elim
  | succ k ih =>
    obtain ⟨i, rfl⟩ := exists_succ_of_lt hk
    change Yields P (step (tie step stop i) n) [n]
    rcases hstep n .self with hthrough | hsame
    · rw [hthrough]
      refine through_same hP h.1 fun c hc => (hP.current (h.2 c hc).getElem?).bind ?_
      exact ih (fun d hd => hstep d (.part hc hd)) (h.2 c hc) (by omega)
    · exact hsame _

section

variable {e : Node} (hstep : ∀ self (n : Node), n.isBlock = false → step self n = through self n) (h : Holds k s e)
  (hplain : e.Plain) (hk : k ≤ j)

include hstep h hplain hk

/-- A lowering that only goes through what is no block leaves a tree without blocks as it is. -/
theorem tie_plain : Yields (Quiet s) (tie step stop j e) [e] := by
  intro s' hs'
  obtain ⟨t, hrun, hnodes, hfacts, hnext⟩ := tie_same (.same s')
    (fun c hc => .inl fun self => hstep self c (hplain c hc)) ((hs'.alike.holds h).exact hplain) hk s' ⟨fun _ => rfl, rfl, rfl⟩
  refine ⟨t, hrun, fun id => ?_, hfacts.trans hs'.facts, hnext.trans hs'.next⟩
  rw [← hs'.alike id, keyAt, hnodes, keyAt]

theorem one_plain : Yields (Quiet s) (one (tie step stop j) e) e := by
  have hcurrent : Yields (Quiet s) (current e) e :=
    fun s' hs' => ⟨s', current_of_holds (hs'.alike.holds h) (hplain e .self), hs'⟩
  exact one_leads (hcurrent.bind (tie_plain hstep h hplain hk))

end

end Lowering

end Polyglot
