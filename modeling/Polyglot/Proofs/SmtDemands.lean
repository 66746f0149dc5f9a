import Polyglot.Proofs.LoopElse
import Polyglot.Proofs.SmtTerms

/-!
# What functions demand

A function that states what it demands of its arguments is marked, and where it is called what it demands is to be
called too. The mark is found by the name that the call is written with, so only if the name of the function is written
as it is.
-/
namespace Polyglot.Smt

open Session Emit Effect Dialect Lowering List Node

/-! ### Marks -/

def mark (s : Session) (id : NodeId) : Session :=
  { s with facts := s.facts.insert id { s.facts.getD id {} with isPrecondition := true } }

def unmarked (f : Facts) : Facts := { f with isPrecondition := false }

/-- Sessions with the contents of one session, in which some functions may be marked besides. -/
structure Marked (s s' : Session) : Prop where
  getElem?_eq : ∀ id : NodeId, s'.nodes[id]? = s.nodes[id]?
  unmarked_eq : ∀ id, unmarked (s'.known id) = unmarked (s.known id)

structure MarkedAt (id : NodeId) (s s' : Session) : Prop extends Marked s s' where
  isPrecondition : (s'.known id).isPrecondition = true

variable {s t : Session} {n : Node} {id : NodeId} {k j : Nat} {u : Usage}

/-- A kind of sessions to which functions can be marked. -/
structure Marking (s : Session) (P : Session → Prop) : Prop extends Storing s P where
  unmarked_eq : ∀ s', P s' → ∀ id, unmarked (s'.known id) = unmarked (s.known id)
  mark : ∀ s' id, P s' → P (mark s' id)

theorem unmarked_mark (id i : NodeId) :
    unmarked ((mark s id).known i) = unmarked (s.known i) := by
  rw [mark, known_note]
  split
  · subst_vars
    rfl
  · rfl

theorem Marked.mark (h : Marked s t) (id : NodeId) : MarkedAt id s (mark t id) where
  getElem?_eq := h.getElem?_eq
  unmarked_eq i := (unmarked_mark id i).trans (h.unmarked_eq i)
  isPrecondition := by rw [Smt.mark, known_note, if_pos rfl]

theorem marking_marked (s : Session) : Marking s (Marked s) where
  getElem?_eq _ h := h.getElem?_eq
  insert _ c h hc :=
    ⟨fun id => (getElem?_insert_same ((h.getElem?_eq c.id).trans hc) id).trans (h.getElem?_eq id), h.unmarked_eq⟩
  unmarked_eq _ h := h.unmarked_eq
  mark _ id h := (h.mark id).toMarked

theorem marking_markedAt (id : NodeId) (s : Session) : Marking s (MarkedAt id s) where
  getElem?_eq _ h := h.getElem?_eq
  insert s' c h hc := ⟨(marking_marked s).insert s' c h.toMarked hc, h.isPrecondition⟩
  unmarked_eq _ h := h.unmarked_eq
  mark s' i h := by
    refine ⟨(marking_marked s).mark s' i h.toMarked, ?_⟩
    rw [mark, known_note]
    split
    · rfl
    · exact h.isPrecondition

namespace Marking

variable {P : Session → Prop} {self : Rewrite} {chain : List NodeId} {test : Node}
  {body orelse : List Node} (hP : Marking s P)
include hP

theorem chainOf_ok (ht : P t) (hchain : s.scopesOf n.id = some chain) : Scope.chainOf n t = .ok chain t := by
  have hscopes : (t.known n.id).scopes = (s.known n.id).scopes := by
    have h := congrArg Facts.scopes (hP.unmarked_eq t ht n.id)
    exact h
  exact Scope.chainOf_eq_ok.2 ⟨hscopes.trans hchain, rfl⟩

theorem content_eq (ht : P t) (id : NodeId) : t.content id = s.content id := by
  rw [content, content, Std.TreeMap.getD_eq_getD_getElem?, Std.TreeMap.getD_eq_getD_getElem?, hP.getElem?_eq t ht]

/-- A branch is left as it is, and marks the outermost function around it if it states a demand. -/
theorem cond_ok (ht : P t) (hn : n.shape = .cond test body orelse) (hchain : s.scopesOf n.id = some chain) :
    markDemands self n t = .ok [n] (if isDemand test then
      ((chain.map s.content).find? isFunction).elim t (fun f => Smt.mark t f.id) else t) := by
  simp only [markDemands, hn]
  by_cases hdemand : isDemand test = true
  · have hfunction : Scope.functionOf chain t = .ok ((chain.map s.content).find? isFunction) t := by
      rw [functionOf_ok, funext (hP.content_eq ht)]
    rw [if_pos hdemand, if_pos hdemand]
    refine (bind_ok (hP.chainOf_ok ht hchain)).trans ((bind_ok hfunction).trans ?_)
    cases (chain.map s.content).find? isFunction <;> rfl
  · rw [if_neg hdemand, if_neg hdemand]
    rfl

theorem cond_same (hn : n.shape = .cond test body orelse) (hchain : s.scopesOf n.id = some chain) :
    Yields P (markDemands self n) [n] := by
  intro t ht
  refine ⟨_, hP.cond_ok ht hn hchain, ?_⟩
  split
  · cases (chain.map s.content).find? isFunction with
    | none => exact ht
    | some f => exact hP.mark t f.id ht
  · exact ht

theorem tie_same (h : Exact k s n) (hchained : Chained k s chain n) (hk : k ≤ j) (stop : Rewrite) :
    Yields P (tie markDemands stop j n) [n] := by
  refine Lowering.tie_same hP.toStoring (fun c hc => ?_) h hk
  by_cases hcond : ∃ test body orelse, c.shape = .cond test body orelse
  · obtain ⟨test, body, orelse, hshape⟩ := hcond
    obtain ⟨chain', hchain', -⟩ := hchained.scopesOf hc
    exact .inr fun self => hP.cond_same hshape hchain'
  · refine .inl fun self => ?_
    unfold markDemands
    split
    · exact absurd ⟨_, _, _, ‹_›⟩ hcond
    · rfl

end Marking

theorem content_of_exact (h : Exact k s n) : s.content n.id = n :=
  content_of_getElem? h.getElem?

/-- A function of a module of which the first statement says what it demands. -/
structure Demands (m F : Node) (f : Function Node) : Prop where
  module : ∃ program, m.shape = .module program ∧ F ∈ program
  shape : F.shape = .functionDef f
  first : ∃ b test body orelse, f.body.head? = some b ∧ b.shape = .cond test body orelse ∧ isDemand test = true

section

variable {P Q : Session → Prop} {stop : Rewrite} {m F b test : Node} {body orelse : List Node}
  {f : Function Node} {chain : List NodeId}

theorem demand_marks (h : Exact k s b) (hchained : Chained k s chain b) (hb : b.shape = .cond test body orelse)
    (hdemand : isDemand test = true) (hF : ((b.id :: chain).reverse.map s.content).find? isFunction = some F) :
    Leads (Marked s) (MarkedAt F.id s) (do tie markDemands stop (j + 1) (← current b)) [b] := by
  have hopens : b.opensScope = true := by rw [opensScope, hb]
  have hscopes : s.scopesOf b.id = some (b.id :: chain).reverse := by
    cases k with
    | zero => exact hchained.elim
    | succ k => rw [hchained.1, inside, if_pos hopens]
  refine Leads.bind ((marking_marked s).current h.getElem?) fun t ht => ?_
  refine ⟨_, (marking_marked s).cond_ok ht hb hscopes, ?_⟩
  rw [if_pos hdemand, hF]
  exact ht.mark F.id

theorem mem_children_of_body (hF : F.shape = .functionDef f) {c : Node} (hc : c ∈ f.body) : c ∈ F.children := by
  rw [Node.children, hF]
  simp [Shape.children, hc]

theorem through_marks (h : Exact (k + 1) s n) (hchained : Chained (k + 1) s chain n) (hk : k ≤ j)
    (hthrough : ∀ self, markDemands self n = through self n) (hb : b ∈ n.children)
    (hfirst : Leads (Marked s) (MarkedAt F.id s) (do tie markDemands stop j (← current b)) [b]) :
    Leads (Marked s) (MarkedAt F.id s) (tie markDemands stop (j + 1) n) [n] := by
  have hvisit {P : Session → Prop} (hP : Marking s P) (c : Node) (hc : c ∈ n.children) :
      Yields P (do tie markDemands stop j (← current c)) [c] :=
    (hP.current (h.2 c hc).getElem?).bind (hP.tie_same (h.2 c hc) (hchained.2 c hc) hk stop)
  rw [tie, hthrough]
  exact through_leads (marking_markedAt F.id s).toStoring h.getElem? hb (hvisit (marking_marked s))
    (hvisit (marking_markedAt F.id s)) hfirst

theorem function_marks (h : Exact (k + 1) s F) (hchained : Chained (k + 1) s chain F) (hk : k ≤ j)
    (hF : F.shape = .functionDef f) (hb : b ∈ f.body) (hbshape : b.shape = .cond test body orelse)
    (hdemand : isDemand test = true) (hchain : ∀ id ∈ chain, (s.content id).isFunction = false) :
    Leads (Marked s) (MarkedAt F.id s) (do tie markDemands stop (j + 1) (← current F)) [F] := by
  have hbF := mem_children_of_body hF hb
  have hpos : k ≠ 0 := by
    rintro rfl
    exact h.2 b hbF
  obtain ⟨j, rfl⟩ : ∃ i, j = i + 1 := ⟨j - 1, by omega⟩
  refine Leads.bind ((marking_marked s).current h.getElem?) ?_
  refine through_marks h hchained hk (fun _ => by simp only [markDemands, hF]) hbF ?_
  refine demand_marks (h.2 b hbF) (hchained.2 b hbF) hbshape hdemand ?_
  have hopens : F.opensScope = true := by rw [opensScope, hF]
  have houter : (chain.map s.content).reverse.find? isFunction = none := by
    rw [find?_eq_none]
    intro d hd
    obtain ⟨id, hid, rfl⟩ := mem_map.1 (mem_reverse.1 hd)
    simp [hchain id hid]
  have hfunction : F.isFunction = true := by rw [isFunction, hF]
  simp [inside, hopens, find?_append, houter, content_of_exact h, hfunction]

/-- A function of a module that states a demand is marked by the pass, which leaves the module as it is. -/
theorem Demands.marked (hdemands : Demands m F f) (h : Exact k s m) (hchained : Chained k s [] m) (hk : k ≤ nestingLimit) :
    ∃ t, run markDemands m s = .ok m t ∧ MarkedAt F.id s t := by
  obtain ⟨⟨program, hm, hF⟩, hFshape, b, test, body, orelse, hb, hbshape, hdemand⟩ := hdemands
  replace hF : F ∈ m.children := by rw [Node.children, hm]; exact hF
  obtain _ | _ | k := k
  · exact h.elim
  · exact (h.2 F hF).elim
  obtain ⟨j, hj⟩ : ∃ j, nestingLimit = j + 2 := ⟨nestingLimit - 2, by omega⟩
  have hfunction : Leads (Marked s) (MarkedAt F.id s)
      (do tie markDemands (fun _ => fail .tooDeep) (j + 1) (← current F)) [F] := by
    refine function_marks (h.2 F hF) (hchained.2 F hF) (by omega) hFshape (mem_of_head? hb) hbshape
      hdemand fun id hid => ?_
    have hopens : m.opensScope = true := by rw [opensScope, hm]
    obtain rfl : id = m.id := by simpa [inside, hopens] using hid
    rw [content_of_exact h, isFunction, hm]
  have hmodule : Leads (Marked s) (MarkedAt F.id s) (tie markDemands (fun _ => fail .tooDeep) (j + 2) m) [m] :=
    through_marks h hchained (by omega) (fun _ => by simp only [markDemands, hm]) hF hfunction
  have hrun : Leads (Marked s) (MarkedAt F.id s) (run markDemands m) m := by
    unfold run
    rw [hj]
    exact Leads.bind ((marking_marked s).current h.getElem?) (hmodule.bind ((marking_markedAt F.id s).refreshFrom h hk))
  exact hrun s ⟨fun _ => rfl, fun _ => rfl⟩

end

/-! ### Calls -/

/-- A call, joined with what the function demands if this is to be called too. -/
def callTerm (demands : Bool) (name : String) (es : List SExpr) : SExpr :=
  if demands then .list [.atom "and", .list (.atom (name ++ "-pre") :: es), .list (.atom name :: es)]
  else .list (.atom name :: es)

def argText (ts : List String) : String := if ts.isEmpty then "" else " " ++ " ".intercalate ts

def callText (demands : Bool) (name : String) (ts : List String) : String :=
  if demands then Text.lines ["(and", "(" ++ name ++ "-pre " ++ argText ts ++ ")", "(" ++ (name ++ argText ts) ++ ")", ")"]
  else "(" ++ (name ++ argText ts) ++ ")"

section

variable {name : String} {ts : List String} {es : List SExpr}

theorem spells_argText (h : List.Forall₂ (fun t e => SExpr.Spells t [e]) ts es) : SExpr.Spells (argText ts) es := by
  cases h with
  | nil => exact .nil
  | cons ht hts => exact (SExpr.Spells.joined .space (.cons ht hts)).blank_append .space

theorem isToken_pre (h : isToken name = true) : isToken (name ++ "-pre") = true := by
  rw [isToken_iff] at h ⊢
  rw [String.toList_append]
  refine ⟨by simp [h.1], fun c hc => ?_⟩
  rcases mem_append.1 hc with hc | hc
  · exact h.2 c hc
  · exact all_eq_true.1 (by decide : "-pre".toList.all SExpr.isWordChar = true) c hc

theorem spells_callText (demands : Bool) (hname : isToken name = true)
    (h : List.Forall₂ (fun t e => SExpr.Spells t [e]) ts es) :
    SExpr.Spells (callText demands name ts) [callTerm demands name es] := by
  have hcall : SExpr.Spells ("(" ++ (name ++ argText ts) ++ ")") [.list (.atom name :: es)] := by
    refine SExpr.Spells.list ?_
    cases h with
    | nil => rw [argText, isEmpty_nil, if_pos rfl, String.append_empty]; exact spells_token hname
    | cons ht hts => exact (spells_token hname).append_blank .space (.joined .space (.cons ht hts))
  cases demands with
  | false => exact hcall
  | true =>
    have hpre : SExpr.Spells ("(" ++ name ++ "-pre " ++ argText ts ++ ")") [.list (.atom (name ++ "-pre") :: es)] := by
      have hinner := (spells_token (isToken_pre hname)).append_blank .space (spells_argText h)
      have hword : "-pre" ++ " " = "-pre " := by decide
      rw [← hword]
      simpa only [String.append_assoc, singleton_append] using hinner.list
    have hand : SExpr.Spells "and" [.atom "and"] := spells_token (by decide)
    have hinner := hand.append_blank .line (hpre.append_blank .line (hcall.append_blank .line .nil))
    have hopening : "(" ++ "and" = "(and" := by decide
    have hlist := hinner.list
    rw [← String.append_assoc, hopening] at hlist
    simpa only [callText, callTerm, if_true, Text.lines, String.intercalate_cons_cons, String.intercalate_singleton,
      String.append_assoc, String.append_empty, singleton_append, cons_append, nil_append] using hlist

end

theorem dispatch_none (n : Node) (name : String) (vargs : List (Option String)) :
    ({} : Plugins).dispatch n (some name) vargs = pure none := by
  funext p
  have hlookup : Plugins.lookup name p = .ok (Known.resolve p.imported name) p := rfl
  have hnone (key : Option String) : key.bind (fun k => ([] : List (String × Plugin × Bool)).lookup k) = none := by
    cases key <;> rfl
  refine (bind_ok hlookup).trans ?_
  simp only [hnone]
  rfl

def demanded (s : Session) (chain : List NodeId) (name : String) : Bool :=
  (s.seen (some name) chain).any fun d => (s.known d.id).isPrecondition

section

variable {p0 : Page} {func : Node} {self : Visit} {chain : List NodeId}

theorem conveys_isPrecondition (id : NodeId) :
    Conveys p0 True (· = (p0.session.known id).isPrecondition)
      (do return (← (liftM (factsOf id) : Emit Facts)).isPrecondition) := by
  refine (Conveys.factsOf id).last fun f hf => .pure ?_
  have hmark := congrArg Facts.isPrecondition hf
  exact hmark

theorem conveys_isDemanding (hchain : p0.session.scopesOf n.id = some chain) (name : String) :
    Conveys p0 True (· = demanded p0.session chain name) (isDemanding n (some name)) := by
  refine (conveys_chainOf.last fun a ha => ?_).of_iff (by simp [hchain])
  rw [hchain, Option.some_inj] at ha
  rw [← ha]
  refine (conveys_find (some name)).last fun d hd => ?_
  rw [hd]
  unfold demanded
  cases p0.session.seen (some name) chain with
  | none => exact .pure rfl
  | some f => exact conveys_isPrecondition f.id

theorem invocation_eq {id name : String} (hfunc : func.shape = .name id u) (ts : List String) :
    invocation n func (some name) (ts.map some) = (do return some (callText (← isDemanding n (some name)) name ts)) := by
  have hplain : (!(func.isName || func.isAttribute)) = false := by simp [isName, hfunc]
  have hjoin : join " " (ts.map some) = pure (" ".intercalate ts) := funext fun p => join_some " " ts
  simp only [invocation, dispatch_none, pure_bind, hplain, hjoin]
  cases ts <;> rfl

/-- A call of a function by name is emitted if its arguments are, and joined with what the function demands if the name as it
is written stands for a function that is marked. -/
theorem conveys_call {id : String} {args kwds : List Node} {xs : List SExpr} {c : Node → Prop} {plain : Prop}
    (hfunc : func.shape = .name id u) (hid : isToken id = true)
    (hname : Conveys p0 True (· = some (spelled id)) (self func)) (hchain : p0.session.scopesOf n.id = some chain)
    (hvs : List.Forall₂ (fun v x => Emits p0 (c v) plain x (self v)) (args ++ keywordValues kwds) xs) :
    Conveys p0 (∀ v ∈ args ++ keywordValues kwds, c v)
      (fun r => ∃ t ∈ r, ∃ xs', xs'.map uncast = xs ∧
        SExpr.Spells t [callTerm (demanded p0.session chain (spelled id)) (spelled id) xs'])
      (call self n func args kwds) := by
  refine (hname.bind fun name hname => (Conveys.mapM hvs).last fun rs hrs => ?_).of_iff (and_iff_right trivial)
  obtain ⟨ts, rfl, hts⟩ := exists_texts hrs
  rw [hname, invocation_eq hfunc]
  refine (conveys_isDemanding hchain (spelled id)).last fun demands hdemands => .pure ⟨_, rfl, ?_⟩
  obtain ⟨xs', hspells, hxs', -⟩ := Written.all hts
  rw [hdemands]
  exact ⟨xs', hxs', spells_callText _ (isToken_spelled hid) hspells⟩

end

/-! ### Calls of functions that state a demand -/

theorem hyphen_mem_spelled {id : String} (h : '_' ∈ id.toList) : '-' ∈ (spelled id).toList := by
  rw [spelled_toList]
  exact mem_map.2 ⟨'_', h, rfl⟩

/-- A call by its name of a function that is in view, with arguments that stand for terms. -/
structure CallOf (s : Session) (l : Nat) (n F : Node) (f : Function Node) (es : List SExpr) : Prop where
  shape : ∃ func args kwds u, n.shape = .call func args kwds ∧ func.shape = .name f.name u ∧
    List.Forall₂ (fun v e => termOf l v = some e ∧ Named s l v) (args ++ keywordValues kwds) es
  sees : ∃ chain d, s.scopesOf n.id = some chain ∧ s.seen (some f.name) chain = some d ∧ d.id = F.id
  held : Holds (l + 2) s n
  limit : l + 2 ≤ nestingLimit
  token : isToken f.name = true
  names : ∀ id name, (s.content id).ident? = some name → '-' ∉ name.toList

/-- The mark of a function is found by what is written for its name if and only if there is no underscore in it. -/
theorem demanded_spelled {name : String} {chain : List NodeId} {d : Node} (hseen : s.seen (some name) chain = some d)
    (hmark : (s.known d.id).isPrecondition = true) (hnames : ∀ id name, (s.content id).ident? = some name → '-' ∉ name.toList) :
    demanded s chain (spelled name) = !name.toList.contains '_' := by
  unfold demanded
  by_cases h : '_' ∈ name.toList
  · have hnone : s.seen (some (spelled name)) chain = none := by
      cases hseen' : s.seen (some (spelled name)) chain with
      | none => rfl
      | some d =>
        obtain ⟨id, rfl, hid⟩ := Scope.exists_of_seenFrom hseen'
        exact absurd (hyphen_mem_spelled h) (hnames id _ hid)
    simp [hnone, h]
  · simp [spelled_eq h, hseen, hmark, h]

theorem mem_children_of_argument {func v : Node} {args kwds : List Node} (hn : n.shape = .call func args kwds)
    (hv : v ∈ args ++ keywordValues kwds) : v ∈ n.children ∨ ∃ c ∈ n.children, v ∈ c.children := by
  have hchildren : n.children = func :: (args ++ kwds) := by rw [Node.children, hn]; rfl
  rw [hchildren]
  rcases mem_append.1 hv with hv | hv
  · exact .inl (by simp [hv])
  · obtain ⟨c, hc, hcv⟩ := mem_filterMap.1 hv
    refine .inr ⟨c, by simp [hc], ?_⟩
    split at hcv
    · rename_i hshape
      cases hcv
      simp [Node.children, hshape, Shape.children]
    · cases hcv

theorem CallOf.emitted {p : Page} {l : Nat} {F : Node} {f : Function Node} {es : List SExpr} (h : CallOf p.session l n F f es)
    (hmark : (p.session.known F.id).isPrecondition = true) :
    ∃ text p' es', emit n p = .ok (some text) p' ∧ es'.map uncast = es ∧
      SExpr.read text = some (callTerm (!f.name.toList.contains '_') (spelled f.name) es') := by
  obtain ⟨func, args, kwds, u, hn, hfunc, hargs⟩ := h.shape
  obtain ⟨chain, d, hchain, hseen, hd⟩ := h.sees
  obtain ⟨hkey, hchildren⟩ := h.held
  have hlimit := h.limit
  obtain ⟨j, hj⟩ : ∃ j, nestingLimit = j + 2 := ⟨nestingLimit - 2, by omega⟩
  have hfuncmem : func ∈ n.children := by rw [Node.children, hn]; exact mem_cons_self
  have hname : Conveys p True (· = some (spelled f.name)) (tie level (fun _ => fail .tooDeep) (j + 1) func) := by
    refine conveys_level (hchildren func hfuncmem).1 (by rw [hfunc]; rfl) ?_
    simp only [step, hfunc]
    exact .pure rfl
  have hheld (v : Node) (hv : v ∈ args ++ keywordValues kwds) : ∃ i, l ≤ i ∧ Holds i p.session v := by
    rcases mem_children_of_argument hn hv with hv | ⟨c, hc, hv⟩
    · exact ⟨l + 1, by omega, hchildren v hv⟩
    · exact ⟨l, le_rfl, (hchildren c hc).2 v hv⟩
  have hvs : List.Forall₂ (fun v e => Emits p (Named p.session l v) False e (tie level (fun _ => fail .tooDeep) (j + 1) v))
      (args ++ keywordValues kwds) es := by
    refine forall₂_of_mem hargs fun v e hv he => ?_
    obtain ⟨i, hi, hheld⟩ := hheld v hv
    exact (emits_term hheld he.1 hi (by omega)).mono Iff.rfl fun r h => h.imp fun t ht => ⟨ht.1, ht.2.mono False.elim⟩
  have hrule (visit : Visit) : step visit n = call visit n func args kwds := by simp only [step, hn]
  have hcalled := conveys_call hfunc h.token hname hchain hvs
  rw [← hrule] at hcalled
  have hcall := conveys_level hkey (by rw [hn]; rfl) hcalled
  have hnamed : ∀ v ∈ args ++ keywordValues kwds, Named p.session l v := forall_right hargs.flip fun _ _ he => he.2
  obtain ⟨hreturns, hresult⟩ := hcall p ⟨.refl _, rfl⟩
  obtain ⟨r, p', hrun⟩ := hreturns hnamed
  obtain ⟨-, -, text, hr, es', hes', hspells⟩ := hresult r p' hrun
  obtain rfl : r = some text := hr
  have hemit : emit = tie level (fun _ => fail .tooDeep) (j + 2) := by rw [← hj]; rfl
  rw [demanded_spelled hseen (by rwa [hd]) h.names] at hspells
  exact ⟨text, p', es', by rw [hemit]; exact hrun, hes', SExpr.read_of_spells hspells⟩

structure Recorded (k : Nat) (s : Session) (m : Node) : Prop where
  contents : Exact k s m
  nodup : (m.ids k).Nodup
  openScopes_eq : s.openScopes = []
  limit : k ≤ nestingLimit

theorem Recorded.assign {m : Node} (h : Recorded k s m) :
    ∃ t, Scope.assign m s = .ok () t ∧ t.nodes = s.nodes ∧ Chained k t [] m := by
  obtain ⟨t, hrun, hassigned, hchained⟩ := exists_assign h.contents.holds h.nodup h.openScopes_eq h.limit
  exact ⟨t, hrun, hassigned.nodes_eq, hchained⟩

theorem Recorded.marks {m F : Node} {f : Function Node} (h : Recorded k s m) (hdemands : Demands m F f) :
    ∃ t, (do Scope.assign m; run markDemands m) s = .ok m t ∧ (∀ id : NodeId, t.nodes[id]? = s.nodes[id]?) ∧
      (t.known F.id).isPrecondition = true := by
  obtain ⟨t, hassign, hnodes, hchained⟩ := h.assign
  have hexact : Exact k t m := h.contents.congr fun id _ => by rw [hnodes]
  obtain ⟨u, hrun, hmarked⟩ := hdemands.marked hexact hchained h.limit
  exact ⟨u, (bind_ok hassign).trans hrun, fun id => by rw [hmarked.getElem?_eq, hnodes], hmarked.isPrecondition⟩

/-- Every function of a module that states a demand first is marked. While it is marked, every call of it by name is emitted
as a text that is read as the call of the function on its arguments, and joined with what the function demands of the same
arguments if and only if the name of the function has no underscore. -/
theorem call_joined_iff_no_underscore (k : Nat) (s : Session) (m F : Node) (f : Function Node) (hread : Recorded k s m)
    (hdemands : Demands m F f) :
    (∃ t, (do Scope.assign m; Lowering.run markDemands m) s = .ok m t ∧ (t.known F.id).isPrecondition = true) ∧
      ∀ p l n es, (p.session.known F.id).isPrecondition = true → CallOf p.session l n F f es →
        ∃ text p' es', emit n p = .ok (some text) p' ∧ es'.map uncast = es ∧
          SExpr.read text = some (callTerm (!f.name.toList.contains '_') (spelled f.name) es') := by
  obtain ⟨t, hrun, -, hmarked⟩ := hread.marks hdemands
  exact ⟨⟨t, hrun, hmarked⟩, fun p l n es hmark hcall => hcall.emitted hmark⟩

def okFunction : Function Node where
  name := "ok"
  args := ⟨2, none, none, .parameters ⟨[], [⟨1, some 1, none, .arg "x" none⟩], none, [], [], none, []⟩⟩
  body :=
    let above (id : NodeId) (i : Int) : Node :=
      ⟨id + 2, none, none, .compare (variable_ id "x") [.gt] [⟨id + 1, none, none, .constant (.int i) false⟩]⟩
    [⟨8, some 2, none, .cond (variable_ 3 "smt_pre") [⟨7, some 3, none, .assert (above 4 0) none⟩] []⟩,
      ⟨12, some 4, none, .ret (some (above 9 1))⟩]
  decorators := []
  returns := none

def okNode : Node := ⟨13, some 1, none, .functionDef okFunction⟩

def okCall : Node := ⟨16, some 6, none, .call (variable_ 14 "ok") [⟨15, some 6, none, .constant (.int 3) false⟩] []⟩

def okProgram : Node := ⟨18, none, none, .module [okNode, ⟨17, some 6, none, .assert okCall none⟩]⟩

def okSession : Session := after (recordAll nestingLimit okProgram { next := 19 })

def okMarked : Session := after ((do Scope.assign okProgram; run markDemands okProgram) okSession)

theorem okSession_recorded :
    Recorded 7 okSession okProgram ∧ (∀ id ∉ okProgram.ids 7, okSession.nodes[id]? = none) ∧ ∀ id, okSession.known id = {} := by
  have hlimit : 7 ≤ nestingLimit := le_nestingLimit (by decide)
  have hnodup : (okProgram.ids 7).Nodup := by decide
  obtain ⟨nodes, hrun, hexact, hnone⟩ := recordAll_exact (n := okProgram) (k := 7) (by decide) hnodup hlimit { next := 19 }
  have hs : okSession = { next := 19, nodes := nodes } := by rw [okSession, hrun]; rfl
  rw [hs]
  exact ⟨⟨hexact, hnodup, rfl, hlimit⟩, fun id hid => (hnone id hid).trans (by simp), fun _ => rfl⟩

theorem demands_okFunction : Demands okProgram okNode okFunction :=
  ⟨⟨_, rfl, mem_cons_self⟩, rfl, _, _, _, _, rfl, rfl, by decide⟩

theorem callOf_okCall (hnodes : ∀ id : NodeId, okMarked.nodes[id]? = okSession.nodes[id]?) :
    CallOf okMarked 3 okCall okNode okFunction [.atom "3"] := by
  obtain ⟨hrecorded, hnone, -⟩ := okSession_recorded
  have hheld : Holds 7 okMarked okProgram := (hrecorded.contents.congr fun id _ => hnodes id).holds
  refine ⟨⟨_, _, _, _, rfl, rfl, .cons ⟨rfl, ?_⟩ .nil⟩, ?_, ?_, ?_, by decide, fun id name hid => ?_⟩
  · intro b hb
    simp [operands, sides, Node.children, Shape.children] at hb
  · have hseen : (okMarked.seen (some "ok") [18]).map (·.id) = some 13 := by decide +kernel
    obtain ⟨d, hd, hid⟩ := Option.map_eq_some_iff.1 hseen
    exact ⟨[18], d, by decide +kernel, hd, hid⟩
  · exact (hheld.2 _ (mem_cons_of_mem _ mem_cons_self)).2 _ mem_cons_self
  · exact le_nestingLimit (by decide)
  · by_cases hmem : id ∈ okProgram.ids 7
    · have hall : ∀ id ∈ okProgram.ids 7, ((okMarked.content id).ident?.all fun name => !name.toList.contains '-') = true := by
        decide +kernel
      have hhyphen := hall id hmem
      rw [hid] at hhyphen
      simpa using hhyphen
    · rw [content, Std.TreeMap.getD_eq_getD_getElem?, hnodes, hnone id hmem] at hid
      cases hid

/-- Its call is joined with what the function demands. -/
theorem okCall_joined :
    Recorded 7 okSession okProgram ∧ Demands okProgram okNode okFunction ∧ CallOf okMarked 3 okCall okNode okFunction [.atom "3"] ∧
      (do Scope.assign okProgram; Lowering.run markDemands okProgram) okSession = .ok okProgram okMarked ∧
      ∃ text p' es', emit okCall { session := okMarked } = .ok (some text) p' ∧ es'.map uncast = [.atom "3"] ∧
        SExpr.read text = some (.list [.atom "and", .list (.atom "ok-pre" :: es'), .list (.atom "ok" :: es')]) := by
  obtain ⟨hrecorded, -⟩ := okSession_recorded
  obtain ⟨t, hrun, hnodes, -⟩ := hrecorded.marks demands_okFunction
  obtain rfl : okMarked = t := by rw [okMarked, hrun]; rfl
  have hcall := callOf_okCall hnodes
  obtain ⟨⟨t, hrun', hmarked⟩, hjoined⟩ := call_joined_iff_no_underscore 7 okSession okProgram okNode okFunction hrecorded demands_okFunction
  obtain rfl : okMarked = t := by rw [okMarked, hrun']; rfl
  exact ⟨hrecorded, demands_okFunction, hcall, hrun, hjoined { session := okMarked } 3 okCall _ hmarked hcall⟩

def emitted (source : String) : Option String :=
  let work : Emit String := do
    (install : Analysis Unit)
    let n ← (readProgram source : Analysis Node)
    Run.one target {} [] "" n
  match work (target.start {}) with
  | .ok text _ => some text
  | .error _ _ => none

/-- With an underscore in its name, what a function demands is written down but never called. -/
theorem underscore_demand_not_called :
    emitted "def is_ok(x: int) -> bool:\n    if smt_pre:\n        assert x > 0\n    return x > 1\n\nassert is_ok(3)\n" =
      some ("(define-fun is-ok-pre((x Int)) Bool\n  (and\n(> x 0)\n))\n\n" ++
        "(define-fun is-ok((x Int))  Bool\n  \n  (> x 1))\n\n(assert (is-ok 3))\n") := by
  decide +kernel

end Polyglot.Smt
