import Polyglot.Proofs.CallFree
import Polyglot.Proofs.Order
import Polyglot.Targets

/-!
# What is evaluated to find a class

To find out what class an annotation, a decorator or a called name stands for, its text is read as an expression and
evaluated. Where no name and no constant has an opening bracket, neither has the text, in any target, and so no call is
evaluated.
-/
namespace Polyglot

open Effect Session List Targets TypeStyle

attribute [local simp] Node.children Shape.children

variable {n e type : Node} {m : TypeMaps} {fallback t : TypeTerm} {n? : Option Node} {l : List String} {s : Session}
  {text name : String} {u : Usage}

/-! ### Texts without opening brackets -/

namespace Text

def Bare (s : String) : Prop := '(' ∉ s.toList

instance (s : String) : Decidable (Bare s) := inferInstanceAs (Decidable (¬ '(' ∈ s.toList))

variable {s t : String}

theorem bare_append : Bare (s ++ t) ↔ Bare s ∧ Bare t := by simp [Bare]

theorem bare_join (h : ∀ s ∈ l, Bare s) : Bare (String.join l) := by
  simpa [Bare, String.toList_join] using h

theorem bare_commas (h : ∀ s ∈ l, Bare s) : Bare (commas l) := by
  induction l with
  | nil => decide
  | cons a l ih =>
    obtain ⟨ha, hl⟩ := forall_mem_cons.1 h
    cases l with
    | nil => simpa [commas] using ha
    | cons b l =>
      have hcons : commas (a :: b :: l) = a ++ ", " ++ commas (b :: l) := String.intercalate_cons_cons
      rw [hcons, bare_append, bare_append]
      exact ⟨⟨ha, by decide⟩, ih hl⟩

theorem hexDigit_mem (n : Nat) : hexDigit n ∈ "0123456789abcdef".toList := by
  rw [hexDigit, getD_eq_getElem?_getD]
  cases h : "0123456789abcdef".toList[n]? with
  | none => decide
  | some c => exact mem_of_getElem? h

theorem bare_hexFixed (width n : Nat) : Bare (hexFixed width n) := by
  intro h
  rw [hexFixed, String.toList_ofList, mem_map] at h
  obtain ⟨i, -, hi⟩ := h
  exact absurd (hi ▸ hexDigit_mem _) (by decide)

theorem bare_escapeCode (c : Char) : Bare (escapeCode c) := by
  unfold escapeCode
  have hcode {before : String} {width : Nat} (h : Bare before) : Bare (before ++ hexFixed width c.toNat) :=
    bare_append.2 ⟨h, bare_hexFixed _ _⟩
  dsimp only
  split
  · decide
  split
  · decide
  split
  · decide
  split
  · exact hcode (by decide)
  split <;> exact hcode (by decide)

theorem bare_quotedChar {quote c : Char} (h : c ≠ '(') : Bare (quotedChar quote c) := by
  unfold quotedChar
  split
  · simpa [Bare] using h.symm
  split
  · simpa [Bare] using h.symm
  · exact bare_escapeCode c

theorem bare_quoted (h : Bare s) : Bare (quoted s) := by
  have hquote (a b : Bool) : Bare (quoteFor a b).toString := by decide +revert
  refine bare_append.2 ⟨bare_append.2 ⟨hquote _ _, bare_join fun t ht => ?_⟩, hquote _ _⟩
  obtain ⟨c, hc, rfl⟩ := mem_map.1 ht
  exact bare_quotedChar fun heq => h (heq ▸ hc)

theorem mem_of_mem_pieces {pat cs piece : List Char} {skip : Nat} {held : List Char} {c : Char}
    (h : piece ∈ pieces pat skip held cs) (hc : c ∈ piece) : c ∈ held ∨ c ∈ cs := by
  fun_induction pieces pat skip held cs with
  | case1 => simp_all
  | case2 | case3 | case4 => grind

theorem bare_of_mem_split {pat : String} (h : Bare s) (ht : t ∈ split s pat) : Bare t := by
  unfold split at ht
  split at ht
  · rwa [mem_singleton.1 ht]
  · obtain ⟨piece, hpiece, rfl⟩ := mem_map.1 ht
    intro hmem
    rw [String.toList_ofList] at hmem
    simpa using h ((mem_of_mem_pieces hpiece hmem).resolve_left not_mem_nil)

end Text

open Text

/-! ### Types and trees without opening brackets -/

inductive TypeTerm.Bare : TypeTerm → Prop
  | text {s : String} (h : Text.Bare s) : Bare (.text s)
  | many {ts : List TypeTerm} (h : ∀ t ∈ ts, t.Bare) : Bare (.many ts)
  | value {v : Literal} (h : Text.Bare v.shown) : Bare (.value v)
  | absent : Bare .absent

namespace TypeTerm.Bare

variable {t : TypeTerm}

theorem quotedAll_eq (ts : List TypeTerm) : quotedAll ts = ts.map TypeTerm.quoted := by
  induction ts with
  | nil => rfl
  | cons t ts ih => rw [quotedAll, ih, map_cons]

theorem quoted (h : t.Bare) : Text.Bare t.quoted := by
  induction h with
  | text h => exact bare_quoted h
  | @many ts _ ih =>
    rw [TypeTerm.quoted, bare_append, bare_append, quotedAll_eq]
    refine ⟨⟨by decide, bare_commas fun s hs => ?_⟩, by decide⟩
    obtain ⟨t, ht, rfl⟩ := mem_map.1 hs
    exact ih t ht
  | @value v h =>
    cases v with
    | str s => exact bare_quoted h
    | _ => exact h
  | absent => decide

theorem shown (h : t.Bare) : Text.Bare t.shown := by
  cases h with
  | text h => exact h
  | many h => exact (many h).quoted
  | value h => exact h
  | absent => decide

theorem ofLiteral {v : Literal} (h : Text.Bare v.shown) : (TypeTerm.ofLiteral v).Bare := by
  cases v with
  | str s => exact .text h
  | nothing => exact .absent
  | _ => exact .value h

end TypeTerm.Bare

/-- The names and the constant of a single node. -/
def Shape.words : Shape Node → List String
  | .name id _ | .arg id _ | .alias id _ => [id]
  | .functionDef f => [f.name]
  | .classDef c => [c.name]
  | .attribute _ attr _ => [attr]
  | .constant v _ => [v.shown]
  | _ => []

attribute [local simp] Shape.words

/-- A tree in which no name and no constant has an opening bracket. -/
inductive Node.Bare : Node → Prop
  | mk {n : Node} (hwords : ∀ w ∈ n.shape.words, Text.Bare w) (hparts : ∀ c ∈ n.children, c.Bare) : n.Bare

theorem Node.Bare.ident? (h : n.Bare) : ∀ id ∈ n.ident?, Text.Bare id := by
  induction h with
  | @mk n hwords hparts ih =>
    intro id hid
    unfold Node.ident? at hid
    split at hid
    case h_6 value attr _ =>
      cases hid
      have hattr : Text.Bare attr := hwords attr (mem_singleton.2 rfl)
      have hvalue := ih value (by simp)
      refine bare_append.2 ⟨bare_append.2 ⟨?_, by decide⟩, hattr⟩
      cases hname : value.ident? with
      | none => decide
      | some name => exact hvalue name hname
    case h_7 => cases hid
    all_goals
      cases hid
      exact hwords _ (mem_singleton.2 rfl)

theorem bare_dottedType (h : n.Bare) : Text.Bare (dottedType n) := by
  have hid : Text.Bare (n.ident?.getD "None") := by
    cases hname : n.ident? with
    | none => decide
    | some name => exact h.ident? name hname
  unfold dottedType
  dsimp only
  split
  · rw [getD_eq_getElem?_getD]
    cases hpart : (Text.split (n.ident?.getD "None") ".")[1]? with
    | none => decide
    | some part => exact bare_of_mem_split hid (mem_of_getElem? hpart)
  · exact hid

namespace Session

/-- A session in which neither the names of types nor the trees have opening brackets. -/
structure Bare (s : Session) : Prop where
  types : ∀ x ∈ s.maps.types, Text.Bare x.2
  containers : ∀ x ∈ s.maps.containers, Text.Bare x.2
  nodes : ∀ (id : NodeId) (n : Node), s.nodes[id]? = some n → n.Bare

theorem ensures_current (hn : n.Bare) : Ensures Bare Node.Bare (current n) := by
  intro s c s' hs h
  cases h
  refine ⟨hs, ?_⟩
  rw [Std.TreeMap.getD_eq_getD_getElem?]
  cases hc : s.nodes[n.id]? with
  | none => exact hn
  | some c => exact hs.nodes _ c hc

theorem ensures_note {id : NodeId} {f : Facts → Facts} : Ensures Bare (fun _ => True) (note id f) := by
  intro s c s' hs h
  cases h
  exact ⟨⟨hs.types, hs.containers, hs.nodes⟩, trivial⟩

theorem ensures_throwAt {α : Type} {I : Session → Prop} {P : α → Prop} {c : Cause} {text : Option String} :
    Ensures I P (throwAt c text n : Analysis α) := by
  have hline : Ensures I (fun _ => True) (lineOf n) := by
    unfold lineOf
    cases n.line with
    | none => exact .throw
    | some k => exact .pure trivial
  have hcol : Ensures I (fun _ => True) (colOf n) := by
    unfold colOf
    cases n.col with
    | none => exact .throw
    | some k => exact .pure trivial
  exact hline.bind fun _ _ => hcol.bind fun _ _ => .throw

end Session

structure TypeMaps.Bare (m : TypeMaps) : Prop where
  types : ∀ x ∈ m.types, Text.Bare x.2
  containers : ∀ x ∈ m.containers, Text.Bare x.2
  fallback : m.fallback.Bare

namespace TypeStyle

/-- A step that gives a type without opening brackets. -/
abbrev Bares : Analysis TypeTerm → Prop := Ensures Session.Bare TypeTerm.Bare

theorem ensures_mapsOf : Ensures Session.Bare TypeMaps.Bare common.mapsOf := by
  intro s m s' hs h
  cases h
  exact ⟨hs, hs.types, hs.containers, .text (by decide)⟩

theorem bare_knownName (hm : m.Bare) (hname : Text.Bare name) : Text.Bare (knownName m name) := by
  unfold knownName
  cases hkey : (Known.resolve [] name).bind fun key => m.types.lookup key with
  | none => exact hname
  | some known =>
    obtain ⟨key, -, hlookup⟩ := Option.bind_eq_some_iff.1 hkey
    exact hm.types _ (mem_of_lookup hlookup)

theorem bare_applied {value index : TypeTerm} {a b : String} (hvalue : value.Bare) (hindex : index.Bare)
    (h : Text.Bare a ∧ Text.Bare b) : TypeTerm.Bare (.text (value.shown ++ a ++ index.shown ++ b)) := by
  refine .text ?_
  simp only [bare_append]
  exact ⟨⟨⟨hvalue.shown, h.1⟩, hindex.shown⟩, h.2⟩

theorem ensures_parameterOf {index : Node} (h : index.Bare) : Ensures Session.Bare Node.Bare (parameterOf n index) :=
  of_ite ensures_throwAt (ensures_current h)

theorem ensures_containerName (hm : m.Bare) : Bares (containerName m t) := by
  unfold containerName
  split
  · refine .pure ?_
    cases hname : m.containers.lookup _ with
    | none => exact hm.fallback
    | some name => exact .text (hm.containers _ (mem_of_lookup hname))
  · exact .throw
  · exact .pure hm.fallback

def BareIn (n? : Option Node) : Prop := ∀ n ∈ n?, n.Bare

theorem BareIn.some (hn : n.Bare) : BareIn (some n) := by simpa [BareIn] using hn

section Reading

variable {self : Option Node → Analysis TypeTerm} (hself : ∀ n?, BareIn n? → Ensures Session.Bare TypeTerm.Bare
  (self n?) )

include hself

theorem ensures_part (hn : n.Bare) : Bares (do self (some (← current n))) :=
  (ensures_current hn).bind fun c hc => hself (some c) (.some hc)

theorem readNode_subscript {v i : Node} (hn : n.Bare) (hshape : n.shape = .subscript v i u) {s' : Session} (hs : s.Bare)
    (h : common.readNode self (some n) s = .ok t s') :
    ∃ value index, value.Bare ∧ index.Bare ∧ s'.Bare ∧ (s'.facts.getD n.id {}).container = some (value, index) ∧
      t = .text (value.shown ++ "<" ++ index.shown ++ ">") := by
  obtain ⟨_, _, _, shape⟩ := n
  obtain rfl : shape = .subscript v i u := hshape
  obtain ⟨-, hparts⟩ := hn
  have hv : v.Bare := hparts v (by simp)
  have hi : i.Bare := hparts i (by simp)
  obtain ⟨m, s1, hmaps, h⟩ := bind_eq_ok.1 h
  obtain ⟨hs, hm⟩ := ensures_mapsOf s m s1 hs hmaps
  obtain ⟨index, s2, hindex, h⟩ := bind_eq_ok.1 h
  obtain ⟨hs, hi⟩ := ensures_parameterOf hi s1 index s2 hs hindex
  obtain ⟨c, s3, hc, h⟩ := bind_eq_ok.1 h
  obtain ⟨value, s4, hvalue, h⟩ := bind_eq_ok.1 h
  obtain ⟨hs, -⟩ := ensures_part hself hv s2 value s4 hs (bind_eq_ok.2 ⟨c, s3, hc, hvalue⟩)
  obtain ⟨index, s5, hindex, h⟩ := bind_eq_ok.1 h
  obtain ⟨hs, hindex⟩ := hself _ (.some hi) s4 index s5 hs hindex
  obtain ⟨value, s6, hvalue, h⟩ := bind_eq_ok.1 h
  obtain ⟨hs, hvalue⟩ := ensures_containerName hm s5 value s6 hs hvalue
  cases h
  exact ⟨value, index, hvalue, hindex, ⟨hs.types, hs.containers, hs.nodes⟩, congrArg Facts.container Std.TreeMap.getD_insert_self, rfl⟩

theorem ensures_readNode (n? : Option Node) (hn : BareIn n?) : Bares (common.readNode self n?) := by
  cases n? with
  | none => exact ensures_mapsOf.bind fun m hm => .pure hm.fallback
  | some n =>
    have hbare : n.Bare := hn n rfl
    obtain ⟨hwords, hparts⟩ := hn n rfl
    by_cases hsub : ∃ v i u, n.shape = .subscript v i u
    · obtain ⟨v, i, u, hshape⟩ := hsub
      intro s t s' hs h
      obtain ⟨value, index, hvalue, hindex, hs', -, rfl⟩ := readNode_subscript hself hbare hshape hs h
      exact ⟨hs', bare_applied hvalue hindex (by decide)⟩
    refine ensures_mapsOf.bind fun m hm => ?_
    dsimp only
    split
    case h_1 id u hshape =>
      exact .pure (.text (bare_knownName hm (hwords id (by simp [hshape]))))
    case h_2 => exact .pure hm.fallback
    case h_3 v _ _ hshape => exact .pure (.ofLiteral (hwords _ (by simp [hshape])))
    case h_4 c hshape => exact .pure (.text (hwords _ (by simp [hshape])))
    case h_5 es _ hshape =>
      refine (Ensures.mapM fun e he => ensures_part hself (hparts e ?_)).bind fun ts hts => .pure (.many hts)
      simpa [hshape] using he
    case h_6 => exact .pure (.text (bare_dottedType hbare))
    case h_7 v i u hshape => exact absurd ⟨v, i, u, hshape⟩ hsub
    case h_8 => exact .pure hm.fallback

end Reading

theorem ensures_ofNode (hn : BareIn n?) : Bares (common.ofNode n?) :=
  .tie (fun _ => ensures_readNode) (fun _ _ => .throw) nestingLimit hn

theorem ensures_names {ts : List TypeTerm} (h : ∀ t ∈ ts, t.Bare) :
    Ensures Session.Bare (fun names => ∀ s ∈ names, Text.Bare s) (ts.mapM fun t => match t with
      | .text s => pure s
      | _ => fail .wrongSort : Analysis (List String)) := by
  refine .mapM fun t ht => ?_
  cases h t ht with
  | text hs => exact .pure hs
  | _ => exact .throw

theorem ensures_commonContainer (hm : m.Bare) {value index : TypeTerm} (hvalue : value.Bare) (hindex : index.Bare) :
    Bares (commonContainer angled m value index) := by
  unfold commonContainer
  split
  · rename_i ts
    cases hindex with
    | many hts =>
      refine of_ite (.pure hm.fallback) (of_ite .throw ((ensures_names hts).bind fun names hnames => ?_))
      exact of_ite (.pure hm.fallback) (.pure (bare_applied hvalue (.text (bare_commas hnames)) (by decide)))
  · exact of_ite (.pure hm.fallback) (.pure (bare_applied hvalue hindex (by decide)))

theorem ensures_contained (hm : m.Bare) {v i : Node} (htype : type.Bare) (hshape : type.shape = .subscript v i u) :
    Bares (ofMention.contained common n m type) := by
  intro s t s' hs h
  obtain ⟨_, s1, hread, h⟩ := bind_eq_ok.1 h
  obtain ⟨k, hk⟩ := exists_nestingLimit
  rw [ofNode, hk] at hread
  obtain ⟨value, index, hvalue, hindex, hs1, hnoted, -⟩ :=
    readNode_subscript (fun n? hn => .tie (fun _ => ensures_readNode) (fun _ _ => .throw) k hn) htype hshape hs hread
  obtain ⟨facts, s2, ⟨⟩, h⟩ := bind_eq_ok.1 h
  simp only [hnoted] at h
  refine (ensures_note.bind fun _ _ => .tryCatch (ensures_commonContainer hm hvalue hindex) ?_) s1 t s' hs1 h
  intro f s a s' hf
  exact (of_ite (P := Ensures (fun _ => True) fun _ => False) ensures_throwAt .throw s a s' trivial hf).2

theorem ensures_ofMention (htype : type.Bare) :
    Bares (common.ofMention n (some (some type))) := by
  refine ensures_mapsOf.bind fun m hm => ?_
  dsimp only
  split
  · rename_i hlayout
    cases hlayout
  · exact ensures_contained hm htype ‹_›
  · refine (ensures_ofNode (.some htype)).bind fun t ht => of_ite ensures_throwAt (.pure ht)

theorem ensures_genericNode {self : Option Node → Analysis TypeTerm}
    (hself : ∀ n?, BareIn n? → Bares (self n?)) (hfallback : fallback.Bare)
    (n? : Option Node) (hn : BareIn n?) : Bares (genericNode fallback self n?) := by
  cases n? with
  | none => exact .pure hfallback
  | some n =>
    have hbare : n.Bare := hn n rfl
    obtain ⟨hwords, hparts⟩ := hn n rfl
    unfold genericNode
    dsimp only
    split
    case h_1 id u hshape => exact .pure (.text (hwords id (by simp [hshape])))
    case h_2 v _ hshape => exact .pure (.ofLiteral (hwords _ (by simp [hshape])))
    case h_3 c hshape => exact .pure (.text (hwords _ (by simp [hshape])))
    case h_4 es _ hshape =>
      refine (Ensures.mapM fun e he => ensures_part hself (hparts e ?_)).bind fun ts hts => .pure (.many hts)
      simpa [hshape] using he
    case h_5 => exact .pure (.text (bare_dottedType hbare))
    case h_6 v i u hshape =>
      have hv : v.Bare := hparts v (by simp [hshape])
      have hi : i.Bare := hparts i (by simp [hshape])
      refine (ensures_parameterOf hi).bind fun index hindex => (ensures_current hv).bind fun c hc => ?_
      refine (hself (some c) (.some hc)).bind fun value hvalue => ?_
      refine (hself (some index) (.some hindex)).bind fun index hindex => ?_
      exact ensures_note.bind fun _ _ => .pure (bare_applied hvalue hindex (by decide))
    case h_7 => exact .pure hfallback

theorem ensures_genericOf (hfallback : fallback.Bare) (hn : BareIn n?) :
    Bares (genericOf fallback n?) :=
  .tie (fun _ hself => ensures_genericNode hself hfallback) (fun _ _ => .throw) nestingLimit hn

end TypeStyle

/-! ### Looking names up -/

namespace Known

variable {locals : Locals}

/-- The rules of evaluation that look names up, which are all but the one for calls. -/
def look (locals : Locals) (self : Node → Option Thing) (n : Node) : Option Thing :=
  match n.shape with
  | .name id _ => locals.lookup id <|> global? id
  | .constant v _ => some (literalThing v)
  | .attribute v a _ => do attribute? (← self v) a
  | .list es _ => do
    let _ ← es.mapM self
    return .object "list"
  | .tuple es _ => do
    let _ ← es.mapM self
    return .object "tuple"
  | .dict keys values => do
    let _ ← (keys.filterMap id).mapM self
    let _ ← values.mapM self
    return .object "dict"
  | .subscript v i _ => do
    let base ← self v
    let args := match i.shape with
      | .tuple es _ => es
      | _ => [i]
    let things ← args.mapM self
    match base with
    | .unionFormer => return makeUnion (← things.mapM unionPart?)
    | .optionalFormer => return makeUnion ((← things.mapM unionPart?) ++ [["NoneType"]])
    | .object "typing._SpecialGenericAlias" | .object "typing._TupleType" | .object "typing._CallableType" =>
      return .alias ((Write.text n).toOption.getD "")
    | .alias _ => return .alias ((Write.text n).toOption.getD "")
    | _ => none
  | _ => none

/-- What a text stands for if names are only looked up. -/
def lookUp (locals : Locals) (text : String) : Option String := do
  if text == "super" || Text.startsWith text "super()" then none
  else
    let e ← (Grammar.readExpression text).toOption
    (← tie (look locals) (fun _ => none) nestingLimit e).key

theorem mapM_congr {α β : Type} {f g : α → Option β} {as : List α} (h : ∀ a ∈ as, f a = g a) : as.mapM f = as.mapM g := by
  induction as with
  | nil => rfl
  | cons a as ih =>
    obtain ⟨ha, has⟩ := forall_mem_cons.1 h
    rw [mapM_cons, mapM_cons, ha, ih has]

theorem evaluate_succ (he : e.isCall = false) (k : Nat) :
    evaluate locals (k + 1) e = look locals (evaluate locals k) e := by
  obtain ⟨_, _, _, shape⟩ := e
  cases shape with
  | call => cases he
  | _ => rfl

theorem look_congr {f g : Node → Option Thing} (h : ∀ c : Node, c.CallFree → f c = g c) (he : e.CallFree) :
    look locals f e = look locals g e := by
  obtain ⟨-, hparts⟩ := he
  have hall (es : List Node) (hes : ∀ c ∈ es, c.CallFree) : es.mapM f = es.mapM g := mapM_congr fun c hc => h c (hes c hc)
  unfold look
  split
  case h_3 v a u hshape => rw [h v (hparts v (by simp [hshape]))]
  case h_4 es u hshape | h_5 es u hshape =>
    rw [hall es fun c hc => hparts c (by simpa [hshape] using hc)]
  case h_6 keys values hshape =>
    rw [Node.children, hshape] at hparts
    obtain ⟨hkeys, hvalues⟩ := forall_mem_append.1 hparts
    rw [hall _ hkeys, hall _ hvalues]
  case h_7 v i u hshape =>
    have hv : v.CallFree := hparts v (by simp [hshape])
    have hi : i.CallFree := hparts i (by simp [hshape])
    have hargs : ∀ c ∈ (match i.shape with
        | .tuple es _ => es
        | _ => [i]), c.CallFree := by
      split
      · rename_i es _ hes
        obtain ⟨-, hiparts⟩ := hi
        exact fun c hc => hiparts c (by simpa [hes] using hc)
      · simpa using hi
    rw [h v hv]
    dsimp only
    rw [hall _ hargs]
  all_goals rfl

/-- Nothing but names is looked up to evaluate an expression without calls. -/
theorem evaluate_eq_look (he : e.CallFree) (k : Nat) : evaluate locals k e = tie (look locals) (fun _ => none) k e := by
  induction k generalizing e with
  | zero => rfl
  | succ k ih =>
    have hcall : e.isCall = false := by cases he; assumption
    rw [evaluate_succ hcall, tie, look_congr (fun _ => ih) he]

theorem resolve_eq_lookUp (h : Text.Bare text) : resolve locals text = lookUp locals text := by
  unfold resolve lookUp
  split
  · rfl
  cases he : Grammar.readExpression text with
  | error f => rfl
  | ok e =>
    change (evaluate locals nestingLimit e).bind Thing.key = (tie (look locals) (fun _ => none) nestingLimit e).bind Thing.key
    rw [evaluate_eq_look (Grammar.callFree_of_readExpression h he)]

end Known

/-! ### What is handed over -/

/-- The texts by which the class of a type or a decorator `n` is looked up: its name, the type it is in a target, and the
type it is in the source's own names. -/
inductive Handed (s : Session) (n : Node) : String → Prop
  | name {text : String} (h : n.ident? = some text) : Handed s n text
  | hint {text : String} {annotated : Node} {s' : Session}
      (h : common.ofMention annotated (some (some n)) s = .ok (.text text) s') : Handed s n text
  | inferred {text : String} {s' : Session} (h : genericOf (.text "auto") (some n) s = .ok (.text text) s') :
    Handed s n text

theorem Handed.bare (h : Handed s n text) (hs : s.Bare) (hn : n.Bare) : Text.Bare text := by
  cases h with
  | name h => exact hn.ident? text h
  | hint h =>
    cases (ensures_ofMention hn s _ _ hs h).2 with
    | text htext => exact htext
  | inferred h =>
    cases (ensures_genericOf (.text (by decide)) (.some hn) s _ _ hs h).2 with
    | text htext => exact htext

theorem handed_quoted_iff {q : String} {marked : Bool} (hn : n.shape = .constant (.str q) marked) (text : String) :
    Handed s n text ↔ text = q := by
  obtain ⟨id, line, col, shape⟩ := n
  obtain rfl : shape = .constant (.str q) marked := hn
  obtain ⟨k, hk⟩ := exists_nestingLimit
  constructor
  · rintro (h | h | h)
    · cases h
    · unfold ofMention ofNode at h
      rw [hk] at h
      cases h
      rfl
    · unfold genericOf at h
      rw [hk] at h
      cases h
      rfl
  · rintro rfl
    have h : genericOf (.text "auto") (some ⟨id, line, col, .constant (.str text) marked⟩) s = .ok (.text text) s := by
      unfold genericOf
      rw [hk]
      rfl
    exact .inferred h

theorem Targets.bare_maps {t : Target} (ht : t ∈ Targets.all) :
    (∀ x ∈ (session t).maps.types, Text.Bare x.2) ∧ ∀ x ∈ (session t).maps.containers, Text.Bare x.2 := by
  have hall : ∀ t ∈ Targets.all, (∀ x ∈ (session t).maps.types, Text.Bare x.2) ∧
      ∀ x ∈ (session t).maps.containers, Text.Bare x.2 := by decide +kernel
  exact hall t ht

def listOfInt : Node :=
  ⟨3, some 1, some 3, .subscript ⟨1, some 1, some 3, .name "List" .load⟩ ⟨2, some 1, some 8, .name "int" .load⟩ .load⟩

def quotedCall : Node := ⟨11, some 1, some 3, .constant (.str "bool(0)") false⟩

def annotatedByCall : Node :=
  ⟨14, some 1, some 0, .annAssign ⟨12, some 1, some 0, .name "x" .store⟩ quotedCall
    (some ⟨13, some 1, some 15, .constant (.int 5) false⟩) true⟩

def complaint (t : Target) (n : Node) : Option String :=
  let typed : Analysis Unit := do
    recordAll nestingLimit n
    Inference.annAssignRule (fun _ => pure ()) n
  match typed (session t) with
  | .error f _ => f.text
  | .ok _ _ => none

end Polyglot
