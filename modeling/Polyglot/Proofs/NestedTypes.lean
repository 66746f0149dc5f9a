import Polyglot.Proofs.Noting
import Polyglot.Proofs.Order
import Polyglot.Proofs.Search
import Polyglot.Targets

/-!
# Types inside of types

An annotation is written by one function, and the annotations inside of it by another. For each target the rule is
given by which it writes a container with its parameters. What a target does, by its rule and besides, is a practice.
-/
namespace Polyglot

open Session Effect TypeStyle Node

attribute [local simp] children Shape.children

/-! ### Annotations -/

/-- Containers of one kind of thing. -/
inductive Holder where
  | list | set | optional
  deriving DecidableEq

def Holder.name : Holder → String
  | .list => "List"
  | .set => "Set"
  | .optional => "Optional"

/-- Types that are put together from known classes, which have a name and are known to live for some time. -/
inductive Hint where
  | scalar (name : String) (life : Lifetime)
  | one (c : Holder) (t : Hint)
  | map (k v : Hint)
  deriving DecidableEq

inductive Hint.At (s : Session) : Node → Hint → Prop
  | scalar {n : Node} {name : String} {u : Usage} (h : n.shape = .name name u) :
      At s n (.scalar name ((s.known n.id).lifetime.getD .unknown))
  | one {n v i : Node} {u w : Usage} {c : Holder} {t : Hint} (h : n.shape = .subscript v i u) (hv : v.shape = .name c.name w)
      (hi : At s i t) : At s n (.one c t)
  | map {n v i a b : Node} {u w w' : Usage} {k t : Hint} (h : n.shape = .subscript v i u) (hv : v.shape = .name "Dict" w)
      (hi : i.shape = .tuple [a, b] w') (ha : At s a k) (hb : At s b t) : At s n (.map k t)

namespace Hint.At

variable {s : Session} {n : Node} {h : Hint}

theorem isBlock (hat : h.At s n) : n.isBlock = false := by
  cases hat with
  | scalar hshape | one hshape | map hshape => simp [isBlock, hshape]

theorem not_slice (hat : h.At s n) (a b d : Option Node) : n.shape ≠ .slice a b d := by
  cases hat with
  | scalar hshape | one hshape | map hshape => simp [hshape]

end Hint.At

/-- The rule by which a target writes types: its names of classes, as far as they depend on how long a value lives, and of
containers, and how it writes a container with one parameter and with two. -/
structure TypeRule where
  style : TypeStyle
  types : List (String × String)
  containers : List (String × String)
  leaf : Lifetime → String → String := fun _ t => t
  one : String → String → String
  two : String → String → String → String

namespace TypeRule

def bracketed (style : TypeStyle) (types containers : List (String × String)) (left right : String) : TypeRule where
  style := style
  types := types
  containers := containers
  one c t := c ++ left ++ t ++ right
  two c k v := c ++ left ++ (k ++ ", " ++ v) ++ right

/-- A borrowed value that lives for ever says so. -/
def borrowed (l : Lifetime) (t : String) : String :=
  match l, t.toList with
  | .static, '&' :: rest => "&'static " ++ String.ofList rest
  | _, _ => t

def mapped (x : TypeRule) (name : String) : Option String := (Known.resolve [] name).bind fun key => x.types.lookup key

def container (x : TypeRule) (name : String) : String := (x.containers.lookup name).getD ""

def Installed (x : TypeRule) (s : Session) : Prop :=
  s.maps.types = x.types ∧ x.style.containers.getD s.maps.containers = x.containers

end TypeRule

/-- A map is written by its values, with its keys in brackets. -/
def D.typeRule : TypeRule where
  style := D.style
  types := D.types
  containers := D.containers
  one c t := t ++ c
  two _ k v := " " ++ v ++ "[" ++ k ++ "]"

/-- A container stands before what it holds, and a map has its keys in brackets. -/
def V.typeRule : TypeRule where
  style := V.style
  types := V.types
  containers := V.containers
  one c t := c ++ t
  two c k v := c ++ "[" ++ k ++ "]" ++ v

def Smt.typeRule : TypeRule where
  style := Smt.style
  types := Smt.types
  containers := Smt.containers
  one c t := "(_ " ++ c ++ " " ++ t ++ ")"
  two c k v := "(" ++ c ++ " " ++ k ++ " " ++ v ++ ")"

def Language.typeRule : Language → Option TypeRule
  | .python => none
  | .cpp => some (.bracketed Cpp.style Cpp.types Cpp.containers "<" ">")
  | .rust => some { TypeRule.bracketed Rust.style Rust.types Rust.containers "<" ">" with leaf := TypeRule.borrowed }
  | .julia => some (.bracketed Julia.style Julia.types Julia.containers "\x7b" "\x7d")
  | .kotlin => some (.bracketed Kotlin.style Kotlin.types Kotlin.containers "<" ">")
  | .nim => some (.bracketed Nim.style Nim.types Nim.containers "[" "]")
  | .mojo => some (.bracketed Mojo.style Mojo.types Mojo.containers "[" "]")
  | .dart => some (.bracketed Dart.style Dart.types Dart.containers "<" ">")
  | .go => some (.bracketed Go.style Go.types Go.containers "" "")
  | .zig => some (.bracketed Zig.style Zig.types Zig.containers "(" ")")
  | .d => some D.typeRule
  | .v => some V.typeRule
  | .smt => some Smt.typeRule

namespace Hint

def isWord (name : String) : Bool := name.toList.all fun c => c.isAlphanum || c == '_'

def knownTo (x : TypeRule) : Hint → Bool
  | .scalar name _ => isWord name && (x.mapped name).isSome
  | .one c t => (x.containers.lookup c.name).isSome && t.knownTo x
  | .map k v => (x.containers.lookup "Dict").isSome && k.knownTo x && v.knownTo x

theorem lookup_of_isSome {x : TypeRule} {name : String} (h : (x.containers.lookup name).isSome = true) :
    x.containers.lookup name = some (x.container name) := by
  obtain ⟨c, hc⟩ := Option.isSome_iff_exists.1 h
  rw [TypeRule.container, hc, Option.getD_some]

theorem knownTo_one {x : TypeRule} {c : Holder} {t : Hint} (h : (Hint.one c t).knownTo x = true) :
    x.containers.lookup c.name = some (x.container c.name) ∧ t.knownTo x = true :=
  (Bool.and_eq_true_iff.1 h).imp_left lookup_of_isSome

theorem knownTo_map {x : TypeRule} {k v : Hint} (h : (Hint.map k v).knownTo x = true) :
    x.containers.lookup "Dict" = some (x.container "Dict") ∧ k.knownTo x = true ∧ v.knownTo x = true := by
  rw [knownTo, Bool.and_assoc] at h
  exact (Bool.and_eq_true_iff.1 h).imp lookup_of_isSome Bool.and_eq_true_iff.1

/-- The text that the rule of a target gives at every depth. -/
def composed (x : TypeRule) : Hint → String
  | .scalar name l => x.leaf l ((x.mapped name).getD name)
  | .one c t => x.one (x.container c.name) (t.composed x)
  | .map k v => x.two (x.container "Dict") (k.composed x) (v.composed x)

def mapless : Hint → Bool
  | .scalar .. => true
  | .one _ t => t.mapless
  | .map .. => false

def isSet : Hint → Bool
  | .one .set _ => true
  | _ => false

/-- No map stands strictly inside of a type. -/
def maplessInside : Hint → Bool
  | .scalar .. => true
  | .one _ t => t.mapless
  | .map k v => k.mapless && v.mapless

end Hint

def Language.composes : Language → Hint → Bool
  | .python, _ | .go, _ | .v, _ | .smt, _ => true
  | .d, t => t.maplessInside && !t.isSet
  | _, t => t.maplessInside

/-! ### How a type is read -/

def Facts.uncontained (f : Facts) : Facts := { f with container := none }

namespace Session

/-- What reading a type leaves alone: all but the containers that are noted. -/
structure Unmoved (s s' : Session) : Prop extends Noted Facts.uncontained s s' where
  maps_eq : s'.maps = s.maps

def noting (s : Session) (id : NodeId) (value index : TypeTerm) : Session :=
  { s with facts := s.facts.insert id { s.facts.getD id {} with container := some (value, index) } }

variable {s t u : Session}

namespace Unmoved

theorem refl (s : Session) : Unmoved s s := ⟨.refl s, rfl⟩

theorem symm (h : Unmoved s t) : Unmoved t s := ⟨h.toNoted.symm, h.maps_eq.symm⟩

theorem trans (h : Unmoved s t) (h' : Unmoved t u) : Unmoved s u := ⟨h.toNoted.trans h'.toNoted, h'.maps_eq.trans h.maps_eq⟩

theorem hint_eq (h : Unmoved s t) (id : NodeId) : (t.known id).hint = (s.known id).hint := by
  have hview := congrArg Facts.hint (h.view_eq id)
  exact hview

end Unmoved

theorem noting_container (id : NodeId) (value index : TypeTerm) :
    ((s.noting id value index).known id).container = some (value, index) :=
  congrArg Facts.container Std.TreeMap.getD_insert_self

theorem Unmoved.noting (h : Unmoved s t) (id : NodeId) (value index : TypeTerm) : Unmoved s (t.noting id value index) where
  nodes_eq := h.nodes_eq
  next_eq := h.next_eq
  openScopes_eq := h.openScopes_eq
  maps_eq := h.maps_eq
  view_eq i := by
    rw [← h.view_eq i, Session.noting, known_note]
    split
    · subst_vars
      rfl
    · rfl

theorem Unmoved.current_ok {k : Nat} {n : Node} (h : Unmoved s t) (hn : Holds k s n) (hblock : n.isBlock = false) :
    current n t = .ok n t :=
  current_of_holds (hn.congr fun id _ => by rw [keyAt, keyAt, h.nodes_eq]) hblock

end Session

namespace TypeStyle

variable {st : TypeStyle} {self : Option Node → Analysis TypeTerm} {n v i : Node} {u : Usage} {s t : Session}

def mapsIn (st : TypeStyle) (s : Session) : TypeMaps :=
  { s.maps with containers := st.containers.getD s.maps.containers, fallback := st.fallback }

theorem mapsOf_bind {α : Type} {f : TypeMaps → Analysis α} : (st.mapsOf >>= f) s = f (st.mapsIn s) s := rfl

theorem readNode_name {name : String} (h : n.shape = .name name u) :
    st.readNode self (some n) s =
      (st.adjust <$> st.nameType (st.mapsIn s) name ((s.known n.id).lifetime.getD .unknown)) s := by
  refine mapsOf_bind.trans ?_
  simp only [h]
  exact bind_ok (show factsOf n.id s = .ok (s.known n.id) s from rfl)

theorem readNode_subscript_eq {name c : String} {index : TypeTerm} (h : n.shape = .subscript v i u)
    (hslice : ∀ a b d, i.shape ≠ .slice a b d) (hi : current i s = .ok i s) (hv : current v s = .ok v s)
    (hname : self (some v) s = .ok (.text name) s) (hindex : self (some i) s = .ok index t)
    (hc : (st.mapsIn s).containers.lookup name = some c) :
    st.readNode self (some n) s = (st.adjust <$> st.combine (.text c) (st.settle (.text c) index))
      (t.noting n.id (.text c) (st.settle (.text c) index)) := by
  simp only [readNode]
  simp only [h]
  have hparameter : parameterOf n i s = .ok i s := by
    unfold parameterOf
    split
    · rename_i a b d hshape
      exact absurd hshape (hslice _ _ _)
    · exact hi
  have hcontainer : containerName (st.mapsIn s) (.text name) t = .ok (.text c) t := by
    rw [containerName, hc]
    rfl
  refine (bind_ok hparameter).trans ((bind_ok hv).trans ((bind_ok hname).trans ((bind_ok hindex).trans ?_)))
  refine (bind_ok hcontainer).trans ?_
  rfl

theorem readNode_tuple {a b : Node} {ta tb : TypeTerm} {s1 s2 : Session} (h : n.shape = .tuple [a, b] u)
    (ha : current a s = .ok a s) (hreada : self (some a) s = .ok ta s1) (hb : current b s1 = .ok b s1)
    (hreadb : self (some b) s1 = .ok tb s2) : st.readNode self (some n) s = .ok (.many [ta, tb]) s2 := by
  simp only [readNode]
  simp only [h]
  have hlast : ([b].mapM fun e => do self (some (← current e))) s1 = .ok [tb] s2 := by
    exact (bind_ok ((bind_ok hb).trans hreadb)).trans rfl
  have hboth : ([a, b].mapM fun e => do self (some (← current e))) s = .ok [ta, tb] s2 := by
    rw [List.mapM_cons]
    exact (bind_ok ((bind_ok ha).trans hreada)).trans ((bind_ok hlast).trans rfl)
  exact (bind_ok hboth).trans rfl

theorem ofMention_subscript_eq {type : Node} {value index r : TypeTerm} (h : type.shape = .subscript v i u)
    (hv : current v s = .ok v s) (hcallable : v.ident? ≠ some "Callable") (hread : ∃ r', st.ofNode (some type) s = .ok r' t)
    (hnoted : (t.known type.id).container = some (value, index))
    (hcontainer : st.container (st.mapsIn s) value index = pure r) :
    ∃ s', st.ofMention n (some (some type)) s = .ok r s' := by
  obtain ⟨r', hread⟩ := hread
  have hcontained : ∃ s', ofMention.contained st n (st.mapsIn s) type s = .ok r s' := by
    refine ⟨t.noting n.id value index, (bind_ok hread).trans
      ((bind_ok (show factsOf type.id t = .ok (t.known type.id) t from rfl)).trans ?_)⟩
    simp only [hnoted]
    rw [hcontainer]
    rfl
  obtain ⟨s', hcontained⟩ := hcontained
  refine ⟨s', ?_⟩
  refine mapsOf_bind.trans ?_
  simp only [h]
  cases st.functionType with
  | none => exact hcontained
  | some layout =>
    refine (bind_ok hv).trans ?_
    rw [if_neg (by simpa using hcallable)]
    exact hcontained

end TypeStyle

/-- What a target does, by its rule and besides. Inside of other types it writes `good` texts, and `pair` for a map. As an
annotation of its own, a container is written as `first` if it has one parameter and as `both` if it has two. -/
structure TypeRule.Practice (x : TypeRule) where
  good : String → Prop
  pair : String → String → String → String
  first : String → String → String
  both : String → String → String → String
  name_ok : ∀ {m : TypeMaps} {name t : String} (l : Lifetime), m.types = x.types →
    Hint.isWord name = true → x.mapped name = some t →
    x.style.adjust <$> x.style.nameType m name l = pure (.text (x.leaf l t)) ∧ good (x.leaf l t)
  container_ok : ∀ {m : TypeMaps} {name : String} (l : Lifetime), m.types = x.types →
    name ∈ ["List", "Set", "Optional", "Dict"] → x.style.adjust <$> x.style.nameType m name l = pure (.text name)
  one_ok : ∀ (h : Holder) {c t : String}, x.containers.lookup h.name = some c → good t →
    x.style.settle (.text c) (.text t) = .text t ∧
      x.style.adjust <$> x.style.combine (.text c) (.text t) = pure (.text (x.one c t)) ∧ good (x.one c t)
  pair_ok : ∀ {c k v : String}, x.containers.lookup "Dict" = some c → good k → good v →
    x.style.settle (.text c) (.many [.text k, .text v]) = .many [.text k, .text v] ∧
      x.style.adjust <$> x.style.combine (.text c) (.many [.text k, .text v]) = pure (.text (pair c k v)) ∧ good (pair c k v)
  first_ok : ∀ (h : Holder) {m : TypeMaps} {c t : String}, m.fallback = x.style.fallback →
    x.containers.lookup h.name = some c → good t → x.style.container m (.text c) (.text t) = pure (.text (first c t))
  both_ok : ∀ {m : TypeMaps} {c k v : String}, m.fallback = x.style.fallback → x.containers.lookup "Dict" = some c →
    good k → good v → x.style.container m (.text c) (.many [.text k, .text v]) = pure (.text (both c k v))

namespace TypeRule.Practice

variable {x : TypeRule} (p : x.Practice)

def inner : Hint → String
  | .scalar name l => x.leaf l ((x.mapped name).getD name)
  | .one c t => x.one (x.container c.name) (inner t)
  | .map k v => p.pair (x.container "Dict") (inner k) (inner v)

def written : Hint → String
  | .scalar name l => p.inner (.scalar name l)
  | .one c t => p.first (x.container c.name) (p.inner t)
  | .map k v => p.both (x.container "Dict") (p.inner k) (p.inner v)

def parameters : Hint → Option TypeTerm
  | .scalar .. => none
  | .one _ t => some (.text (p.inner t))
  | .map k v => some (.many [.text (p.inner k), .text (p.inner v)])

def head : Hint → String
  | .scalar name _ => name
  | .one c _ => c.name
  | .map .. => "Dict"

variable {p} {s t : Session} {n : Node} {h : Hint} {k j : Nat}

theorem good_inner (hknown : h.knownTo x = true) : p.good (p.inner h) := by
  induction h with
  | scalar name l =>
    rw [Hint.knownTo, Bool.and_eq_true] at hknown
    obtain ⟨hword, hmapped⟩ := hknown
    obtain ⟨t, ht⟩ := Option.isSome_iff_exists.1 hmapped
    rw [inner, ht, Option.getD_some]
    exact (p.name_ok (m := ⟨x.types, [], .absent⟩) l rfl hword ht).2
  | one c t ih =>
    obtain ⟨hname, ht⟩ := Hint.knownTo_one hknown
    exact (p.one_ok c hname (ih ht)).2.2
  | map k v ihk ihv =>
    obtain ⟨hname, hk, hv⟩ := Hint.knownTo_map hknown
    exact (p.pair_ok hname (ihk hk) (ihv hv)).2.2

variable (p) in
include p in
theorem read_container {v : Node} {w : Usage} {name : String} (hs : x.Installed s) (ht : Unmoved s t)
    (hv : v.shape = .name name w) (hname : name ∈ ["List", "Set", "Optional", "Dict"]) :
    tie (fun self => x.style.readNode self) (fun _ => fail .tooDeep) (j + 1) (some v) t = .ok (.text name) t := by
  have hmaps : (x.style.mapsIn t).types = x.types := (congrArg TypeMaps.types ht.maps_eq).trans hs.1
  refine (readNode_name hv).trans ?_
  rw [p.container_ok _ hmaps hname]
  rfl

/-- A type is read as the text that it has inside of others, and its parameters are noted. -/
theorem read_ok (hat : h.At s n) (hknown : h.knownTo x = true) (hs : x.Installed s) (ht : Unmoved s t) (hheld : Holds k s n)
    (hk : k ≤ j) :
    ∃ t', tie (fun self => x.style.readNode self) (fun _ => fail .tooDeep) j (some n) t = .ok (.text (p.inner h)) t' ∧
      Unmoved s t' ∧ ∀ y, p.parameters h = some y → (t'.known n.id).container = some (.text (x.container (head h)), y) := by
  have hmaps {t : Session} (ht : Unmoved s t) : (x.style.mapsIn t).types = x.types :=
    (congrArg TypeMaps.types ht.maps_eq).trans hs.1
  have hcontainers {t : Session} (ht : Unmoved s t) : (x.style.mapsIn t).containers = x.containers :=
    (congrArg (fun m : TypeMaps => x.style.containers.getD m.containers) ht.maps_eq).trans hs.2
  induction hat generalizing t k j with
  | @scalar n name u hshape =>
    obtain ⟨k, rfl⟩ := hheld.exists_succ
    obtain ⟨j, rfl⟩ := exists_succ_of_lt hk
    rw [Hint.knownTo, Bool.and_eq_true] at hknown
    obtain ⟨hword, hmapped⟩ := hknown
    obtain ⟨text, htext⟩ := Option.isSome_iff_exists.1 hmapped
    refine ⟨t, (readNode_name hshape).trans ?_, ht, nofun⟩
    have hlifetime : (t.known n.id).lifetime = (s.known n.id).lifetime := (congrArg Facts.lifetime (ht.view_eq n.id) :)
    rw [(p.name_ok _ (hmaps ht) hword htext).1, hlifetime, inner, htext]
    rfl
  | @one n v i u w c a hshape hv hi ih =>
    obtain ⟨k, rfl⟩ := hheld.exists_succ
    obtain ⟨j, rfl⟩ := exists_succ_of_lt hk
    obtain ⟨hname, ha⟩ := Hint.knownTo_one hknown
    have hheldv : Holds k s v := hheld.2 v (by simp [hshape])
    have hheldi : Holds k s i := hheld.2 i (by simp [hshape])
    obtain ⟨k, rfl⟩ := hheldv.exists_succ
    obtain ⟨j, rfl⟩ := exists_succ_of_lt (Nat.le_of_succ_le_succ hk)
    obtain ⟨t', hread, ht', _⟩ := ih ha ht hheldi (j := j + 1) (by omega)
    obtain ⟨hsettle, hcombine, _⟩ := p.one_ok c hname (good_inner ha)
    refine ⟨t'.noting n.id (.text (x.container c.name)) (.text (p.inner a)), ?_, ht'.noting _ _ _, ?_⟩
    · refine (readNode_subscript_eq hshape hi.not_slice (ht.current_ok hheldi hi.isBlock)
        (ht.current_ok hheldv (by simp [isBlock, hv])) (p.read_container hs ht hv (by cases c <;> decide)) hread
        ((congrArg (List.lookup c.name) (hcontainers ht)).trans hname)).trans ?_
      rw [hsettle, hcombine]
      rfl
    · rintro y hy
      cases hy
      exact noting_container ..
  | @map n v i a b u w w' ka vb hshape hv hi ha hb iha ihb =>
    obtain ⟨k, rfl⟩ := hheld.exists_succ
    obtain ⟨j, rfl⟩ := exists_succ_of_lt hk
    obtain ⟨hname, hka, hvb⟩ := Hint.knownTo_map hknown
    have hheldv : Holds k s v := hheld.2 v (by simp [hshape])
    have hheldi : Holds k s i := hheld.2 i (by simp [hshape])
    obtain ⟨k, rfl⟩ := hheldv.exists_succ
    obtain ⟨j, rfl⟩ := exists_succ_of_lt (Nat.le_of_succ_le_succ hk)
    have hhelda : Holds k s a := hheldi.2 a (by simp [hi])
    have hheldb : Holds k s b := hheldi.2 b (by simp [hi])
    obtain ⟨t1, hreada, ht1, _⟩ := iha hka ht hhelda (j := j) (by omega)
    obtain ⟨t2, hreadb, ht2, _⟩ := ihb hvb ht1 hheldb (j := j) (by omega)
    have hread : tie (fun self => x.style.readNode self) (fun _ => fail .tooDeep) (j + 1) (some i) t =
        .ok (.many [.text (p.inner ka), .text (p.inner vb)]) t2 :=
      readNode_tuple hi (ht.current_ok hhelda ha.isBlock) hreada (ht1.current_ok hheldb hb.isBlock) hreadb
    obtain ⟨hsettle, hcombine, _⟩ := p.pair_ok hname (good_inner hka) (good_inner hvb)
    refine ⟨t2.noting n.id (.text (x.container "Dict")) (.many [.text (p.inner ka), .text (p.inner vb)]), ?_, ht2.noting _ _ _, ?_⟩
    · refine (readNode_subscript_eq hshape (by simp [hi]) (ht.current_ok hheldi (by simp [isBlock, hi]))
        (ht.current_ok hheldv (by simp [isBlock, hv])) (p.read_container hs ht hv (by decide)) hread
        ((congrArg (List.lookup "Dict") (hcontainers ht)).trans hname)).trans ?_
      rw [hsettle, hcombine]
      rfl
    · rintro y hy
      cases hy
      exact noting_container ..

theorem ofMention_ok (p : x.Practice) {type : Node} (hat : h.At s type) (hknown : h.knownTo x = true) (hs : x.Installed s)
    (hheld : Holds k s type) (hk : k ≤ nestingLimit) :
    ∃ s', x.style.ofMention n (some (some type)) s = .ok (.text (p.written h)) s' := by
  have hrefl : Unmoved s s := .refl s
  obtain ⟨t, hread, ht, hnoted⟩ := p.read_ok hat hknown hs hrefl hheld hk
  cases hat with
  | scalar hshape =>
    refine ⟨t, ?_⟩
    simp only [TypeStyle.ofMention]
    simp only [hshape]
    exact (bind_ok hread).trans rfl
  | @one _ v i u w c a hshape hv hi =>
    obtain ⟨k, rfl⟩ := hheld.exists_succ
    obtain ⟨hname, ha⟩ := Hint.knownTo_one hknown
    have hheldv : Holds k s v := hheld.2 v (by simp [hshape])
    refine ofMention_subscript_eq hshape (hrefl.current_ok hheldv (by simp [isBlock, hv]))
      (by rw [ident?_of_name hv]; cases c <;> decide) ⟨_, hread⟩ (hnoted _ rfl) ?_
    exact p.first_ok c rfl hname (good_inner ha)
  | @map _ v i a b u w w' ka vb hshape hv hi ha hb =>
    obtain ⟨k, rfl⟩ := hheld.exists_succ
    obtain ⟨hname, hka, hvb⟩ := Hint.knownTo_map hknown
    have hheldv : Holds k s v := hheld.2 v (by simp [hshape])
    refine ofMention_subscript_eq hshape (hrefl.current_ok hheldv (by simp [isBlock, hv]))
      (by rw [ident?_of_name hv]; decide) ⟨_, hread⟩ (hnoted _ rfl) ?_
    exact p.both_ok rfl hname (good_inner hka) (good_inner hvb)

end TypeRule.Practice

end Polyglot
