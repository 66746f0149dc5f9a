import Mathlib
import Polyglot.Proofs.NestedTypes

/-!
# Which types are composed

A target composes a type if its text is what the rule of the target gives at every depth. Where several parameters
stand in brackets, this is so if and only if no map stands inside of another type, because there the parameters of a
map are written as a list.
-/
namespace Polyglot

open Session Effect List TypeTerm TypeStyle TypeRule Hint Option Smt

variable {c t name : String} {x : TypeRule} {m : TypeMaps}

/-! ### What the targets do -/

namespace TypeStyle

variable {combine : TypeTerm → TypeTerm → Analysis TypeTerm} {m : TypeMaps} {c t k v : String}

theorem isText_eq_false (h : t ≠ c) : (text t).isText c = false := by
  change (t == c) = false
  exact beq_false_of_ne h

theorem commonContainer_text (hc : (text c == m.fallback) = false) (ht : t ≠ "Any") :
    commonContainer combine m (.text c) (.text t) = combine (.text c) (.text t) := by
  simp only [commonContainer, hc, isText_eq_false ht, Bool.or_false, Bool.false_eq_true, if_false]

theorem commonContainer_fallback (hc : (text c == m.fallback) = true) :
    commonContainer combine m (.text c) (.text t) = pure m.fallback := by
  simp only [commonContainer, hc, Bool.or_true, if_true]

theorem commonContainer_many (hc : (text c == m.fallback) = false) (hk : k ≠ "Any") (hv : v ≠ "Any") :
    commonContainer combine m (.text c) (.many [.text k, .text v]) = combine (.text c) (.text (k ++ ", " ++ v)) := by
  have habsent (s : String) : (text s == .absent) = false := rfl
  simp only [commonContainer, hc, any_cons, any_nil, isText_eq_false hk, isText_eq_false hv, habsent, Bool.or_false,
    Bool.false_eq_true, if_false]
  rfl

end TypeStyle

namespace TypeRule

variable {x : TypeRule} {good : String → Prop} {left right : String}

theorem mem_types_of_mapped {name t : String} (h : x.mapped name = some t) : t ∈ x.types.map Prod.snd := by
  obtain ⟨key, _, hkey⟩ := bind_eq_some_iff.1 h
  exact mem_map_of_mem (mem_of_lookup hkey)

/-- A target has texts for the names of classes and leaves the names of containers as they are. -/
structure Naming (x : TypeRule) (good : String → Prop) : Prop where
  nameType_eq : ∀ (m : TypeMaps) (name : String) (l : Lifetime), Hint.isWord name = true → knownName m name ≠ "" →
    x.style.nameType m name l = pure (.text (x.leaf l (knownName m name)))
  unmapped : ∀ name ∈ ["List", "Set", "Optional", "Dict"], x.mapped name = none
  leaf_container : ∀ (l : Lifetime), ∀ name ∈ ["List", "Set", "Optional", "Dict"],
    x.leaf l name = name ∧ x.style.adjust (.text name) = .text name
  leaf_ok : ∀ (l : Lifetime), ∀ t ∈ x.types.map Prod.snd,
    t ≠ "" ∧ x.style.adjust (.text (x.leaf l t)) = .text (x.leaf l t) ∧ good (x.leaf l t)

namespace Naming

variable {m : TypeMaps} {name t : String} {l : Lifetime}

theorem name_ok (h : x.Naming good) (hm : m.types = x.types) (hword : Hint.isWord name = true) (ht : x.mapped name = some t) :
    x.style.adjust <$> x.style.nameType m name l = pure (.text (x.leaf l t)) ∧ good (x.leaf l t) := by
  obtain ⟨hne, hadjust, hgood⟩ := h.leaf_ok l t (mem_types_of_mapped ht)
  have hknown : knownName m name = t := by
    rw [knownName, hm, ← mapped, ht, getD_some]
  refine ⟨?_, hgood⟩
  rw [h.nameType_eq m name l hword (hknown ▸ hne), hknown]
  exact congrArg (pure (f := Analysis)) hadjust

theorem container_ok (h : x.Naming good) (hm : m.types = x.types) (hname : name ∈ ["List", "Set", "Optional", "Dict"]) :
    x.style.adjust <$> x.style.nameType m name l = pure (.text name) := by
  have hknown : knownName m name = name := by
    rw [knownName, hm, ← mapped, h.unmapped name hname, getD_none]
  have hword : ∀ name ∈ ["List", "Set", "Optional", "Dict"], Hint.isWord name = true ∧ name ≠ "" := by decide
  obtain ⟨hword, hne⟩ := hword name hname
  obtain ⟨hleaf, hadjust⟩ := h.leaf_container l name hname
  rw [h.nameType_eq m name l hword (by rwa [hknown]), hknown, hleaf]
  exact congrArg (pure (f := Analysis)) hadjust

end Naming

def listed (k v : String) : String := "[" ++ (Text.quoted k ++ ", " ++ Text.quoted v) ++ "]"

theorem shown_many (k v : String) : (many [.text k, .text v]).shown = listed k v := by
  simp [shown, quoted, quotedAll, listed, Text.commas]

/-- A target writes parameters in brackets, and uses the common way to write an annotation. -/
structure Bracketed (x : TypeRule) (left right : String) : Prop where
  naming : x.Naming (· ≠ "Any")
  combine_eq : x.style.combine = fun v i => pure (.text (v.shown ++ left ++ i.shown ++ right))
  container_eq : x.style.container = commonContainer x.style.combine
  settle_eq : x.style.settle = fun _ i => i
  adjust_eq : x.style.adjust = fun t => t
  one_eq : x.one = fun c t => c ++ left ++ t ++ right
  two_eq : x.two = fun c k v => c ++ left ++ (k ++ ", " ++ v) ++ right
  container_ne : ∀ c ∈ x.containers.map Prod.snd,
    (text c == x.style.fallback) = false ∧ ¬ (c ++ left).toList <+: "Any".toList

namespace Bracketed

variable {name c : String}

theorem ne_fallback (h : x.Bracketed left right) (hc : x.containers.lookup name = some c) :
    (text c == x.style.fallback) = false ∧ ¬ (c ++ left).toList <+: "Any".toList :=
  h.container_ne c (mem_map_of_mem (mem_of_lookup hc))

theorem ne_any (h : x.Bracketed left right) (hc : x.containers.lookup name = some c) (t : String) :
    c ++ left ++ t ++ right ≠ "Any" := by
  intro heq
  refine (h.ne_fallback hc).2 ?_
  rw [← heq, String.append_assoc, String.toList_append (s := c ++ left)]
  exact prefix_append _ _

def practice (h : x.Bracketed left right) : x.Practice where
  good := (· ≠ "Any")
  pair c k v := c ++ left ++ listed k v ++ right
  first c t := c ++ left ++ t ++ right
  both c k v := c ++ left ++ (k ++ ", " ++ v) ++ right
  name_ok _ := h.naming.name_ok
  container_ok _ := h.naming.container_ok
  one_ok _ c t hc _ := by
    rw [h.settle_eq, h.adjust_eq, h.combine_eq, h.one_eq]
    exact ⟨rfl, rfl, h.ne_any hc t⟩
  pair_ok {c k v} hc _ _ := by
    rw [h.settle_eq, h.adjust_eq, h.combine_eq]
    refine ⟨rfl, ?_, h.ne_any hc _⟩
    rw [← shown_many]
    rfl
  first_ok _ m c t hm hc ht := by
    rw [h.container_eq, commonContainer_text (hm ▸ (h.ne_fallback hc).1) ht, h.combine_eq]
    rfl
  both_ok {m c k v} hm hc hk hv := by
    rw [h.container_eq, commonContainer_many (hm ▸ (h.ne_fallback hc).1) hk hv, h.combine_eq]
    rfl

end Bracketed

theorem Practice.inner_of_mapless (p : x.Practice) {h : Hint} (hmap : h.mapless = true) : p.inner h = h.composed x := by
  induction h with
  | scalar name l => rfl
  | one c t ih => rw [inner, composed, ih hmap]
  | map k v => cases hmap

end TypeRule

theorem Text.length_quotedChar (q c : Char) : 1 ≤ (Text.quotedChar q c).length := by
  unfold Text.quotedChar
  split
  · simp
  split
  · simp
  have hcode {before : String} {width : Nat} (h : 1 ≤ before.length) : 1 ≤ (before ++ Text.hexFixed width c.toNat).length := by
    rw [String.length_append]
    omega
  unfold Text.escapeCode
  dsimp only
  iterate 3
    split
    · decide
  split
  · exact hcode (by decide)
  split <;> exact hcode (by decide)

theorem Text.length_quoted (s : String) : s.length + 2 ≤ (Text.quoted s).length := by
  have hjoin (q : Char) (cs : List Char) : cs.length ≤ (String.join (cs.map (Text.quotedChar q))).length := by
    induction cs with
    | nil => simp
    | cons c cs ih =>
      have := Text.length_quotedChar q c
      simp only [map_cons, String.join_cons, String.length_append, length_cons]
      omega
  have hs := hjoin (Text.quoteFor (s.contains '\'') (s.contains '"')) s.toList
  have hquote (c : Char) : c.toString.length = 1 := by simp
  simp only [Text.quoted, String.length_append, hquote]
  rw [String.length_toList] at hs
  omega

namespace TypeRule.Bracketed

variable {x : TypeRule} {left right : String} (b : x.Bracketed left right)

/-- Inside of other types, maps have longer texts than the rule gives. -/
theorem length_composed (h : Hint) :
    (h.composed x).length ≤ (b.practice.inner h).length ∧
      (h.mapless = false → (h.composed x).length < (b.practice.inner h).length) := by
  induction h with
  | scalar name l => exact ⟨le_rfl, nofun⟩
  | one c t ih =>
    rw [composed, Practice.inner, b.one_eq, mapless]
    simp only [String.length_append]
    grind
  | map k v ihk ihv =>
    have hk := Text.length_quoted (b.practice.inner k)
    have hv := Text.length_quoted (b.practice.inner v)
    rw [composed, Practice.inner, b.two_eq]
    simp only [practice, listed, String.length_append] at *
    grind

theorem written_eq_composed_iff (h : Hint) : b.practice.written h = h.composed x ↔ h.maplessInside = true := by
  cases h with
  | scalar name l => exact ⟨fun _ => rfl, fun _ => rfl⟩
  | one c t =>
    have hwritten : b.practice.written (.one c t) = x.one (x.container c.name) (b.practice.inner t) := by
      rw [b.one_eq]
      rfl
    rw [hwritten, composed, maplessInside]
    constructor
    · intro heq
      have hlength := congrArg String.length heq
      rw [b.one_eq] at hlength
      simp only [String.length_append] at hlength
      have := (b.length_composed t).2
      grind
    · intro hmap
      rw [b.practice.inner_of_mapless hmap]
  | map k v =>
    have hwritten : b.practice.written (.map k v) =
        x.two (x.container "Dict") (b.practice.inner k) (b.practice.inner v) := by
      rw [b.two_eq]
      rfl
    rw [hwritten, composed, maplessInside, Bool.and_eq_true]
    constructor
    · intro heq
      have hlength := congrArg String.length heq
      rw [b.two_eq] at hlength
      simp only [String.length_append] at hlength
      have := b.length_composed k
      have := b.length_composed v
      grind
    · rintro ⟨hk, hv⟩
      rw [b.practice.inner_of_mapless hk, b.practice.inner_of_mapless hv]

end TypeRule.Bracketed

namespace TypeRule

/-- What the names of containers stand for, if for anything, no target has a text for. -/
def formerKey : String := "typing._SpecialGenericAlias"

theorem resolve_container : ∀ name ∈ ["List", "Set", "Optional", "Dict"], ∀ key ∈ Known.resolve [] name, key = formerKey := by
  decide +kernel

theorem mapped_container (hx : x.types.lookup formerKey = none) :
    ∀ name ∈ ["List", "Set", "Optional", "Dict"], x.mapped name = none := by
  intro name hname
  rw [mapped, bind_eq_none_iff]
  intro key hkey
  rw [resolve_container name hname key hkey, hx]

/-- The common style with names of its own and with brackets. -/
theorem Bracketed.of_common {style : TypeStyle} {types containers : List (String × String)} {left right : String}
    (hname : style.nameType = TypeStyle.commonName)
    (hcombine : style.combine = fun v i => pure (.text (v.shown ++ left ++ i.shown ++ right)))
    (hcontainer : style.container = TypeStyle.commonContainer style.combine) (hsettle : style.settle = fun _ i => i)
    (hadjust : style.adjust = fun t => t) (hformer : types.lookup formerKey = none)
    (htypes : ∀ t ∈ types.map Prod.snd, t ≠ "" ∧ t ≠ "Any")
    (hcontainers : ∀ c ∈ containers.map Prod.snd,
      (TypeTerm.text c == style.fallback) = false ∧ ¬ (c ++ left).toList <+: "Any".toList) :
    (bracketed style types containers left right).Bracketed left right where
  naming :=
    { nameType_eq := fun m name l _ _ => by
        change style.nameType m name l = _
        rw [hname]
        rfl
      unmapped := mapped_container hformer
      leaf_container := fun _ name _ => ⟨rfl, congrFun hadjust _⟩
      leaf_ok := fun _ t ht => ⟨(htypes t ht).1, congrFun hadjust _, (htypes t ht).2⟩ }
  combine_eq := hcombine
  container_eq := hcontainer
  settle_eq := hsettle
  adjust_eq := hadjust
  one_eq := rfl
  two_eq := rfl
  container_ne := hcontainers

end TypeRule

def Language.brackets : Language → Option (String × String)
  | .cpp | .rust | .kotlin | .dart => some ("<", ">")
  | .julia => some ("\x7b", "\x7d")
  | .nim | .mojo => some ("[", "]")
  | .zig => some ("(", ")")
  | .go => some ("", "")
  | .python | .d | .v | .smt => none

theorem Rust.nameType_eq {l : Lifetime} (h : TypeStyle.knownName m name ≠ "") :
    Rust.nameType m name l = pure (.text (borrowed l (TypeStyle.knownName m name))) := by
  unfold Rust.nameType
  generalize TypeStyle.knownName m name = t at h
  cases l with
  | unknown => rfl
  | static =>
    cases ht : t.toList with
    | nil => exact absurd (String.toList_eq_nil_iff.1 ht) h
    | cons c rest =>
      by_cases hc : c = '&' <;> simp [borrowed, ht, hc]

theorem Language.bracketed {L : Language} {left right : String} (hx : L.typeRule = some x)
    (hL : L.brackets = some (left, right)) : x.Bracketed left right := by
  cases L with
  | cpp | julia | kotlin | nim | mojo | dart | zig =>
    cases hx
    cases hL
    exact .of_common rfl rfl rfl rfl rfl rfl (by decide) (by decide)
  | go =>
    cases hx
    cases hL
    refine .of_common rfl ?_ rfl rfl rfl rfl (by decide) (by decide)
    funext v i
    rw [String.append_empty, String.append_empty]
    rfl
  | rust =>
    cases hx
    cases hL
    have hcommon : (bracketed { Rust.style with nameType := TypeStyle.commonName } Rust.types Rust.containers
        "<" ">").Bracketed "<" ">" := .of_common rfl rfl rfl rfl rfl rfl (by decide) (by decide)
    have hcontainer : ∀ name ∈ ["List", "Set", "Optional", "Dict"], borrowed .static name = name := by decide
    have htypes : ∀ t ∈ Rust.types.map Prod.snd, t ≠ "" ∧ t ≠ "Any" ∧ borrowed .static t ≠ "Any" := by decide
    refine { hcommon with naming := ⟨fun m name l _ hne => Rust.nameType_eq hne, hcommon.naming.unmapped, ?_, ?_⟩ }
    · intro l name hname
      cases l with
      | unknown => exact ⟨rfl, rfl⟩
      | static => exact ⟨hcontainer name hname, rfl⟩
    · intro l t ht
      obtain ⟨hne, hplain, hborrowed⟩ := htypes t ht
      cases l with
      | unknown => exact ⟨hne, rfl, hplain⟩
      | static => exact ⟨hne, rfl, hborrowed⟩
  | python | d | v | smt => cases hL

/-! ### Targets with rules of their own -/

namespace Hint

variable {x : TypeRule} {h : Hint}

theorem mapless_of_knownTo (hx : x.containers.lookup "Dict" = none) (hknown : h.knownTo x = true) : h.mapless = true := by
  induction h with
  | scalar => rfl
  | one c t ih => exact ih (knownTo_one hknown).2
  | map k v =>
    rw [knownTo, hx] at hknown
    cases hknown

end Hint

/-- If what is written inside of other types and as an annotation is what the rule gives, then so is the whole. -/
theorem TypeRule.Practice.written_eq_composed (p : x.Practice) (hpair : p.pair = x.two) (hfirst : p.first = x.one)
    (hboth : p.both = x.two) (h : Hint) : p.written h = h.composed x := by
  have hinner (h : Hint) : p.inner h = h.composed x := by
    induction h with
    | scalar => rfl
    | one c t ih => rw [inner, composed, ih]
    | map k v ihk ihv => rw [inner, composed, ihk, ihv, hpair]
  cases h with
  | scalar => rfl
  | one c t => rw [written, composed, hinner, hfirst]
  | map k v => rw [written, composed, hinner, hinner, hboth]

namespace V

/-- A name that is no parameter, no error, no member and no union. -/
abbrev Plain (t : String) : Prop :=
  t ≠ "T" ∧ t ≠ "E" ∧ t ≠ "Error" ∧ '.' ∉ t.toList ∧ ¬ "Union[".toList <+: t.toList

theorem adjust_text (h : Plain t) : adjust (.text t) = .text t := by
  obtain ⟨hT, hE, hError, hdot, hunion⟩ := h
  have hoccurs : Text.occursIn "." t = false := by
    rw [Bool.eq_false_iff, Ne, Text.occursIn_iff]
    exact fun h => hdot (h.subset (by decide))
  have hstarts : Text.startsWith t "Union[" = false := by
    rw [Bool.eq_false_iff, Ne, Text.startsWith_iff]
    exact hunion
  simp [adjust, hT, hE, hError, hoccurs, hstarts]

theorem kept_append (hc : (c.toList.head?.any (· ∉ ['T', 'E', 'U', 'A'])) = true) (hcdot : '.' ∉ c.toList)
    (ht : '.' ∉ t.toList) :
    adjust (.text (c ++ t)) = .text (c ++ t) ∧ '.' ∉ (c ++ t).toList ∧ c ++ t ≠ "Any" := by
  obtain ⟨f, hhead, hf⟩ := (any_eq_true _ _).1 hc
  obtain ⟨cs, hcs⟩ : ∃ cs, c.toList = f :: cs := head?_eq_some_iff.1 hhead
  have hne {d : Char} (ds : List Char) (hd : d ∈ ['T', 'E', 'U', 'A']) : ¬ d :: ds <+: (c ++ t).toList := by
    rw [String.toList_append, hcs, cons_append, cons_prefix_cons]
    rintro ⟨rfl, -⟩
    exact of_decide_eq_true hf hd
  have hne' {d : Char} {ds : List Char} {w : String} (hw : w.toList = d :: ds) (hd : d ∈ ['T', 'E', 'U', 'A']) : c ++ t ≠ w := by
    rintro rfl
    exact hne ds hd (hw ▸ prefix_refl _)
  have hdot : '.' ∉ (c ++ t).toList := by
    rw [String.toList_append, mem_append]
    exact fun h => h.elim hcdot ht
  exact ⟨adjust_text ⟨hne' rfl (by decide), hne' rfl (by decide), hne' rfl (by decide), hdot, hne _ (by decide)⟩, hdot,
    hne' rfl (by decide)⟩

theorem naming : V.typeRule.Naming fun t => '.' ∉ t.toList ∧ t ≠ "Any" where
  nameType_eq _ _ _ _ _ := rfl
  unmapped := mapped_container rfl
  leaf_container l name hname := by
    have hplain : ∀ name ∈ ["List", "Set", "Optional", "Dict"], Plain name := by decide
    exact ⟨rfl, adjust_text (hplain name hname)⟩
  leaf_ok l t ht := by
    have hplain : ∀ t ∈ V.types.map Prod.snd, Plain t ∧ '.' ∉ t.toList ∧ t ≠ "" ∧ t ≠ "Any" := by decide
    obtain ⟨hplain, hdot, hne, hany⟩ := hplain t ht
    exact ⟨hne, adjust_text hplain, hdot, hany⟩

theorem container_of_holder (h : Holder) : ∀ c ∈ V.typeRule.containers.lookup h.name,
    c ≠ "map" ∧ '.' ∉ c.toList ∧ (c.toList.head?.any (· ∉ ['T', 'E', 'U', 'A'])) = true := by
  cases h <;> decide

theorem combine_one (hc : c ≠ "map") : combine (.text c) (.text t) = pure (.text (c ++ t)) := by
  unfold combine
  rw [TypeStyle.isText_eq_false hc]
  rfl

theorem settle_two {k v : String} (hk : k ≠ "Any") :
    settle (.text c) (.many [.text k, .text v]) = .many [.text k, .text v] := by
  rw [settle, TypeStyle.isText_eq_false hk, Bool.and_false]
  rfl

theorem combine_two {k v : String} (hk : k ≠ "Any") :
    combine (.text "map") (.many [.text k, .text v]) = pure (.text ("map" ++ "[" ++ k ++ "]" ++ v)) := by
  unfold combine
  rw [settle_two hk]
  rfl

def practice : V.typeRule.Practice where
  good t := '.' ∉ t.toList ∧ t ≠ "Any"
  pair := V.typeRule.two
  first := V.typeRule.one
  both := V.typeRule.two
  name_ok _ := naming.name_ok
  container_ok _ := naming.container_ok
  one_ok h c t hc ht := by
    obtain ⟨hmap, hdot, hhead⟩ := container_of_holder h c hc
    obtain ⟨hadjust, hgood⟩ := kept_append hhead hdot ht.1
    refine ⟨rfl, ?_, hgood⟩
    rw [show V.typeRule.style.combine (.text c) (.text t) = _ from combine_one hmap]
    exact congrArg (pure (f := Analysis)) hadjust
  pair_ok {c k v} hc hk hv := by
    obtain rfl : "map" = c := Option.some.inj hc
    have hparts : V.typeRule.two "map" k v = "map[" ++ (k ++ "]" ++ v) := by
      simp [V.typeRule, ← String.append_assoc]
    have hdot : '.' ∉ (k ++ "]" ++ v).toList := by
      simpa using ⟨hk.1, hv.1⟩
    obtain ⟨hadjust, hgood⟩ := kept_append (c := "map[") (by decide) (by decide) hdot
    refine ⟨settle_two hk.2, ?_, hparts ▸ hgood⟩
    rw [show V.typeRule.style.combine (.text "map") (.many [.text k, .text v]) = _ from combine_two hk.2]
    rw [← hparts] at hadjust
    exact congrArg (pure (f := Analysis)) hadjust
  first_ok h m c t _ hc _ := combine_one (container_of_holder h c hc).1
  both_ok {m c k v} _ hc hk _ := by
    obtain rfl : "map" = c := Option.some.inj hc
    exact combine_two hk.2

end V

namespace Smt

theorem typeName_of_not_mem (hbracket : '[' ∉ name.toList) (k : Nat) : typeName m (k + 1) name = TypeStyle.knownName m name := by
  have hunion : union? name = none := by
    have hstarts : Text.startsWith name "Union[" = false := by
      rw [Bool.eq_false_iff, Ne, Text.startsWith_iff]
      exact fun h => hbracket (h.subset (by decide))
    rw [union?, hstarts, Bool.false_and, if_neg Bool.false_ne_true]
  rw [typeName, Text.replaceAll_of_not_mem (c := '[') (by decide) hbracket, hunion]

theorem naming : typeRule.Naming fun t => ',' ∉ t.toList ∧ t ≠ "Any" where
  nameType_eq m name l hword _ := congrArg (fun t => pure (f := Analysis) (TypeTerm.text t))
    (typeName_of_not_mem (fun hmem => absurd (all_eq_true.1 hword _ hmem) (by decide)) _)
  unmapped := mapped_container rfl
  leaf_container _ _ _ := ⟨rfl, rfl⟩
  leaf_ok l t ht := by
    have hgood : ∀ t ∈ types.map Prod.snd, t ≠ "" ∧ ',' ∉ t.toList ∧ t ≠ "Any" := by decide
    obtain ⟨hne, hgood⟩ := hgood t ht
    exact ⟨hne, rfl, hgood⟩

theorem container_of_holder (h : Holder) : ∀ c ∈ typeRule.containers.lookup h.name,
    c ≠ "Array" ∧ c ≠ "var" ∧ ',' ∉ c.toList := by
  cases h <;> decide

theorem applied_one (hc : c ≠ "Array") : applied (.text c) (.text t) = pure (.text ("(_ " ++ c ++ " " ++ t ++ ")")) := by
  unfold applied
  rw [TypeStyle.isText_eq_false hc]
  rfl

/-- Whether two parameters are given as a list or with a comma between them, they are written side by side. -/
theorem applied_two {k v : String} (hk : ',' ∉ k.toList) (hv : ',' ∉ v.toList) :
    applied (.text "Array") (.many [.text k, .text v]) = pure (.text (typeRule.two "Array" k v)) ∧
      applied (.text "Array") (.text (k ++ ", " ++ v)) = pure (.text (typeRule.two "Array" k v)) := by
  have hlist : "(Array " ++ " ".intercalate [k, v] ++ ")" = typeRule.two "Array" k v := by
    simp [typeRule, ← String.append_assoc]
  have hkept {w : String} (hw : ',' ∉ w.toList) : w.toList.flatMap (fun x => if x = ',' then "".toList else [x]) = w.toList := by
    refine (flatMap_congr fun x hx => if_neg ?_).trans (flatMap_singleton' _)
    rintro rfl
    exact hw hx
  have hreplaced : Text.replaceAll (k ++ ", " ++ v) "," "" = k ++ " " ++ v := by
    refine String.toList_inj.1 ((Text.replaceAll_char (c := ',') rfl).trans ?_)
    rw [String.toList_append, String.toList_append, flatMap_append, flatMap_append, hkept hk, hkept hv]
    simp
  refine ⟨?_, ?_⟩
  · rw [← hlist]
    rfl
  · have happlied : applied (.text "Array") (.text (k ++ ", " ++ v)) =
        pure (.text ("(Array " ++ Text.replaceAll (k ++ ", " ++ v) "," "" ++ ")")) := rfl
    rw [happlied, hreplaced, ← hlist]
    simp

def practice : Smt.typeRule.Practice where
  good t := ',' ∉ t.toList ∧ t ≠ "Any"
  pair := Smt.typeRule.two
  first := Smt.typeRule.one
  both := Smt.typeRule.two
  name_ok _ := naming.name_ok
  container_ok _ := naming.container_ok
  one_ok h c t hc ht := by
    obtain ⟨harray, _, hcomma⟩ := container_of_holder h c hc
    refine ⟨rfl, ?_, ?_, ?_⟩
    · rw [show Smt.typeRule.style.combine (.text c) (.text t) = _ from applied_one harray]
      rfl
    · simpa [Smt.typeRule] using ⟨hcomma, ht.1⟩
    · exact fun h => by simpa [Smt.typeRule] using congrArg String.toList h
  pair_ok {c k v} hc hk hv := by
    obtain rfl : "Array" = c := Option.some.inj hc
    refine ⟨rfl, ?_, ?_, ?_⟩
    · rw [show Smt.typeRule.style.combine (.text "Array") (.many [.text k, .text v]) = _ from (applied_two hk.1 hv.1).1]
      rfl
    · simpa [Smt.typeRule] using ⟨hk.1, hv.1⟩
    · exact fun h => by simpa [Smt.typeRule] using congrArg String.toList h
  first_ok h m c t hm hc ht := by
    obtain ⟨harray, hvar, _⟩ := container_of_holder h c hc
    have hfallback : (TypeTerm.text c == m.fallback) = false := hm ▸ TypeStyle.isText_eq_false hvar
    exact (TypeStyle.commonContainer_text hfallback ht.2).trans (applied_one harray)
  both_ok {m c k v} hm hc hk hv := by
    obtain rfl : "Array" = c := Option.some.inj hc
    have hfallback : (TypeTerm.text "Array" == m.fallback) = false := hm ▸ rfl
    exact (TypeStyle.commonContainer_many hfallback hk.2 hv.2).trans (applied_two hk.1 hv.1).2

end Smt

namespace D

/-- A map as an annotation: what stands after the first comma, with what stands before it in brackets. -/
def swapped (s : String) : String :=
  match Text.split s "," with
  | a :: b :: _ => b ++ "[" ++ a ++ "]"
  | _ => s ++ "Map"

theorem naming : D.typeRule.Naming (· ≠ "Any") where
  nameType_eq _ _ _ _ _ := rfl
  unmapped := mapped_container rfl
  leaf_container _ _ _ := ⟨rfl, rfl⟩
  leaf_ok l t ht := by
    have hgood : ∀ t ∈ D.types.map Prod.snd, t ≠ "" ∧ t ≠ "Any" := by decide
    exact ⟨(hgood t ht).1, rfl, (hgood t ht).2⟩

theorem container_of_holder (h : Holder) : ∀ c ∈ D.typeRule.containers.lookup h.name,
    c ≠ "Map" ∧ ¬ c.toList <:+ "Any".toList := by
  cases h <;> decide

theorem ne_any (hc : ¬ c.toList <:+ "Any".toList) : t ++ c ≠ "Any" := by
  intro heq
  refine hc ?_
  rw [← heq, String.toList_append]
  exact suffix_append _ _

theorem combine_one (hc : c ≠ "Map") : combine (.text c) (.text t) = pure (.text (t ++ c)) := by
  unfold combine
  rw [TypeStyle.isText_eq_false hc]
  rfl

theorem combine_text (k v : String) :
    combine (.text "Map") (.text (k ++ ", " ++ v)) = pure (.text (swapped (k ++ ", " ++ v))) := by
  have hoccurs : Text.occursIn ", " (k ++ ", " ++ v) = true := by
    rw [Text.occursIn_iff, String.toList_append, String.toList_append]
    exact ⟨k.toList, v.toList, rfl⟩
  have hmap : (TypeTerm.text "Map").isText "Map" = true := by decide
  unfold combine swapped
  rw [hmap]
  simp only [hoccurs]
  generalize Text.split (k ++ ", " ++ v) "," = parts
  rcases parts with _ | ⟨a, _ | ⟨b, rest⟩⟩ <;> rfl

def practice : D.typeRule.Practice where
  good := (· ≠ "Any")
  pair c k v := TypeRule.listed k v ++ c
  first c t := if c = "auto" then "auto" else t ++ c
  both _ k v := swapped (k ++ ", " ++ v)
  name_ok _ := naming.name_ok
  container_ok _ := naming.container_ok
  one_ok h c t hc _ := by
    obtain ⟨hmap, hany⟩ := container_of_holder h c hc
    refine ⟨rfl, ?_, ne_any hany⟩
    rw [show D.typeRule.style.combine (.text c) (.text t) = _ from combine_one hmap]
    rfl
  pair_ok {c k v} hc _ _ := by
    obtain rfl : "Map" = c := Option.some.inj hc
    refine ⟨rfl, ?_, ne_any (by decide)⟩
    rw [← TypeRule.shown_many]
    rfl
  first_ok h m c t hm hc ht := by
    obtain ⟨hmap, -⟩ := container_of_holder h c hc
    by_cases hauto : c = "auto"
    · rw [if_pos hauto]
      subst hauto
      have hfallback : m.fallback = .text "auto" := hm
      exact (TypeStyle.commonContainer_fallback (by rw [hfallback]; decide)).trans (congrArg pure hfallback)
    · rw [if_neg hauto]
      have hfallback : (TypeTerm.text c == m.fallback) = false := hm ▸ TypeStyle.isText_eq_false hauto
      exact (TypeStyle.commonContainer_text hfallback ht).trans (combine_one hmap)
  both_ok {m c k v} hm hc hk hv := by
    obtain rfl : "Map" = c := Option.some.inj hc
    have hfallback : (TypeTerm.text "Map" == m.fallback) = false := hm ▸ rfl
    exact (TypeStyle.commonContainer_many hfallback hk hv).trans (combine_text k v)

/-! A type with maps inside has a quote in its text, and no comma stands before it. The rule gives no quotes. -/

def isQuote (c : Char) : Bool := c == '\'' || c == '"'

def Clean (s : String) : Prop := ∀ c ∈ s.toList, c ≠ ',' ∧ isQuote c = false

/-- A quote stands in a text before any comma. -/
def Early (s : String) : Prop := ∃ a q b, s.toList = a ++ q :: b ∧ ',' ∉ a ∧ isQuote q = true

instance (s : String) : Decidable (Clean s) := List.decidableBAll (fun c => c ≠ ',' ∧ isQuote c = false) s.toList

variable {s t : String} {h : Hint}

theorem clean_append : Clean (s ++ t) ↔ Clean s ∧ Clean t := by
  simp only [Clean, String.toList_append, mem_append]
  grind

theorem Early.append (hs : Early s) (t : String) : Early (s ++ t) := by
  obtain ⟨a, q, b, heq, ha, hq⟩ := hs
  refine ⟨a, q, b ++ t.toList, ?_, ha, hq⟩
  rw [String.toList_append, heq, append_assoc, cons_append]

theorem Clean.early (hs : Clean s) (ht : Early t) : Early (s ++ t) := by
  obtain ⟨a, q, b, heq, ha, hq⟩ := ht
  refine ⟨s.toList ++ a, q, b, ?_, ?_, hq⟩
  · rw [String.toList_append, heq, append_assoc]
  · rw [mem_append]
    exact fun hmem => hmem.elim (fun hmem => (hs _ hmem).1 rfl) ha

theorem Early.not_clean (hs : Early s) : ¬ Clean s := by
  obtain ⟨a, q, b, heq, ha, hq⟩ := hs
  intro hclean
  have hnot := (hclean q (heq ▸ mem_append_right a mem_cons_self)).2
  exact absurd (hq.symm.trans hnot) (by decide)

theorem early_quoted (s : String) : Early (Text.quoted s) := by
  have hquote (a b : Bool) : isQuote (Text.quoteFor a b) = true := by decide +revert
  refine (Early.append ?_ _).append _
  exact ⟨[], _, [], by simp, not_mem_nil, hquote (s.contains '\'') (s.contains '"')⟩

theorem early_inner (hmap : h.mapless = false) : Early (practice.inner h) := by
  induction h with
  | scalar => cases hmap
  | one c t ih => exact (ih hmap).append _
  | map k v =>
    have hopen : Clean "[" := by decide
    have hlisted : Early (listed (practice.inner k) (practice.inner v)) :=
      (hopen.early (((early_quoted _).append _).append _)).append _
    exact hlisted.append _

theorem clean_composed (hknown : h.knownTo D.typeRule = true) : Clean (h.composed D.typeRule) ∧ h.composed D.typeRule ≠ "" := by
  have hnonempty {s t : String} (ht : t ≠ "") : s ++ t ≠ "" := by
    intro heq
    exact ht (String.append_eq_empty_iff.1 heq).2
  induction h with
  | scalar name l =>
    rw [knownTo, Bool.and_eq_true] at hknown
    obtain ⟨t, ht⟩ := isSome_iff_exists.1 hknown.2
    have hclean : ∀ t ∈ D.types.map Prod.snd, Clean t ∧ t ≠ "" := by decide
    rw [composed, ht, getD_some]
    exact hclean t (mem_types_of_mapped ht)
  | one c t ih =>
    have hclean : Clean (D.typeRule.container c.name) ∧ D.typeRule.container c.name ≠ "" := by
      cases c <;> decide
    exact ⟨clean_append.2 ⟨(ih (knownTo_one hknown).2).1, hclean.1⟩, hnonempty hclean.2⟩
  | map k v ihk ihv =>
    obtain ⟨_, hk, hv⟩ := knownTo_map hknown
    refine ⟨?_, hnonempty (by decide)⟩
    simp only [composed, D.typeRule, clean_append]
    exact ⟨⟨⟨⟨by decide, (ihv hv).1⟩, by decide⟩, (ihk hk).1⟩, by decide⟩

theorem split_comma (s : String) : Text.split s "," = (Text.pieces [','] 0 [] s.toList).map String.ofList := Text.split_char rfl

/-- A quote that no comma comes before is in the first part. -/
theorem Early.split (hs : Early s) : ∃ a rest, Text.split s "," = a :: rest ∧ ¬ Clean a := by
  obtain ⟨a, q, b, heq, ha, hq⟩ := hs
  have hne : q ≠ ',' := by
    rintro rfl
    cases hq
  have hhead : (Text.pieces [','] 0 [] s.toList).head? = some (s.toList.takeWhile (· != ',')) := Text.head?_pieces
  obtain ⟨rest, hpieces⟩ := head?_eq_some_iff.1 hhead
  refine ⟨_, _, by rw [split_comma, hpieces, map_cons], fun hclean => ?_⟩
  have hkept (c : Char) (hc : c ∈ a) : (c != ',') = true := bne_iff_ne.2 fun heq => ha (heq ▸ hc)
  refine absurd (hclean q ?_).2 (by rw [hq]; decide)
  rw [String.toList_ofList, heq, takeWhile_append_of_pos hkept]
  simp [hne]

theorem split_clean (hs : Clean s) (t : String) : Text.split (s ++ ", " ++ t) "," = s :: Text.split (" " ++ t) "," := by
  have hcomma : (s ++ ", " ++ t).toList = s.toList ++ ',' :: (" " ++ t).toList := by simp
  rw [split_comma, split_comma, hcomma, Text.pieces_append fun hmem => (hs _ hmem).1 rfl]
  simp

theorem swapped_of_clean (hs : Clean s) (ht : Clean t) : swapped (s ++ ", " ++ t) = " " ++ t ++ "[" ++ s ++ "]" := by
  have hblank : Clean " " := by decide
  have hlast : Text.split (" " ++ t) "," = [" " ++ t] :=
    Text.split_of_not_mem (c := ',') (by decide) fun hmem => (clean_append.2 ⟨hblank, ht⟩ _ hmem).1 rfl
  rw [swapped, split_clean hs, hlast]

/-- A quote in one of the two parameters stays, if no comma comes before it. -/
theorem not_clean_swapped (h : Early s ∨ Clean s ∧ Early t) : ¬ Clean (swapped (s ++ ", " ++ t)) := by
  unfold swapped
  rcases h with hs | ⟨hs, ht⟩
  · obtain ⟨a, rest, hsplit, hnot⟩ := ((hs.append ", ").append t).split
    rw [hsplit]
    rcases rest with _ | ⟨b, rest⟩
    · simp only [clean_append]
      exact fun h => hs.not_clean h.1.1.1
    · simp only [clean_append]
      exact fun h => hnot h.1.2
  · have hblank : Clean " " := by decide
    obtain ⟨a, rest, hsplit, hnot⟩ := (hblank.early ht).split
    rw [split_clean hs, hsplit]
    simp only [clean_append]
    exact fun h => hnot h.1.1.1

theorem written_eq_composed_iff (hknown : h.knownTo D.typeRule = true) :
    practice.written h = h.composed D.typeRule ↔ (h.maplessInside && !h.isSet) = true := by
  have hmapless {t : Hint} (ht : t.knownTo D.typeRule = true) (heq : practice.inner t = t.composed D.typeRule) :
      t.mapless = true := by
    by_contra hmap
    exact (early_inner (Bool.not_eq_true _ ▸ hmap)).not_clean (heq ▸ (clean_composed ht).1)
  cases h with
  | scalar name l => exact ⟨fun _ => rfl, fun _ => rfl⟩
  | one c t =>
    obtain ⟨_, ht⟩ := knownTo_one hknown
    have hother {name : String} : practice.inner t ++ name = t.composed D.typeRule ++ name ↔ t.mapless = true := by
      rw [String.append_left_inj]
      exact ⟨hmapless ht, practice.inner_of_mapless⟩
    cases c with
    | list | optional =>
      change _ ↔ (t.mapless && true) = true
      rw [Bool.and_true]
      exact hother
    | set =>
      rw [isSet, Bool.not_true, Bool.and_false]
      refine iff_of_false (fun heq => (clean_composed ht).2 ?_) Bool.false_ne_true
      have hauto : "" ++ "auto" = t.composed D.typeRule ++ "auto" := heq
      exact (String.append_left_inj _).1 hauto.symm
  | map k v =>
    obtain ⟨_, hk, hv⟩ := knownTo_map hknown
    have hclean := (clean_composed hknown).1
    change _ ↔ (k.mapless && v.mapless && true) = true
    rw [Bool.and_true, Bool.and_eq_true]
    refine ⟨fun heq => ?_, fun hmaps => ?_⟩
    · rw [← heq] at hclean
      have hmapk : k.mapless = true := by
        by_contra hmap
        exact not_clean_swapped (.inl (early_inner (Bool.not_eq_true _ ▸ hmap))) hclean
      refine ⟨hmapk, ?_⟩
      by_contra hmap
      refine not_clean_swapped (.inr ⟨?_, early_inner (Bool.not_eq_true _ ▸ hmap)⟩) hclean
      rw [practice.inner_of_mapless hmapk]
      exact (clean_composed hk).1
    · rw [TypeRule.Practice.written, practice.inner_of_mapless hmaps.1, practice.inner_of_mapless hmaps.2]
      exact swapped_of_clean (clean_composed hk).1 (clean_composed hv).1

end D

namespace Language

variable {L : Language} {x : TypeRule}

theorem exists_practice (hx : L.typeRule = some x) :
    ∃ p : x.Practice, ∀ h : Hint, h.knownTo x = true → (p.written h = h.composed x ↔ L.composes h = true) := by
  cases L with
  | python => cases hx
  | cpp | rust | julia | kotlin | nim | mojo | dart | zig =>
    have hb := bracketed hx rfl
    exact ⟨hb.practice, fun h _ => hb.written_eq_composed_iff h⟩
  | go =>
    have hb := bracketed hx rfl
    refine ⟨hb.practice, fun h hknown => (hb.written_eq_composed_iff h).trans (iff_of_true ?_ rfl)⟩
    cases hx
    have hmap := mapless_of_knownTo rfl hknown
    cases h with
    | scalar => rfl
    | one c t => exact hmap
    | map => cases hmap
  | d =>
    cases hx
    exact ⟨D.practice, fun h hknown => D.written_eq_composed_iff hknown⟩
  | v =>
    cases hx
    exact ⟨V.practice, fun h _ => iff_of_true (V.practice.written_eq_composed rfl rfl rfl h) rfl⟩
  | smt =>
    cases hx
    exact ⟨practice, fun h _ => iff_of_true (practice.written_eq_composed rfl rfl rfl h) rfl⟩

/-- For each target that writes types and each type that is put together from containers and classes it knows, an annotation
is written, and its text is what the rule of the target gives at every depth if and only if the target composes it. -/
theorem typeText_composed_iff {s : Session} {n type : Node} {h : Hint} {k : Nat} (hx : L.typeRule = some x)
    (hs : x.Installed s) (hat : h.At s type) (hknown : h.knownTo x = true) (hheld : Holds k s type) (hk : k ≤ nestingLimit) :
    ∃ t s', x.style.ofMention n (some (some type)) s = .ok (.text t) s' ∧ (t = h.composed x ↔ L.composes h = true) := by
  obtain ⟨p, hp⟩ := exists_practice hx
  obtain ⟨s', hrun⟩ := p.ofMention_ok (n := n) hat hknown hs hheld hk
  exact ⟨p.written h, s', hrun, hp h hknown⟩

def listOfMaps : Node :=
  ⟨7, none, none, .subscript ⟨1, none, none, .name "List" .load⟩ ⟨6, none, none, .subscript
    ⟨2, none, none, .name "Dict" .load⟩
    ⟨5, none, none, .tuple [⟨3, none, none, .name "str" .load⟩, ⟨4, none, none, .name "int" .load⟩] .load⟩ .load⟩ .load⟩

def angledRule : TypeRule := .bracketed Cpp.style Cpp.types Cpp.containers "<" ">"

def angledSession : Session := { maps := ⟨Cpp.types, Cpp.containers, .absent⟩, next := 8 }

theorem listOfMaps_at (nodes : Std.TreeMap NodeId Node) :
    (one .list (.map (.scalar "str" .unknown) (.scalar "int" .unknown))).At { angledSession with nodes } listOfMaps :=
  .one rfl rfl (.map rfl rfl rfl (.scalar rfl) (.scalar rfl))

theorem listOfMaps_not_composed : ∃ t s s', recordAll nestingLimit listOfMaps angledSession = .ok () s ∧
    angledRule.style.ofMention listOfMaps (some (some listOfMaps)) s = .ok (.text t) s' ∧
    t ≠ "std::vector<std::map<std::string, int>>" := by
  have hlimit : 5 ≤ nestingLimit := le_nestingLimit (by decide)
  obtain ⟨nodes, hrecord, hheld, _⟩ := recordAll_ok (n := listOfMaps) (k := 5) (by decide) (by decide) hlimit angledSession
  obtain ⟨t, s', hrun, hcomposed⟩ := typeText_composed_iff (L := .cpp) (x := angledRule) (n := listOfMaps) rfl ⟨rfl, rfl⟩
    (listOfMaps_at nodes) (by decide +kernel) hheld hlimit
  refine ⟨t, _, s', hrecord, hrun, fun heq => ?_⟩
  have hrule : Hint.composed angledRule (.one .list (.map (.scalar "str" .unknown) (.scalar "int" .unknown))) =
      "std::vector<std::map<std::string, int>>" := by decide +kernel
  exact absurd (hcomposed.1 (heq.trans hrule.symm)) (by decide)

/-- Inside of a list, the parameters of a map are written as a list. -/
theorem inner_map_listed : ∃ s s', recordAll nestingLimit listOfMaps angledSession = .ok () s ∧
    angledRule.style.ofMention listOfMaps (some (some listOfMaps)) s =
      .ok (.text "std::vector<std::map<['std::string', 'int']>>") s' := by
  have hlimit : 5 ≤ nestingLimit := le_nestingLimit (by decide)
  obtain ⟨nodes, hrecord, hheld, _⟩ := recordAll_ok (n := listOfMaps) (k := 5) (by decide) (by decide) hlimit angledSession
  have hb : angledRule.Bracketed "<" ">" := bracketed (L := .cpp) rfl rfl
  obtain ⟨s', hrun⟩ := hb.practice.ofMention_ok (n := listOfMaps) (listOfMaps_at nodes) (by decide +kernel) ⟨rfl, rfl⟩ hheld hlimit
  have hinner {x t : String} (h : angledRule.mapped x = some t) : hb.practice.inner (.scalar x .unknown) = t := by
    rw [TypeRule.Practice.inner, h]
    rfl
  have hwritten : hb.practice.written (.one .list (.map (.scalar "str" .unknown) (.scalar "int" .unknown))) =
      "std::vector<" ++ ("std::map<" ++ TypeRule.listed "std::string" "int" ++ ">") ++ ">" := by
    rw [TypeRule.Practice.written, TypeRule.Practice.inner, hinner (x := "str") (t := "std::string") (by decide +kernel),
      hinner (x := "int") (t := "int") (by decide +kernel)]
    rfl
  have htext : "std::vector<" ++ ("std::map<" ++ TypeRule.listed "std::string" "int" ++ ">") ++ ">" =
      "std::vector<std::map<['std::string', 'int']>>" := by cbv
  exact ⟨_, s', hrecord, hwritten.trans htext ▸ hrun⟩

end Language

end Polyglot
