import Polyglot.Proofs.Deeds
import Polyglot.Proofs.Isolation

/-!
# Formatted texts

A formatted text becomes the join of its characters and of its values, each as `str` writes it. What a field says about how
its value is written is lost.
-/
namespace Polyglot.Texts

open Session Effect List

structure Wording (V : Type) where
  text : String → V
  str : V → String
  repr : V → String
  ascii : V → String
  format : V → String → String
  str_text : ∀ x, str (text x) = x

namespace Wording

variable {V : Type} (w : Wording V) (val : NodeId → V)

def convert : Option Char → V → V
  | some 'r', v => w.text (w.repr v)
  | some 's', v => w.text (w.str v)
  | some 'a', v => w.text (w.ascii v)
  | _, v => v

def written : Shape NodeId → String
  | .constant (.str x) _ => x
  | .formatted value conversion spec =>
    w.format (w.convert conversion (val value)) (spec.elim "" fun p => w.str (val p))
  | _ => ""

def plain : Shape NodeId → String
  | .formatted value _ _ => w.str (val value)
  | part => w.written val part

/-- The nodes of a session have values: texts and their parts, calls of `str`, and joins without a separator. -/
structure Reads (s : Session) : Prop where
  constant {id x kind} : s.Has id (.constant (.str x) kind) → val id = w.text x
  formatted {id value conversion spec} : s.Has id (.formatted value conversion spec) →
    val id = w.text (w.written val (.formatted value conversion spec))
  joinedStr {id parts} : s.Has id (.joinedStr parts) → val id = w.text (String.join (parts.map fun p => w.str (val p)))
  str {id f a u} : s.Has f (.name "str" u) → s.Has id (.call f [a] []) → val id = w.text (w.str (val a))
  join {id f e l es kind u u'} : s.Has e (.constant (.str "") kind) → s.Has f (.attribute e "join" u) → s.Has l (.list es u') →
    s.Has id (.call f [l] []) → val id = w.text (String.join (es.map fun e => w.str (val e)))

end Wording

variable {s t u : Session} {n : Node} {values elts out : List Node} {lang : Language} {self : Node → Analysis (List Node)}
  {V : Type} {w : Wording V} {val : NodeId → V} {x : NodeId} {v e : Node}

def isPart (v : Node) : Bool := v.shape matches .constant (.str _) _ | .formatted ..

/-- A part that says nothing but what `str` does anyway. -/
def isPlain (v : Node) : Bool := v.shape matches .constant .. | .formatted _ none none | .formatted _ (some 's') none

theorem Wording.Reads.str_part (hval : w.Reads val s) (hv : isPart v) (h : s.Has v.id (v.shape.map Node.id)) :
    w.str (val v.id) = w.written val (v.shape.map Node.id) := by
  unfold isPart at hv
  split at hv
  · rename_i hshape
    rw [hshape] at h ⊢
    rw [hval.constant h, w.str_text]
    rfl
  · rename_i hshape
    rw [hshape] at h ⊢
    rw [hval.formatted h, w.str_text]
    rfl
  · cases hv

/-! ### The elements of the join -/

/-- The element of a join for a part; what is new for it has an identity from `x` on. -/
def Element (s : Session) (x : NodeId) (v e : Node) : Prop :=
  (e = v ∧ ∃ text kind, v.shape = .constant (.str text) kind) ∨
    ∃ value conversion spec f, v.shape = .formatted value conversion spec ∧ x ≤ f ∧ x ≤ e.id ∧ s.Has f (.name "str" .word) ∧
      s.Has e.id (.call f [value.id] [])

theorem Element.kept {l : List NodeId} (h : Element s x v e) (hl : ∀ i ∈ l, i < x) (hs : Grows l s t) : Element t x v e := by
  refine h.imp_right ?_
  rintro ⟨value, conversion, spec, f, hv, hf, he, hstr, hcall⟩
  have hnew {id : NodeId} (hid : x ≤ id) : id ∉ l := fun hmem => Nat.not_lt.2 hid (hl id hmem)
  exact ⟨value, conversion, spec, f, hv, hf, he, hs.has f _ (hnew hf) hstr, hs.has e.id _ (hnew he) hcall⟩

theorem Element.str_val (h : Element s x v e) (hval : w.Reads val s) (hv : s.Has v.id (v.shape.map Node.id)) :
    w.str (val e.id) = w.plain val (v.shape.map Node.id) := by
  rcases h with ⟨rfl, text, kind, hshape⟩ | ⟨value, conversion, spec, f, hshape, -, -, hstr, hcall⟩
  · rw [hshape] at hv ⊢
    rw [hval.constant hv, w.str_text]
    rfl
  · rw [hshape, hval.str hstr hcall, w.str_text]
    rfl

theorem element_made (hv : isPart v) (s : Session) (o : Option Node) (t : Session) (hx : x ≤ s.next)
    (h : (match v.shape with
      | .constant .. => return some v
      | .formatted value _ _ => do
        let str ← fresh (.name "str" .word)
        some <$> fresh (.call str [value] [])
      | _ => return none : Analysis (Option Node)) s = .ok o t) : ∃ e, o = some e ∧ Grows [] s t ∧ Element t x v e := by
  unfold isPart at hv
  split at hv
  · rename_i hshape
    rw [hshape] at h
    cases h
    exact ⟨v, rfl, .refl _, .inl ⟨rfl, _, _, hshape⟩⟩
  · rename_i hshape
    rw [hshape] at h
    obtain ⟨f, s1, hf, h⟩ := bind_eq_ok.1 h
    rw [map_eq_pure_bind] at h
    obtain ⟨e, s2, he, ⟨⟩⟩ := bind_eq_ok.1 h
    obtain ⟨hgrows, hle, hf⟩ := adds_fresh _ _ _ _ hf
    obtain ⟨hgrows', hle', he⟩ := adds_fresh _ _ _ _ he
    refine ⟨e, rfl, hgrows.trans hgrows', .inr ⟨_, _, _, f.id, hshape, hx.trans hle, ?_, hf.kept hgrows', he⟩⟩
    exact hx.trans (hgrows.next_le.trans hle')
  · cases hv

theorem filterMapM_elements {f : Node → Analysis (Option Node)} (hf : ∀ v ∈ values, ∀ s o t, x ≤ s.next → f v s = .ok o t →
    ∃ e, o = some e ∧ Grows [] s t ∧ Element t x v e) (hx : x ≤ s.next) (h : values.filterMapM f s = .ok elts t) :
    Grows [] s t ∧ Forall₂ (Element t x) values elts := by
  induction values generalizing s elts with
  | nil =>
    cases h
    exact ⟨.refl _, .nil⟩
  | cons v values ih =>
    rw [filterMapM_cons] at h
    obtain ⟨o, s1, hv, h⟩ := bind_eq_ok.1 h
    obtain ⟨e, rfl, hgrows, he⟩ := hf v mem_cons_self s o s1 hx hv
    obtain ⟨es, s2, hes, ⟨⟩⟩ := bind_eq_ok.1 h
    obtain ⟨hgrows', hrest⟩ := ih (fun v hv => hf v (mem_cons_of_mem _ hv)) (hx.trans hgrows.next_le) hes
    exact ⟨hgrows.trans hgrows', .cons (he.kept (by simp) hgrows') hrest⟩

theorem read_emptyJoin : (match Grammar.read 0 "\"\".join([])" with
    | .ok (⟨_, _, _, .module [⟨_, _, _, .exprStmt ⟨_, _, _, .call ⟨_, _, _, .attribute ⟨_, _, _, .constant (.str "") _⟩ "join" _⟩
        [⟨_, _, _, .list [] _⟩] []⟩⟩]⟩, _) => true
    | _ => false) = true := by
  decide +kernel

theorem readFirst_join (h : readFirst "\"\".join([])" s = .ok n t) : ∃ f e l kind u u', n.shape = .call f [l] [] ∧
    Grows [] s t ∧ s.next ≤ l.id ∧ t.Has e (.constant (.str "") kind) ∧ t.Has f.id (.attribute e "join" u) ∧
    t.Has l.id (.list [] u') ∧ t.Has n.id (.call f.id [l.id] []) := by
  have hread := read_emptyJoin
  split at hread
  · rename_i i0 l0 c0 i1 l1 c1 i2 l2 c2 i3 l3 c3 i4 l4 c4 kind u i5 l5 c5 u' next hok
    unfold readFirst at h
    rw [hok] at h
    dsimp only at h
    obtain ⟨k, hk⟩ : ∃ k, nestingLimit = k + 3 := ⟨997, nestingLimit_eq⟩
    rw [hk] at h
    obtain ⟨_, s3, hcall, h⟩ := bind_eq_ok.1 h
    obtain ⟨f, s2, hf, hcall⟩ := bind_eq_ok.1 hcall
    obtain ⟨_, s1, hattribute, hf⟩ := bind_eq_ok.1 hf
    obtain ⟨e, _, he, ⟨⟩⟩ := bind_eq_ok.1 hattribute
    obtain ⟨_, _, ⟨⟩, he⟩ := bind_eq_ok.1 he
    obtain ⟨ls, _, hls, ⟨⟩⟩ := bind_eq_ok.1 hcall
    obtain ⟨l, _, hl, ⟨⟩⟩ := bind_eq_ok.1 hls
    obtain ⟨_, _, ⟨⟩, hl⟩ := bind_eq_ok.1 hl
    obtain ⟨hgrows1, -, he⟩ := adds_freshAt _ _ _ _ _ _ he
    obtain ⟨hgrows2, -, hf⟩ := adds_freshAt _ _ _ _ _ _ hf
    obtain ⟨hgrows3, hle, hl⟩ := adds_freshAt _ _ _ _ _ _ hl
    obtain ⟨hgrows4, -, hn⟩ := adds_freshAt _ _ _ _ _ _ h
    have hgrows34 := hgrows3.trans hgrows4
    cases h
    exact ⟨f, e.id, l, kind, u, u', rfl, hgrows1.trans (hgrows2.trans hgrows34),
      (hgrows1.trans hgrows2).next_le.trans hle, he.kept (hgrows2.trans hgrows34), hf.kept hgrows34, hl.kept hgrows4, hn⟩
  · cases hread

/-- The call of a formatted text: the join of its parts, each as `str` writes it. -/
theorem joinParts_added (hlang : lang ∉ [Language.mojo, .python, .v]) (hs : s.Keyed) (hn : n.shape = .joinedStr values)
    (hparts : ∀ v ∈ values, isPart v) (h : joinParts lang self n s = .ok out t) :
    ∃ b f e l elts kind u u' x, out = [b] ∧ Grows [] s t ∧ t.Has e (.constant (.str "") kind) ∧
      t.Has f (.attribute e "join" u) ∧ t.Has l (.list (elts.map Node.id) u') ∧ t.Has b.id (.call f [l] []) ∧
      Forall₂ (Element t x) values elts := by
  unfold joinParts at h
  rw [hn] at h
  dsimp only at h
  rw [if_neg (by simpa using hlang)] at h
  obtain ⟨line, s1, hline, h⟩ := bind_eq_ok.1 h
  obtain ⟨col, s2, hcol, h⟩ := bind_eq_ok.1 h
  obtain ⟨join, s3, hjoin, h⟩ := bind_eq_ok.1 h
  obtain ⟨f, e, l, kind, u, u', hshape, hgrows3, hle, he, hf, hl, hcall⟩ := readFirst_join hjoin
  rw [hshape] at h
  obtain ⟨elts, s4, helts, h⟩ := bind_eq_ok.1 h
  have hgrows := (calm_lineOf n _ _ _ hline hs).grows
  have hgrows := hgrows.trans (calm_colOf n _ _ _ hcol (hgrows.keyed hs)).grows
  obtain ⟨hgrows4, helements⟩ := filterMapM_elements (fun v hv => element_made (hparts v hv)) le_rfl helts
  obtain ⟨list, s5, hedit, h⟩ := bind_eq_ok.1 h
  obtain ⟨_, s6, hrecord, h⟩ := bind_eq_ok.1 h
  obtain ⟨b, s7, hplace, ⟨⟩⟩ := bind_eq_ok.1 h
  obtain ⟨hgrows5, hlist⟩ := grows_edit (hl.kept hgrows4).lt_next hedit
  have hid : list.id = l.id := by cases hedit; rfl
  have hkept {i : NodeId} {shape : Shape NodeId} (hi : s3.Has i shape) (hne : shape ≠ .list [] u') : s5.Has i shape := by
    refine hgrows5.has i shape (fun hmem => hne ?_) (hi.kept hgrows4)
    obtain rfl := mem_singleton.1 hmem
    exact hi.unique hl
  have hjoin := hkept hcall (by simp)
  have hgrows6 : Grows [] s5 s6 := by
    cases hrecord
    refine (Grows.refl s5).rewrite (n := join) rfl ?_
    rw [hjoin.now]
    exact congrArg (fun i => Shape.call f.id [i] []) hid
  obtain ⟨hgrows7, hb⟩ := placeFrom_grows (hgrows6.keyed (hgrows5.keyed (hgrows4.keyed (hgrows3.keyed (hgrows.keyed hs))))) hplace
  have hgrows7 := hgrows6.trans hgrows7
  have hall := Grows.of_new ((hgrows.trans hgrows3).trans hgrows4) (hgrows5.trans hgrows7.mono)
    (by simpa using hgrows.next_le.trans hle)
  refine ⟨b, f.id, e, l.id, elts, kind, u, .load, s3.next, rfl, hall, (hkept he (by simp)).kept hgrows7,
    (hkept hf (by simp)).kept hgrows7, hlist.kept hgrows7, hb ▸ hjoin.kept hgrows7, helements.imp fun v e h => ?_⟩
  exact h.kept (by simpa using hl.lt_next) (hgrows5.trans hgrows7.mono)

/-! ### The text of the join -/

theorem plain_eq_written (hformat : ∀ v, w.format v "" = w.str v) (hv : isPlain v) :
    w.plain val (v.shape.map Node.id) = w.written val (v.shape.map Node.id) := by
  unfold isPlain at hv
  split at hv
  · rename_i hshape
    rw [hshape]
    rfl
  · rename_i hshape
    rw [hshape]
    exact (hformat _).symm
  · rename_i hshape
    rw [hshape]
    exact (w.str_text _).symm.trans (hformat _).symm
  · cases hv

def quotedField : Node :=
  ⟨4, some 1, some 0, .joinedStr [⟨1, some 1, some 2, .constant (.str "a") false⟩,
    ⟨3, some 1, some 3, .formatted ⟨2, some 1, some 4, .name "x" .load⟩ (some 'r') none⟩]⟩

end Polyglot.Texts
