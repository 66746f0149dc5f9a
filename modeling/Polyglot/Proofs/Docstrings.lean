import Mathlib.Data.List.Flatten
import Polyglot.Proofs.Exact
import Polyglot.Lowering.Texts

/-!
# Documenting strings

A text at the head of the body of a module, a class or a function documents it. The lowering of such texts drops the
statement, notes the text as a comment of what it documents, and leaves the rest of the tree as it is.
-/
namespace Polyglot

open Session Effect List Lowering Texts

variable {n : Node} {s : Session} {k j : Nat} {cs body : List Node} {self : Rewrite}

def docOf : List Node → Option String
  | ⟨_, _, _, .exprStmt ⟨_, _, _, .constant (.str text) _⟩⟩ :: _ => some text
  | _ => none

def undoc (body : List Node) : List Node := if (docOf body).isSome then body.tail else body

namespace Shape

def doc? : Shape Node → Option String
  | .functionDef f => docOf f.body
  | .classDef c => docOf c.body
  | .module body => docOf body
  | _ => none

def undoc : Shape Node → Shape Node
  | .functionDef f => .functionDef { f with body := Polyglot.undoc f.body }
  | .classDef c => .classDef { c with body := Polyglot.undoc c.body }
  | .module body => .module (Polyglot.undoc body)
  | shape => shape

end Shape

namespace Node

/-- A tree without the statements that document its modules, classes and functions, -/
def undoc : Nat → Node → Node
  | 0, n => n
  | k + 1, n => n.withShape (n.shape.undoc.map (undoc k))

/-- and the texts of these, each with the identity of what it documents. -/
def docs : Nat → Node → List (NodeId × String)
  | 0, _ => []
  | k + 1, n => (n.shape.doc?.map (n.id, ·)).toList ++ n.shape.undoc.children.flatMap (docs k)

theorem undoc_sublist (n : Node) : n.shape.undoc.children.Sublist n.children := by
  have htail (body : List Node) : (Polyglot.undoc body).Sublist body := by
    unfold Polyglot.undoc
    split
    · exact tail_sublist body
    · exact .refl body
  obtain ⟨_, _, _, shape⟩ := n
  cases shape with
  | functionDef f => exact (((htail f.body).append_right _).append_right _).cons_cons _
  | classDef c => exact ((htail c.body).append_left _).append_right _
  | module body => exact htail body
  | _ => exact .refl _

theorem children_undoc (k : Nat) (n : Node) : (n.undoc (k + 1)).children = n.shape.undoc.children.map (undoc k) :=
  Shape.children_map _ _

theorem ids_undoc (k : Nat) (n : Node) : (n.undoc k).ids k ⊆ n.ids k := by
  induction k generalizing n with
  | zero => exact nil_subset _
  | succ k ih =>
    rw [ids, children_undoc, flatMap_map]
    refine cons_subset_cons _ fun id hid => ?_
    obtain ⟨c, hc, hid⟩ := mem_flatMap.1 hid
    exact mem_flatMap.2 ⟨c, n.undoc_sublist.subset hc, ih c hid⟩

end Node

open Node

/-- What is known of an identity once some texts are noted. -/
def Facts.commented (f : Facts) (id : NodeId) (docs : List (NodeId × String)) : Facts :=
  docs.foldl (fun f d => if d.1 = id then { f with docstring := some d.2 } else f) f

theorem Facts.commented_append (f : Facts) (id : NodeId) (ds es : List (NodeId × String)) :
    f.commented id (ds ++ es) = (f.commented id ds).commented id es := foldl_append ..

theorem docstring?_ok (h : ∀ b ∈ body, Exact k s b) : docstring? body s = .ok (docOf body) s := by
  cases body with
  | nil => rfl
  | cons b _ =>
    have hb := h b mem_cons_self
    refine (bind_ok (current_of_getElem? hb.getElem?)).trans ?_
    obtain ⟨_, _, _, shape⟩ := b
    cases shape with
    | exprStmt v =>
      refine (bind_ok (current_of_getElem? (hb.within (.part mem_cons_self .self)))).trans ?_
      obtain ⟨_, _, _, shape⟩ := v
      cases shape with
      | constant c _ => cases c <;> rfl
      | _ => rfl
    | _ => rfl

/-- The documentation of a node is noted, and the lowering goes through what remains. -/
theorem documented_eq (rebuild : List Node → Shape Node) (hbody : ∀ b ∈ body, Exact k s b) (hshape : n.shape = rebuild body) :
    ∃ s', documented self n body rebuild s = through self (n.withShape (rebuild (undoc body))) s' ∧ s'.nodes = s.nodes ∧
      ∀ id, s'.known id = (s.known id).commented id ((docOf body).map (n.id, ·)).toList := by
  unfold documented undoc
  rw [bind_ok (docstring?_ok hbody)]
  cases docOf body with
  | none => exact ⟨s, by rw [if_neg nofun, ← hshape, withShape_shape], rfl, fun _ => rfl⟩
  | some text =>
    refine ⟨_, rfl, rfl, fun id => (known_note s n.id id _).trans ?_⟩
    change _ = if n.id = id then _ else _
    split
    · subst id
      rfl
    · rfl

theorem commentDocstrings_eq (self : Rewrite) (h : Exact (k + 1) s n) :
    ∃ s', commentDocstrings self n s = through self (n.withShape n.shape.undoc) s' ∧ s'.nodes = s.nodes ∧
      ∀ id, s'.known id = (s.known id).commented id (n.shape.doc?.map (n.id, ·)).toList := by
  obtain ⟨_, _, _, shape⟩ := n
  cases shape with
  | functionDef f =>
    exact documented_eq (fun body => .functionDef { f with body })
      (fun b hb => h.2 b (by simp [children, Shape.children, hb])) rfl
  | classDef c =>
    exact documented_eq (fun body => .classDef { c with body })
      (fun b hb => h.2 b (by simp [children, Shape.children, hb])) rfl
  | module body => exact documented_eq .module h.2 rfl
  | _ => exact ⟨s, rfl, rfl, fun _ => rfl⟩

/-- Trees that are gone through one after the other do not disturb each other. -/
theorem extract_parts (hself : ∀ c ∈ cs, ∀ s, Exact k s c → ∃ s', self c s = .ok [c.undoc k] s' ∧ Exact k s' (c.undoc k) ∧
      (∀ id ∉ c.ids k, s'.nodes[id]? = s.nodes[id]?) ∧ ∀ id, s'.known id = (s.known id).commented id (c.docs k))
    (h : ∀ c ∈ cs, Exact k s c) (hnodup : (cs.flatMap (ids k)).Nodup) :
    ∃ s', cs.mapM (one self) s = .ok (cs.map (Node.undoc k)) s' ∧ (∀ c ∈ cs, Exact k s' (c.undoc k)) ∧
      (∀ id ∉ cs.flatMap (ids k), s'.nodes[id]? = s.nodes[id]?) ∧
      ∀ id, s'.known id = (s.known id).commented id (cs.flatMap (docs k)) := by
  induction cs generalizing s with
  | nil => exact ⟨s, rfl, nofun, fun _ _ => rfl, fun _ => rfl⟩
  | cons c cs ih =>
    obtain ⟨hc, hcs⟩ := forall_mem_cons.1 h
    obtain ⟨-, hnodup, hdisjoint⟩ := nodup_append.1 hnodup
    obtain ⟨u, hrun, hexact, hu, hknown⟩ := hself c mem_cons_self s hc
    obtain ⟨s', hrest, hparts, hs', hknown'⟩ := ih (fun d hd => hself d (mem_cons_of_mem _ hd)) (fun d hd =>
      (hcs d hd).congr fun id hid => hu id fun hid' => hdisjoint id hid' id (mem_flatMap.2 ⟨d, hd, hid⟩) rfl) hnodup
    have hone : one self c s = .ok (c.undoc k) u :=
      (bind_ok (current_of_getElem? hc.getElem?)).trans ((bind_ok hrun).trans rfl)
    refine ⟨s', mapM_cons_eq_ok.2 ⟨u, hone, hrest⟩, forall_mem_cons.2 ⟨?_, hparts⟩, fun id hid => ?_, fun id => ?_⟩
    · exact hexact.congr fun id hid => hs' id fun hid' => hdisjoint id (ids_undoc k c hid) id hid' rfl
    · rw [flatMap_cons, mem_append, not_or] at hid
      exact (hs' id hid.2).trans (hu id hid.1)
    · rw [flatMap_cons, hknown', hknown, Facts.commented_append]

theorem extract_tree (stop : Rewrite) (hk : k ≤ j) (h : Exact k s n) (hnodup : (n.ids k).Nodup) :
    ∃ s', tie commentDocstrings stop j n s = .ok [n.undoc k] s' ∧ Exact k s' (n.undoc k) ∧
      (∀ id ∉ n.ids k, s'.nodes[id]? = s.nodes[id]?) ∧ ∀ id, s'.known id = (s.known id).commented id (n.docs k) := by
  induction k generalizing n s j with
  | zero => exact h.elim
  | succ k ih =>
    obtain ⟨i, rfl⟩ := exists_succ_of_lt hk
    obtain ⟨hnot, hnodup⟩ := nodup_cons.1 hnodup
    have hsub := n.undoc_sublist
    have hids := hsub.flatMap (ids k)
    obtain ⟨s1, hstep, hnodes, hknown1⟩ := commentDocstrings_eq (tie commentDocstrings stop i) h
    obtain ⟨s2, hrun, hparts, hs2, hknown2⟩ := extract_parts (fun c hc s hs => ih (Nat.le_of_succ_le_succ hk) hs
      ((nodup_flatMap.1 hnodup).1 c (hsub.subset hc)))
      (fun c hc => (h.2 c (hsub.subset hc)).congr fun id _ => by rw [hnodes]) (hnodup.sublist hids)
    rw [hnodes] at hs2
    obtain ⟨shape, htraverse, hchildren, hframe⟩ := Shape.traverse_of_mapM hrun
    obtain rfl : shape = n.shape.undoc.map (Node.undoc k) :=
      Shape.ext_children (hframe.trans (Shape.frame_map ..).symm) (hchildren.trans (Shape.children_map ..).symm)
    have hcurrent : current (n.withShape n.shape.undoc) s2 = .ok n s2 :=
      current_of_getElem? ((hs2 n.id fun hid => hnot (hids.subset hid)).trans h.1)
    have hcommit : commit (n.withShape n.shape.undoc) (n.shape.undoc.map (Node.undoc k)) s2 =
        .ok (n.undoc (k + 1)) { s2 with nodes := s2.nodes.insert n.id (n.undoc (k + 1)) } := by
      refine (bind_ok hcurrent).trans ?_
      obtain ⟨id, _, _, shape⟩ := n
      cases shape <;> rfl
    have hlast {id : NodeId} (hid : n.id ≠ id) : (s2.nodes.insert n.id (n.undoc (k + 1)))[id]? = s2.nodes[id]? :=
      getElem?_insert_of_ne (m := n.undoc (k + 1)) hid
    refine ⟨_, hstep.trans ((bind_ok ((bind_ok (Shape.traverse_many many_of_one htraverse)).trans hcommit)).trans rfl),
      ⟨Std.TreeMap.getElem?_insert_self, fun c hc => ?_⟩, fun id hid => ?_, fun id => ?_⟩
    · rw [children_undoc] at hc
      obtain ⟨d, hd, rfl⟩ := mem_map.1 hc
      refine (hparts d hd).congr fun id hid => hlast ?_
      rintro rfl
      exact hnot (mem_flatMap.2 ⟨d, hsub.subset hd, ids_undoc k d hid⟩)
    · rw [ids, mem_cons, not_or] at hid
      exact (hlast fun h => hid.1 h.symm).trans (hs2 id fun hmem => hid.2 (hids.subset hmem))
    · rw [docs, Facts.commented_append, ← hknown1]
      exact hknown2 id

/-- Of a tree that is known as it is, the documenting statements are dropped and nothing else, and each text is noted as the
comment of what it documents and of nothing else. -/
theorem docstrings_extracted (h : Exact k s n) (hnodup : (n.ids k).Nodup) (hk : k ≤ nestingLimit) :
    ∃ s', run commentDocstrings n s = .ok (n.undoc k) s' ∧ (∀ id ∉ n.ids k, s'.nodes[id]? = s.nodes[id]?) ∧
      ∀ id, s'.known id = (s.known id).commented id (n.docs k) := by
  obtain ⟨s₁, hrun, hexact, hs₁, hknown⟩ := extract_tree (fun _ => fail .tooDeep) hk h hnodup
  obtain ⟨s', hrefresh, hnodes, hfacts, -⟩ := (Storing.same s₁).refreshFrom hexact hk s₁ ⟨fun _ => rfl, rfl, rfl⟩
  refine ⟨s', (bind_ok (current_of_getElem? h.getElem?)).trans ((bind_ok hrun).trans hrefresh), fun id hid => ?_, fun id => ?_⟩
  · rw [hnodes, hs₁ id hid]
  · rw [known, hfacts, ← known, hknown]

/-- A text at the head of a module, and the same text as its next statement. -/
def saidTwice : Node :=
  ⟨1, none, none, .module [⟨2, none, none, .exprStmt ⟨3, none, none, .constant (.str "doc") false⟩⟩, ⟨4, none, none,
    .exprStmt ⟨5, none, none, .constant (.str "doc") false⟩⟩]⟩

theorem saidTwice_extracted : ∃ s s', run commentDocstrings saidTwice s = .ok (saidTwice.undoc 4) s' ∧
    (saidTwice.undoc 4).children.map (·.id) = [4] ∧ (s'.known 1).docstring = some "doc" ∧ (s'.known 4).docstring = none := by
  obtain ⟨nodes, -, hexact, -⟩ := recordAll_exact (n := saidTwice) (k := 4) (by decide) (by decide) le_rfl {}
  obtain ⟨s', hrun, -, hknown⟩ := docstrings_extracted hexact (by decide) (le_nestingLimit (by decide))
  exact ⟨_, s', hrun, rfl, by rw [hknown]; rfl, by rw [hknown]; rfl⟩

end Polyglot
