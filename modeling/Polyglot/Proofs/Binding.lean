import Polyglot.Proofs.Outline

/-!
# Bindings

Which identifiers of a program belong together. A program falls into blocks: the module, its functions, classes and
comprehensions. A name that is not bound in a block is one of the next function around it that has it, past all
classes, or else of the module; `global` and `nonlocal` send a name outwards.
-/
namespace Polyglot

open List

namespace Binding

inductive BlockKind where
  | module | function | cls | comprehension
  deriving DecidableEq

/-- A block goes by the node that opens it. -/
structure Block where
  kind : BlockKind
  id : NodeId
  deriving DecidableEq

inductive Role where
  | use | bind | global | nonlocal
  deriving DecidableEq

/-- An identifier with what it is there for and the blocks around it, innermost first. -/
structure Mention where
  blocks : List Block
  role : Role
  name : String
  deriving DecidableEq

/-! ### What an identifier belongs to -/

/-- The block that has a name, by what is said about it in a block and what is found further out. -/
def decided (ms : List Mention) (x : String) (here top outer : List Block) : List Block :=
  if ⟨here, .global, x⟩ ∈ ms then top
  else if ⟨here, .nonlocal, x⟩ ∈ ms then outer
  else if ⟨here, .bind, x⟩ ∈ ms then here
  else outer

/-- The block that has a name, as it is seen from inside some blocks. -/
def outward (ms : List Mention) (x : String) : List Block → List Block
  | [] => []
  | [b] => [b]
  | b :: c :: bs =>
    if b.kind = .cls then outward ms x (c :: bs)
    else decided ms x (b :: c :: bs) [(c :: bs).getLast (cons_ne_nil c bs)] (outward ms x (c :: bs))

/-- The block that has an identifier. In its own block a class counts like any other. -/
def owner (ms : List Mention) (m : Mention) : List Block :=
  match m.blocks with
  | [] => []
  | [b] => [b]
  | b :: c :: bs =>
    decided ms m.name (b :: c :: bs) [(c :: bs).getLast (cons_ne_nil c bs)] (outward ms m.name (c :: bs))

def nameAt (ms : List Mention) (i : Nat) : Option String := ms[i]?.map Mention.name

/-- The identifiers at two places of a list belong together. -/
def Together (ms : List Mention) (i j : Nat) : Prop :=
  ∃ m m', ms[i]? = some m ∧ ms[j]? = some m' ∧ m.name = m'.name ∧ owner ms m = owner ms m'

instance Together.decidable (ms : List Mention) (i j : Nat) : Decidable (Together ms i j) :=
  match hi : ms[i]?, hj : ms[j]? with
  | some m, some m' => decidable_of_iff (m.name = m'.name ∧ owner ms m = owner ms m') (by simp [Together, hi, hj])
  | none, _ => isFalse (by simp [Together, hi])
  | some _, none => isFalse (by simp [Together, hj])

/-! ### Other names -/

/-- Two lists have identifiers in the same places and for the same purposes. -/
def Aligned (ms ms' : List Mention) : Prop :=
  ms.map (fun m => (m.blocks, m.role)) = ms'.map fun m => (m.blocks, m.role)

/-- Identifiers of different names get one name. -/
def Merged (ms ms' : List Mention) (i j : Nat) : Prop := nameAt ms' i = nameAt ms' j ∧ nameAt ms i ≠ nameAt ms j

/-- Identifiers that belong together get different names. -/
def Split (ms ms' : List Mention) (i j : Nat) : Prop := Together ms i j ∧ nameAt ms' i ≠ nameAt ms' j

section Names

variable {ms ms' : List Mention} {m m' : Mention} {i j : Nat}

theorem Aligned.symm (h : Aligned ms ms') : Aligned ms' ms := Eq.symm h

theorem Aligned.getElem? (h : Aligned ms ms') (hi : ms[i]? = some m) :
    ∃ m', ms'[i]? = some m' ∧ m'.blocks = m.blocks ∧ m'.role = m.role := by
  have hmap := congrArg (fun l => l[i]?) h
  simp only [getElem?_map, hi, Option.map_some] at hmap
  obtain ⟨m', hi', heq⟩ := Option.map_eq_some_iff.1 hmap.symm
  exact ⟨m', hi', (Prod.mk.inj heq).1, (Prod.mk.inj heq).2⟩

theorem nameAt_eq_map {σ : String → String} (h : ms.map Mention.name = (ms'.map Mention.name).map σ) (i : Nat) :
    nameAt ms i = (nameAt ms' i).map σ := by
  have hnames := congrArg (fun l => l[i]?) h
  simp only [getElem?_map] at hnames
  exact hnames

/-- Different names stay different if the old names can be told from the new ones. -/
theorem not_merged_of_inverse (σ : String → String) (h : ms.map Mention.name = (ms'.map Mention.name).map σ) (i j : Nat) :
    ¬ Merged ms ms' i j := by
  rintro ⟨heq, hne⟩
  rw [nameAt_eq_map h, nameAt_eq_map h, heq] at hne
  exact hne rfl

theorem owner_of_blocks {b c : Block} {bs : List Block} (h : m.blocks = b :: c :: bs) :
    owner ms m =
      decided ms m.name (b :: c :: bs) [(c :: bs).getLast (cons_ne_nil c bs)] (outward ms m.name (c :: bs)) := by
  unfold owner
  split
  · cases h.symm.trans ‹_›
  · cases h.symm.trans ‹_›
  · cases h.symm.trans ‹_›
    rfl

section Renamed

variable (halign : Aligned ms ms') (hmerge : ∀ i j, ¬ Merged ms ms' i j) (hsplit : ∀ i j, ¬ Split ms ms' i j)
  (hi : ms[i]? = some m) (hi' : ms'[i]? = some m')

include halign hmerge hi hi'

theorem mem_of_mem_renamed {here : List Block} {role : Role} (h : ⟨here, role, m'.name⟩ ∈ ms') :
    ⟨here, role, m.name⟩ ∈ ms := by
  obtain ⟨j, hj'⟩ := mem_iff_getElem?.1 h
  obtain ⟨⟨_, _, x⟩, hj, rfl, rfl⟩ := halign.symm.getElem? hj'
  have hname : x = m.name := by
    by_contra hne
    exact hmerge j i ⟨by simp [nameAt, hj', hi'], by simpa [nameAt, hj, hi] using hne⟩
  exact hname ▸ mem_of_getElem? hj

include hsplit

omit hmerge in
theorem mem_renamed_of_mem {here : List Block} {role : Role} (h : ⟨here, role, m.name⟩ ∈ ms)
    (howner : owner ms ⟨here, role, m.name⟩ = owner ms m) : ⟨here, role, m'.name⟩ ∈ ms' := by
  obtain ⟨j, hj⟩ := mem_iff_getElem?.1 h
  obtain ⟨⟨_, _, x⟩, hj', rfl, rfl⟩ := halign.getElem? hj
  have hname : x = m'.name := by
    by_contra hne
    exact hsplit j i ⟨⟨_, m, hj, hi, rfl, howner⟩, by simpa [nameAt, hj', hi'] using hne⟩
  exact hname ▸ mem_of_getElem? hj'

/-- As long as an identifier is looked for in a block, its new name is found where its old one was. -/
theorem decided_renamed {b c : Block} {bs outer : List Block}
    (howner : owner ms m =
      decided ms m.name (b :: c :: bs) [(c :: bs).getLast (cons_ne_nil c bs)] (outward ms m.name (c :: bs)))
    (houter : owner ms m = outward ms m.name (c :: bs) → outer = outward ms m.name (c :: bs)) :
    decided ms' m'.name (b :: c :: bs) [(c :: bs).getLast (cons_ne_nil c bs)] outer = owner ms m := by
  have hsame (role : Role) : owner ms ⟨b :: c :: bs, role, m.name⟩ = owner ms m := (owner_of_blocks rfl).trans howner.symm
  have hiff (role : Role) : ⟨b :: c :: bs, role, m'.name⟩ ∈ ms' ↔ ⟨b :: c :: bs, role, m.name⟩ ∈ ms :=
    ⟨mem_of_mem_renamed halign hmerge hi hi', fun h => mem_renamed_of_mem halign hsplit hi hi' h (hsame role)⟩
  unfold decided at howner ⊢
  grind

theorem outward_renamed (bs : List Block) (howner : owner ms m = outward ms m.name bs) :
    outward ms' m'.name bs = outward ms m.name bs := by
  fun_induction outward ms m.name bs with
  | case1 | case2 => rfl
  | case3 b c bs hcls ih => rw [outward, if_pos hcls, ih howner]
  | case4 b c bs hcls ih =>
    rw [outward, if_neg hcls]
    exact (decided_renamed halign hmerge hsplit hi hi' howner ih).trans howner

theorem owner_renamed : owner ms' m' = owner ms m := by
  obtain ⟨d, hd, hblocks, _⟩ := halign.getElem? hi
  obtain rfl : d = m' := Option.some.inj (hd.symm.trans hi')
  match hm : m.blocks with
  | [] | [_] => rw [owner, owner, hblocks, hm]
  | b :: c :: bs =>
    rw [owner_of_blocks (hblocks.trans hm)]
    exact decided_renamed halign hmerge hsplit hi hi' (owner_of_blocks hm) (outward_renamed halign hmerge hsplit hi hi' _)

end Renamed

/-- If different names stay different, what belongs together is kept exactly if identifiers that belong together get one
name. -/
theorem together_kept_iff (halign : Aligned ms ms') (hmerge : ∀ i j, ¬ Merged ms ms' i j) :
    (∀ i j, Together ms' i j ↔ Together ms i j) ↔ ∀ i j, ¬ Split ms ms' i j := by
  constructor
  · rintro h i j ⟨htogether, hne⟩
    obtain ⟨m, m', hi, hj, hname, _⟩ := (h i j).2 htogether
    exact hne (by simp [nameAt, hi, hj, hname])
  · intro hsplit i j
    constructor
    · rintro ⟨d, d', hi', hj', hname, howner⟩
      obtain ⟨m, hi, _⟩ := halign.symm.getElem? hi'
      obtain ⟨m', hj, _⟩ := halign.symm.getElem? hj'
      rw [owner_renamed halign hmerge hsplit hi hi', owner_renamed halign hmerge hsplit hj hj'] at howner
      refine ⟨m, m', hi, hj, ?_, howner⟩
      by_contra hne
      exact hmerge i j ⟨by simp [nameAt, hi', hj', hname], by simpa [nameAt, hi, hj] using hne⟩
    · intro htogether
      have ⟨m, m', hi, hj, _, howner⟩ := htogether
      obtain ⟨d, hi', _⟩ := halign.getElem? hi
      obtain ⟨d', hj', _⟩ := halign.getElem? hj
      refine ⟨d, d', hi', hj', ?_, ?_⟩
      · by_contra hne
        exact hsplit i j ⟨htogether, by simpa [nameAt, hi', hj'] using hne⟩
      · rw [owner_renamed halign hmerge hsplit hi hi', owner_renamed halign hmerge hsplit hj hj', howner]

end Names

/-! ### The identifiers of a program -/

/-- Where a node stands: the blocks around it. Parameters are bound in the blocks behind them, and the first range of a
comprehension is looked up in those. -/
structure Position where
  here : List Block
  there : List Block

/-- The identifiers that a node has itself. -/
def identifiers {α : Type} : Shape α → List (Role × String)
  | .name id usage => [(if usage = .store ∨ usage = .del then .bind else .use, id)]
  | .functionDef f | .asyncFunctionDef f => [(.bind, f.name)]
  | .classDef c => [(.bind, c.name)]
  | .global names => names.map (Role.global, ·)
  | .nonlocal names => names.map (Role.nonlocal, ·)
  | .alias name asName => [(.bind, asName.getD ((Text.split name ".").headD name))]
  | .exceptHandler _ name _ | .matchStar name | .matchAs _ name | .matchMapping _ _ name => name.toList.map (Role.bind, ·)
  | .arg name _ => [(.bind, name)]
  | _ => []

def Position.own {α : Type} (p : Position) : Shape α → List Block
  | .arg .. => p.there
  | _ => p.here

/-- The generators of a comprehension: the first range is looked up outside. -/
def generators {α : Type} (inner outer : List Block) : List α → List (Position × α)
  | [] => []
  | g :: gs => (⟨inner, outer⟩, g) :: gs.map fun g => (⟨inner, inner⟩, g)

/-- The parts of a node with the blocks around them. -/
def parts {α : Type} (p : Position) (id : NodeId) (shape : Shape α) : List (Position × α) :=
  let within (bs : List Block) (as : List α) : List (Position × α) := as.map fun a => (⟨bs, bs⟩, a)
  let inner (kind : BlockKind) : List Block := ⟨kind, id⟩ :: p.here
  match shape with
  | .module body => within [⟨.module, id⟩] body
  | .functionDef f | .asyncFunctionDef f =>
    (⟨p.here, inner .function⟩, f.args) :: within (inner .function) f.body ++
      within p.here (f.decorators ++ f.returns.toList)
  | .lambda args body => (⟨p.here, inner .function⟩, args) :: within (inner .function) [body]
  | .classDef c => within p.here (c.bases ++ c.keywords) ++ within (inner .cls) c.body ++ within p.here c.decorators
  | .listComp elt gens | .setComp elt gens | .generatorExp elt gens =>
    within (inner .comprehension) [elt] ++ generators (inner .comprehension) p.here gens
  | .dictComp key value gens =>
    within (inner .comprehension) [key, value] ++ generators (inner .comprehension) p.here gens
  | .comprehension target iter ifs _ => within p.here [target] ++ within p.there [iter] ++ within p.here ifs
  -- the name that is given to a value in a comprehension belongs to what the comprehension stands in
  | .namedExpr target value =>
    within (p.here.dropWhile fun b => b.kind = .comprehension) [target] ++ within p.here [value]
  | .parameters ps => (Shape.parameters ps).children.map fun c => (p, c)
  | shape => within p.here shape.children

def mentions : Nat → Position → Node → List Mention
  | 0, _, _ => []
  | k + 1, p, n =>
    (identifiers n.shape).map (fun x => ⟨p.own n.shape, x.1, x.2⟩) ++
      (parts p n.id n.shape).flatMap fun c => mentions k c.1 c.2

def ofProgram (k : Nat) (n : Node) : List Mention := mentions k ⟨[], []⟩ n

end Binding

/-! ### Changing names in a tree -/

/-- A shape in which a name, or the name of a function, is changed. -/
def Shape.relabel {α : Type} (ρ : String → String) : Shape α → Shape α
  | .name id usage => .name (ρ id) usage
  | .functionDef f => .functionDef { f with name := ρ f.name }
  | shape => shape

/-- A tree in which names and the names of functions are changed, as far as it is less than `k` levels deep. -/
def Node.relabel (ρ : String → String) : Nat → Node → Node
  | 0, n => n
  | k + 1, n => n.withShape ((n.shape.map (relabel ρ k)).relabel ρ)

namespace Binding

/-- The identifiers of a node that stay when names and the names of functions are changed. -/
def heldBy {α : Type} : Shape α → List String
  | .name .. | .functionDef _ => []
  | shape => (identifiers shape).map Prod.snd

def held : Nat → Node → List String
  | 0, _ => []
  | k + 1, n => heldBy n.shape ++ n.children.flatMap (held k)

variable {ρ : String → String} {α β : Type} {shape : Shape α} (p : Position) {n : Node} {k : Nat}

theorem identifiers_relabel (g : α → β) (h : ∀ x ∈ heldBy shape, ρ x = x) :
    identifiers ((shape.map g).relabel ρ) = (identifiers shape).map fun x => (x.1, ρ x.2) := by
  have hheld : ∀ xs : List (Role × String), (∀ x ∈ xs.map Prod.snd, ρ x = x) → xs.map (fun x => (x.1, ρ x.2)) = xs := by
    intro xs hxs
    conv_rhs => rw [← map_id xs]
    exact map_congr_left fun x hx => Prod.ext rfl (hxs x.2 (mem_map_of_mem hx))
  cases shape with
  | name | functionDef => rfl
  | _ => exact (hheld _ h).symm

theorem own_relabel (g : α → β) (shape : Shape α) : p.own ((shape.map g).relabel ρ) = p.own shape := by
  cases shape <;> rfl

theorem parts_relabel (id : NodeId) (g : α → β) (shape : Shape α) :
    parts p id ((shape.map g).relabel ρ) = (parts p id shape).map fun c => (c.1, g c.2) := by
  have hwithin (bs : List Block) (as : List α) : (as.map g).map (fun a => ((⟨bs, bs⟩ : Position), a)) =
      (as.map fun a => ((⟨bs, bs⟩ : Position), a)).map fun c => (c.1, g c.2) := by
    simp
  have hgenerators (inner outer : List Block) (as : List α) :
      generators inner outer (as.map g) = (generators inner outer as).map fun c => (c.1, g c.2) := by
    cases as <;> simp [generators]
  cases shape with
  | functionDef f | asyncFunctionDef f =>
    cases hreturns : f.returns <;>
      simp [parts, Shape.relabel, Shape.map, Shape.traverse, Shape.traverse.function, hreturns, Function.comp_def]
  | lambda | classDef | comprehension | namedExpr =>
    simp [parts, Shape.relabel, Shape.map, Shape.traverse, Function.comp_def]
  | listComp | setComp | generatorExp | dictComp =>
    simp [parts, Shape.relabel, Shape.map, Shape.traverse, hgenerators]
  | parameters ps =>
    refine (congrArg (List.map fun c => (p, c)) (Shape.children_map g (.parameters ps))).trans ?_
    simp [parts]
  | module => exact hwithin _ _
  | name => rfl
  | _ => exact (congrArg (List.map fun a => ((⟨p.here, p.here⟩ : Position), a)) (Shape.children_map g _)).trans (hwithin _ _)

theorem mem_children_of_mem_parts {p : Position} {id : NodeId} {c : Position × α} (h : c ∈ parts p id shape) :
    c.2 ∈ shape.children := by
  have hwithin (bs : List Block) {as : List α} (h : c ∈ as.map fun a => ((⟨bs, bs⟩ : Position), a)) : c.2 ∈ as := by
    obtain ⟨a, ha, rfl⟩ := mem_map.1 h
    exact ha
  have hgenerators {inner outer : List Block} {as : List α} (h : c ∈ generators inner outer as) : c.2 ∈ as := by
    cases as with
    | nil => cases h
    | cons a as =>
      rcases mem_cons.1 h with rfl | h
      · exact mem_cons_self
      · obtain ⟨b, hb, rfl⟩ := mem_map.1 h
        exact mem_cons_of_mem _ hb
  cases shape with
  | functionDef | asyncFunctionDef | lambda | classDef | comprehension | namedExpr | listComp | setComp | generatorExp |
    dictComp =>
    simp only [parts, cons_append, mem_append, mem_cons, map_cons, map_nil, not_mem_nil,
      or_false] at h
    grind [Shape.children]
  | parameters ps =>
    obtain ⟨a, ha, rfl⟩ := mem_map.1 h
    exact ha
  | module => exact hwithin _ h
  | _ => exact hwithin p.here h

theorem aligned_relabel (ρ : String → String) (k : Nat) (p : Position) (n : Node) :
    Aligned (mentions k p n) (mentions k p (n.relabel ρ k)) := by
  unfold Aligned
  induction k generalizing n p with
  | zero => rfl
  | succ k ih =>
    have hshape : (n.relabel ρ (k + 1)).shape = (n.shape.map (Node.relabel ρ k)).relabel ρ := rfl
    have hroles : (identifiers ((n.shape.map (Node.relabel ρ k)).relabel ρ)).map Prod.fst =
        (identifiers n.shape).map Prod.fst := by
      cases n.shape <;> rfl
    have hown := congrArg (List.map fun role => (p.own n.shape, role)) hroles
    rw [List.map_map, List.map_map] at hown
    rw [mentions, mentions, hshape, own_relabel, parts_relabel, map_append, map_append, List.map_map,
      List.map_map, flatMap_map, map_flatMap, map_flatMap]
    refine congrArg₂ _ hown.symm (flatMap_congr fun c _ => ih c.1 c.2)

/-- If those identifiers are kept that cannot be changed, all identifiers are changed alike. -/
theorem names_relabel (h : ∀ x ∈ held k n, ρ x = x) (p : Position) :
    (mentions k p (n.relabel ρ k)).map Mention.name = ((mentions k p n).map Mention.name).map ρ := by
  induction k generalizing n p with
  | zero => rfl
  | succ k ih =>
    have hown : ∀ x ∈ heldBy n.shape, ρ x = x := fun x hx => h x (mem_append_left _ hx)
    have hparts : ∀ c ∈ parts p n.id n.shape, ∀ x ∈ held k c.2, ρ x = x := by
      intro c hc x hx
      refine h x (mem_append_right _ (mem_flatMap.2 ⟨c.2, ?_, hx⟩))
      exact mem_children_of_mem_parts hc
    have hshape : (n.relabel ρ (k + 1)).shape = (n.shape.map (Node.relabel ρ k)).relabel ρ := rfl
    simp only [mentions, hshape, identifiers_relabel _ hown, parts_relabel, map_append, List.map_map, flatMap_map,
      map_flatMap]
    refine congrArg₂ _ rfl (flatMap_congr fun c hc => (ih (hparts c hc) c.1).trans (List.map_map ..))

/-- If those identifiers are kept that cannot be changed, identifiers that belong together get one name. -/
theorem not_split_relabel (h : ∀ x ∈ held k n, ρ x = x) (p : Position) (i j : Nat) :
    ¬ Split (mentions k p n) (mentions k p (n.relabel ρ k)) i j := by
  have hname := nameAt_eq_map (names_relabel h p)
  rintro ⟨⟨m, m', hi, hj, heq, _⟩, hne⟩
  rw [hname, hname, nameAt, nameAt, hi, hj, Option.map_some, Option.map_some, heq] at hne
  exact hne rfl

end Binding
end Polyglot
