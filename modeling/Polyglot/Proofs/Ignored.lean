import Polyglot.Proofs.Deeds
import Polyglot.Proofs.Isolation

/-!
# Assignments with targets that are ignored

An assignment of a tuple to a tuple evaluates all values before it stores the first. Where a target is called `_`, the
assignment is taken apart: into one statement for each target, or into the values that are ignored and the other targets.
-/
namespace Polyglot

open Session Effect List Deed Node Language

namespace Effect

variable {ε σ α β γ δ : Type} {x : EStateM ε σ α} {f : δ → EStateM ε σ β} {ds : List δ}

/-- Two computations of which either may come first. -/
def Commutes (x : EStateM ε σ α) (y : EStateM ε σ β) : Prop :=
  ∀ ⦃γ : Type⦄ (f : α → β → EStateM ε σ γ), (do let a ← x; let b ← y; f a b) = (do let b ← y; let a ← x; f a b)

theorem Commutes.mapM (h : ∀ d ∈ ds, Commutes x (f d)) : Commutes x (ds.mapM f) := by
  induction ds with
  | nil =>
    intro γ g
    simp
  | cons d ds ih =>
    obtain ⟨hd, hds⟩ := forall_mem_cons.1 h
    intro γ g
    simp only [mapM_cons, bind_assoc, pure_bind]
    rw [hd fun a b => do let bs ← ds.mapM f; g a (b :: bs)]
    exact bind_congr fun b => ih hds fun a bs => g a (b :: bs)

theorem mapM_bind_congr {g h : List β → EStateM ε σ γ} (heq : ∀ bs, bs.length = ds.length → g bs = h bs) :
    (ds.mapM f >>= g) = (ds.mapM f >>= h) := by
  funext s
  cases hs : ds.mapM f s with
  | ok bs t => rw [bind_ok hs, bind_ok hs, heq bs (forall₂_of_mapM hs).length_eq.symm]
  | error e t => rw [bind_error hs, bind_error hs]

end Effect

namespace Deed

variable {E S V : Type} {d value : Deed E S V} {ds es vs ws : List (Deed E S V)} {ps : List (Deed E S V × Deed E S V)}

/-- Values may be evaluated when their turn comes if none depends on what was stored before. -/
theorem sets_eq_stores (h : ps.Pairwise fun p q => ∀ v, Commutes (p.1.store v) q.2.eval) :
    sets ps = (do stores ((ps.map Prod.fst).zip (← (ps.map Prod.snd).mapM eval)); return .done) := by
  induction ps with
  | nil => simp [sets, stores]
  | cons p ps ih =>
    obtain ⟨hp, hps⟩ := pairwise_cons.1 h
    simp only [sets, ih hps, map_cons, mapM_cons, bind_assoc, pure_bind]
    refine bind_congr fun v => ?_
    have hlater : Commutes (p.1.store v) ((ps.map Prod.snd).mapM eval) :=
      Commutes.mapM (forall_mem_map.2 fun q hq => hp q hq v)
    rw [hlater fun _ vs => do stores ((ps.map Prod.fst).zip vs); return Signal.done]
    simp [stores]

theorem stores_append (as bs : List (Deed E S V × V)) : stores (as ++ bs) = (do stores as; stores bs) := by
  induction as with
  | nil => simp [stores]
  | cons a as ih => simp [stores, ih]

/-- A value that is ignored may be evaluated first if the ones before it do not depend on that. -/
theorem stores_ignored (hd : ∀ v, d.store v = pure ⟨⟩) (hlength : ds.length = vs.length)
    (h : ∀ e ∈ vs, Commutes value.eval e.eval) :
    (do let _ ← value.eval; stores ((ds ++ es).zip (← (vs ++ ws).mapM eval)); return Signal.done) =
      (do stores ((ds ++ d :: es).zip (← (vs ++ value :: ws).mapM eval)); return Signal.done) := by
  simp only [mapM_append, mapM_cons, bind_assoc, pure_bind]
  rw [Commutes.mapM h fun _ as => do let bs ← ws.mapM eval; stores ((ds ++ es).zip (as ++ bs)); return Signal.done]
  refine mapM_bind_congr fun as has => bind_congr fun v => bind_congr fun bs => ?_
  have hzip (es' : List (Deed E S V)) (bs' : List V) : (ds ++ es').zip (as ++ bs') = ds.zip as ++ es'.zip bs' :=
    zip_append (hlength.trans has.symm)
  simp [hzip, stores_append, stores, hd]

end Deed

namespace Machine

variable {E S V : Type} {M : Machine E S V}

/-- Nothing reads `_`: to set it makes no difference. -/
def Forgets (M : Machine E S V) : Prop := ∀ v s, M.bind "_" v s = s

theorem Forgets.store (h : M.Forgets) (u : Usage) (v : V) : (M.node (.name "_" u)).store v = pure ⟨⟩ := by
  change (modify (M.bind "_" v) : EStateM E S PUnit) = _
  rw [funext (h v)]
  rfl

theorem run_tuples {ds vs : List (Deed E S V)} {u w : Usage} (hlength : ds.length = vs.length) (hds : ∀ d ∈ ds, d.starred = false) :
    (M.node (.assign [M.node (.tuple ds u)] (M.node (.tuple vs w)))).run =
      (do stores (ds.zip (← vs.mapM eval)); return .done) := by
  have heval : (M.node (.tuple vs w)).eval = (do return M.pack (← vs.mapM eval)) := rfl
  simp only [run_assign, sets, heval, bind_assoc, pure_bind]
  refine mapM_bind_congr fun ws hws => ?_
  have hflags : ds.map starred = ws.map fun _ => false := by
    rw [map_congr_left hds, map_const', map_const', hws, hlength]
  rw [store_tuple, hflags, M.unpack_pack, pure_bind]

end Machine

namespace Destructuring

variable {lang : Language} {self : Node → Analysis (List Node)} {s t s' : Session} {n a c : Node} {ts vs ss : List Node}
  {p : Node × Node}

/-- A statement sets one target, or evaluates the value of one that is ignored. -/
def Sets (t : Session) (p : Node × Node) (a : Node) : Prop :=
  t.Has a.id (.assign [p.1.id] p.2.id) ∨ ∃ u, t.Has p.1.id (.name "_" u) ∧ t.Has a.id (.exprStmt p.2.id)

theorem Sets.kept (h : Sets s p a) (hgrows : Grows [] s t) : Sets t p a :=
  h.imp (·.kept hgrows) fun ⟨u, hu, ha⟩ => ⟨u, hu.kept hgrows, ha.kept hgrows⟩

theorem Sets.run {E S V : Type} {M : Machine E S V} {D : NodeId → Deed E S V} (h : Sets t p a) (hM : M.Forgets)
    (hD : M.Models t D) : (D a.id).run = sets [(D p.1.id, D p.2.id)] := by
  rcases h with h | ⟨u, hu, h⟩
  · rw [hD _ _ h]
    exact M.run_assign _ _
  · have hstore (v : V) : (D p.1.id).store v = pure ⟨⟩ := by
      rw [hD _ _ hu]
      exact hM.store u v
    rw [hD _ _ h]
    simp only [sets, hstore, pure_bind]
    rfl

theorem has_ignored (hc : s.nodes[c.id]? = some c ∧ c.id < s.next) (hident : c.ident? = some "_")
    (hname : c.isName = true) : ∃ u, s.Has c.id (.name "_" u) := by
  obtain ⟨hc, hlt⟩ := hc
  obtain ⟨_, _, _, shape⟩ := c
  cases shape with
  | name x u =>
    cases hident
    exact ⟨u, _, hc, hlt, rfl⟩
  | _ => cases hname

theorem splitAll_ok (keep : Bool) (hs : s.Keyed) (hts : ∀ c ∈ ts, ∃ shape, s.Has c.id shape) (hlength : ts.length = vs.length) :
    ∃ ss t, splitAll keep ts vs s = .ok ss t ∧ Grows [] s t ∧ List.Forall₂ (Sets t) (ts.zip vs) ss := by
  induction ts generalizing vs s with
  | nil => exact ⟨[], s, rfl, .refl s, .nil⟩
  | cons c ts ih =>
    cases vs with
    | nil => cases hlength
    | cons v vs =>
      obtain ⟨⟨_, m, hm, hlt, -⟩, hts⟩ := forall_mem_cons.1 hts
      have hid : m.id = c.id := hs _ _ hm
      have hnow : s.now c = m := now_of_getElem? hm
      have hhead : splitAll keep (c :: ts) (v :: vs) s = _ := bind_ok (current_ok s c)
      rw [hnow] at hhead
      obtain ⟨a, s1, hstep, hgrows1, ha⟩ : ∃ a s1, (∀ ss t, splitAll keep ts vs s1 = .ok ss t →
          splitAll keep (c :: ts) (v :: vs) s = .ok (a :: ss) t) ∧ Grows [] s s1 ∧ Sets s1 (c, v) a := by
        split at hhead
        · rename_i hignored
          simp only [Bool.and_eq_true, beq_iff_eq] at hignored
          obtain ⟨u, hu⟩ := has_ignored (s := s) ⟨hid ▸ hm, hid ▸ hlt⟩ hignored.1.1 hignored.1.2
          obtain ⟨hgrows, -, he⟩ := adds_fresh (.exprStmt v) s _ _ rfl
          obtain ⟨s1, hnote⟩ : ∃ s1, note s.next ({ · with unused := true }) (after (fresh (.exprStmt v) s)) = .ok ⟨⟩ s1 :=
            ⟨_, rfl⟩
          have hgrows := hgrows.trans (grows_note hnote)
          refine ⟨_, s1, fun ss t hrest => hhead.trans ?_, hgrows, .inr ⟨u, (hid ▸ hu).kept hgrows, he.kept (grows_note hnote)⟩⟩
          exact (bind_ok rfl).trans ((bind_ok hnote).trans ((bind_ok hrest).trans rfl))
        · obtain ⟨hgrows, -, ha⟩ := adds_fresh (.assign [m] v) s _ _ rfl
          exact ⟨_, _, fun ss t hrest => hhead.trans ((bind_ok rfl).trans ((bind_ok hrest).trans rfl)), hgrows, .inl (hid ▸ ha)⟩
      obtain ⟨ss, t, hrest, hgrows, hss⟩ := ih (hgrows1.keyed hs)
        (fun c hc => (hts c hc).imp fun _ h => h.kept hgrows1) (Nat.succ.inj hlength)
      exact ⟨a :: ss, t, hstep ss t hrest, hgrows1.trans hgrows, .cons (ha.kept hgrows) hss⟩

theorem dropIgnored_skip {names : List (Option String)} {k m i : Nat} {ds : List Node}
    (h : ∀ j < k, ∃ x, names[i + j]? = some x ∧ x ≠ some "_") :
    dropIgnored names (k + m) i ts vs ds = dropIgnored names m (i + k) ts vs ds := by
  induction k generalizing i with
  | zero => rw [Nat.zero_add, Nat.add_zero]
  | succ k ih =>
    obtain ⟨x, hx, hne⟩ := h 0 (Nat.succ_pos k)
    have hrest := ih (i := i + 1) fun j hj => by
      rw [Nat.add_right_comm]
      exact h (j + 1) (Nat.succ_lt_succ hj)
    rw [Nat.add_right_comm, dropIgnored, show names[i]? = some x from hx]
    dsimp only
    rw [if_neg (by simpa using hne), hrest, Nat.add_right_comm]
    rfl

theorem dropIgnored_one {as bs vs ws : List Node} {v : Node} (hlength : as.length = vs.length) (hc : c.ident? = some "_")
    (h : ∀ a ∈ as ++ bs, a.ident? ≠ some "_") :
    dropIgnored ((as ++ c :: bs).map ident?) (as ++ c :: bs).length 0 (as ++ c :: bs) (vs ++ v :: ws) [] =
      pure (as ++ bs, vs ++ ws, [v]) := by
  have hnames : ∀ j ≠ as.length, j < (as ++ c :: bs).length → ∃ x, ((as ++ c :: bs).map ident?)[j]? = some x ∧ x ≠ some "_" := by
    intro j hne hj
    have hmem : (as ++ c :: bs)[j] ∈ as ++ bs := by grind
    exact ⟨_, by rw [getElem?_map, getElem?_eq_getElem hj]; rfl, h _ hmem⟩
  have hat : ((as ++ c :: bs).map ident?)[as.length]? = some (some "_") := by simp [hc]
  have hvalue : (vs ++ v :: ws)[as.length]? = some v := by simp [hlength]
  have herase (l r : List Node) (a : Node) : (l ++ a :: r).eraseIdx l.length = l ++ r := by
    simp [eraseIdx_append_of_length_le]
  rw [length_append, length_cons, dropIgnored_skip fun j hj => hnames _ (by omega) (by simp; omega), Nat.zero_add, dropIgnored, hat]
  dsimp only
  rw [if_pos (beq_self_eq_true _), if_neg (by simp), hvalue]
  dsimp only
  rw [herase, hlength, herase, ← Nat.add_zero bs.length, dropIgnored_skip fun j hj => hnames _ (by omega) (by simp; omega)]
  rfl

/-! ### Whole assignments -/

/-- An assignment of a tuple of values to a tuple of targets, as a session has it. -/
structure Pairs (s : Session) (n tup value : Node) (ts vs : List Node) (u w : Usage) : Prop where
  keyed : s.Keyed
  shape : n.shape = .assign [tup] value
  targets : tup.shape = .tuple ts u
  values : value.shape = .tuple vs w
  known : ∀ m ∈ n :: tup :: value :: ts, s.nodes[m.id]? = some m ∧ m.id < s.next
  nodup : [n.id, tup.id, value.id].Nodup
  length_eq : ts.length = vs.length

variable {tup value : Node} {u w : Usage}

theorem run_pairs {E S V : Type} {M : Machine E S V} {D : NodeId → Deed E S V} (hD : M.Models s D)
    (hn : s.Has n.id (.assign [tup.id] value.id)) (htup : s.Has tup.id (.tuple (ts.map Node.id) u))
    (hvalue : s.Has value.id (.tuple (vs.map Node.id) w)) (hlength : ts.length = vs.length)
    (hstarred : ∀ c ∈ ts, (D c.id).starred = false) : (D n.id).run =
      (do stores ((ts.map fun c => D c.id).zip (← (vs.map fun c => D c.id).mapM eval)); return .done) := by
  rw [hD _ _ hn]
  change (M.node (.assign [D tup.id] (D value.id))).run = _
  rw [hD _ _ htup, hD _ _ hvalue]
  change (M.node (.assign [M.node (.tuple ((ts.map Node.id).map D) u)] (M.node (.tuple ((vs.map Node.id).map D) w)))).run = _
  rw [M.run_tuples (by simpa using hlength) (by simpa using hstarred), map_map, map_map]
  rfl

section

variable (h : Pairs s n tup value ts vs u w)
include h

theorem Pairs.has : s.Has n.id (.assign [tup.id] value.id) ∧
    s.Has tup.id (.tuple (ts.map Node.id) u) ∧ s.Has value.id (.tuple (vs.map Node.id) w) := by
  obtain ⟨hn, htup, hvalue, -⟩ : (s.nodes[n.id]? = some n ∧ _) ∧ (s.nodes[tup.id]? = some tup ∧ _) ∧
    (s.nodes[value.id]? = some value ∧ _) ∧ _ := by simpa using h.known
  exact ⟨⟨n, hn.1, hn.2, by rw [h.shape]; rfl⟩, ⟨tup, htup.1, htup.2, by rw [h.targets]; rfl⟩,
    ⟨value, hvalue.1, hvalue.2, by rw [h.values]; rfl⟩⟩

theorem Pairs.ignoring_eq (hlang : lang ∉ [nim, .v]) : ignoring lang self n s =
    (if !((ts.filter isName).map ident?).contains (some "_") then return [n]
    else if [cpp, .d, .dart, .go, .rust].contains lang then
      return [← Lowering.block (← splitAll (lang == .go) ts vs) n]
    else do
      let (ts', vs', dropped) ← dropIgnored ((ts.filter isName).map ident?) ts.length 0 ts vs []
      let _ ← edit tup (.tuple ts' u)
      let _ ← edit value (.tuple vs' w)
      let evals ← dropped.mapM fun e => fresh (.exprStmt e)
      return [← Lowering.block (evals ++ [n]) n] : Analysis (List Node)) s := by
  have hnow : ∀ m ∈ n :: tup :: value :: ts, s.now m = m := fun m hm => now_of_getElem? (h.known m hm).1
  have hlang : (lang == .nim || lang == .v) = false := by simpa using hlang
  obtain ⟨-, hn, hu, hw, -, -, -⟩ := h
  obtain ⟨i, l, c, _⟩ := tup
  obtain ⟨j, l', c', _⟩ := value
  cases hu
  cases hw
  have hhead : [(⟨i, l, c, .tuple ts u⟩ : Node)].head?.mapM current s = .ok (some ⟨i, l, c, .tuple ts u⟩) s :=
    congrArg (fun m => EStateM.Result.ok (some m) s) (hnow _ (.tail _ (.head _)))
  have hvalue : current ⟨j, l', c', .tuple vs w⟩ s = .ok ⟨j, l', c', .tuple vs w⟩ s :=
    congrArg (fun m => EStateM.Result.ok m s) (hnow _ (.tail _ (.tail _ (.head _))))
  have hparts : ts.mapM current s = .ok ts s := by
    have hyields : Yields (· = s) (ts.mapM current) ts := .mapM_same fun m hm s' hs' =>
      ⟨s, by rw [hs', current_ok, hnow m (by simp [hm])], rfl⟩
    obtain ⟨_, hparts, rfl⟩ := hyields s rfl
    exact hparts
  rw [ignoring, hn]
  rw [hlang]
  exact (bind_ok hhead).trans ((bind_ok hvalue).trans ((bind_ok hparts).trans rfl))

/-- The parts of an assignment may be taken in the order of its statements: no value depends on what is stored before, or the
values that are ignored do not depend on those before them. -/
def Fits {E S V : Type} (lang : Language) (ts vs : List Node) (D : NodeId → Deed E S V) : Prop :=
  (ts.zip vs).Pairwise fun p q =>
    if [Language.cpp, .d, .dart, .go, .rust].contains lang then ∀ v, Commutes ((D p.1.id).store v) (D q.2.id).eval
    else q.1.ident? = some "_" → Commutes (D q.2.id).eval (D p.2.id).eval

/-- Where nothing reads `_`, a block of statements does what an assignment did. -/
def Same (lang : Language) (s s' : Session) (n : Node) (ts vs body : List Node) : Prop :=
  ∀ b t, Lowering.block body n s' = .ok b t → ∀ {E S V : Type} (M : Machine E S V) (D D' : NodeId → Deed E S V), M.Forgets →
    M.Models s D → M.Models t D' → (∀ c ∈ ts ++ vs, D' c.id = D c.id) → (∀ c ∈ ts, (D c.id).starred = false) →
    Fits lang ts vs D → (D' b.id).run = (D n.id).run

theorem Pairs.same_split (hlang : [cpp, .d, .dart, .go, .rust].contains lang)
    (hgrows : Grows [] s s') (hss : List.Forall₂ (Sets s') (ts.zip vs) ss) : Same lang s s' n ts vs ss := by
  intro b t hblock E S V M D D' hM hD hD' hparts hstarred hfits
  obtain ⟨test, hgrows', hb, htest⟩ := block_grows (hgrows.keyed h.keyed) hblock
  obtain ⟨hn, htup, hvalue⟩ := h.has
  have hlength : (ts.map fun c => D c.id).length = (vs.map fun c => D c.id).length := by simpa using h.length_eq
  have hseq : seq ((ss.map Node.id).map D') = sets ((ts.map fun c => D c.id).zip (vs.map fun c => D c.id)) := by
    rw [map_map, zip_map]
    refine seq_eq_sets (forall₂_map_left_iff.2 (forall₂_map_right_iff.2 (forall₂_iff_zip.2 ?_)))
    refine ⟨hss.length_eq, fun {p a} hpa => ?_⟩
    obtain ⟨ht, hv⟩ := of_mem_zip (of_mem_zip hpa).1
    rw [Prod.map, ← hparts _ (mem_append_left _ ht), ← hparts _ (mem_append_right _ hv)]
    exact ((forall₂_zip hss hpa).kept hgrows').run hM hD'
  have hfits : ((ts.map fun c => D c.id).zip (vs.map fun c => D c.id)).Pairwise fun p q => ∀ v, Commutes (p.1.store v) q.2.eval := by
    rw [zip_map]
    exact pairwise_map.2 (hfits.imp fun hpq => by rwa [if_pos hlang] at hpq)
  rw [hD'.run_block hb htest, hseq, sets_eq_stores hfits, map_fst_zip (Nat.le_of_eq hlength),
    map_snd_zip (Nat.le_of_eq hlength.symm), run_pairs hD hn htup hvalue h.length_eq hstarred]

end

theorem Pairs.same_drop {as bs vs ws evals : List Node} {v : Node}
    (h : Pairs s n tup value (as ++ c :: bs) (vs ++ v :: ws) u w)
    (hlang : [cpp, .d, .dart, .go, .rust].contains lang = false) (hc : c.isName ∧ c.ident? = some "_")
    (hlength : as.length = vs.length) (hkeyed : s'.Keyed) (hn : s'.Has n.id (.assign [tup.id] value.id))
    (htup : s'.Has tup.id (.tuple ((as ++ bs).map Node.id) u))
    (hvalue : s'.Has value.id (.tuple ((vs ++ ws).map Node.id) w))
    (hevals : List.Forall₂ (fun v e => s'.Has e.id (.exprStmt v.id)) [v] evals) :
    Same lang s s' n (as ++ c :: bs) (vs ++ v :: ws) (evals ++ [n]) := by
  intro b t hblock E S V M D D' hM hD hD' hparts hstarred hfits
  obtain ⟨test, hgrows, hb, htest⟩ := block_grows hkeyed hblock
  obtain ⟨hn0, htup0, hvalue0⟩ := h.has
  obtain ⟨e, _, he, ⟨⟩, rfl⟩ := forall₂_cons_left_iff.1 hevals
  have heval : (D' e.id).run = (do let _ ← (D v.id).eval; return .done) := by
    rw [hD' _ _ (he.kept hgrows), ← hparts v (by simp)]
    rfl
  have hsame {l : List Node} (hl : ∀ a ∈ l, a ∈ as ++ c :: bs ++ (vs ++ v :: ws)) :
      l.map (fun a => D' a.id) = l.map fun a => D a.id := map_congr_left fun a ha => hparts a (hl a ha)
  have hlengths : (as ++ bs).length = (vs ++ ws).length := by
    have hlengths := h.length_eq
    simp only [length_append, length_cons] at hlengths ⊢
    omega
  have hothers := run_pairs hD' (hn.kept hgrows) (htup.kept hgrows) (hvalue.kept hgrows) hlengths fun a ha => by
    rw [hparts a (by simp at ha ⊢; tauto)]
    exact hstarred a (by simp at ha ⊢; tauto)
  rw [hsame (by simp; tauto), hsame (by simp; tauto)] at hothers
  have hstore (x : V) : (D c.id).store x = pure ⟨⟩ := by
    obtain ⟨u, hu⟩ := has_ignored (h.known c (by simp)) hc.2 hc.1
    rw [hD _ _ hu]
    exact hM.store u x
  have hcommutes : ∀ d ∈ vs.map (fun a => D a.id), Commutes (D v.id).eval d.eval := by
    rw [Fits, zip_append hlength, zip_cons_cons] at hfits
    refine forall_mem_map.2 fun a ha => ?_
    rw [← map_snd_zip (Nat.le_of_eq hlength.symm)] at ha
    obtain ⟨p, hp, rfl⟩ := mem_map.1 ha
    have hpv := (pairwise_append.1 hfits).2.2 p hp _ (.head _)
    rw [hlang] at hpv
    exact hpv hc.2
  rw [hD'.run_block hb htest, run_pairs hD hn0 htup0 hvalue0 h.length_eq hstarred]
  simp only [map_append, map_cons, map_nil, singleton_append, seq, heval, hothers, bind_assoc, pure_bind]
  exact stores_ignored hstore (by simpa using hlength) hcommutes

def named : List Node := [⟨1, some 1, some 0, .name "_" .store⟩, ⟨2, some 1, some 3, .name "a" .store⟩]

def valued : List Node := [⟨4, some 1, some 7, .name "b" .load⟩, ⟨5, some 1, some 10, .name "c" .load⟩]

def ignored : Node :=
  ⟨7, some 1, some 0, .assign [⟨3, some 1, some 0, .tuple named .store⟩] ⟨6, some 1, some 7, .tuple valued .load⟩⟩

end Destructuring
end Polyglot
