import Polyglot.Proofs.Deeds
import Polyglot.Proofs.Temporaries

/-!
# Assignments to tuples

An assignment to a tuple evaluates its value once and then stores the parts from left to right.
-/
namespace Polyglot

open Session Effect List Deed

namespace Machine

variable {E S V α : Type} (M : Machine E S V) {bs : List (String × V)} {xs : List String} {u : Usage}

def binds (bs : List (String × V)) (s : S) : S := bs.foldl (fun s b => M.bind b.1 b.2 s) s

/-- Two results that are the same but for the values of some variables. -/
def Upto {α : Type} (xs : List String) (r r' : EStateM.Result E S α) : Prop :=
  ∃ bs, (∀ b ∈ bs, b.1 ∈ xs) ∧ r = moved (M.binds bs) r'

variable {M}

theorem upto_bind {β : Type} {x : EStateM E S α} {f g : α → EStateM E S β} {s : S}
    (h : ∀ a t, x s = .ok a t → M.Upto xs (f a t) (g a t)) : M.Upto xs ((x >>= f) s) ((x >>= g) s) := by
  cases hx : x s with
  | ok a t =>
    rw [bind_ok hx, bind_ok hx]
    exact h a t hx
  | error e t =>
    rw [bind_error hx, bind_error hx]
    exact ⟨[], forall_mem_nil _, rfl⟩

theorem unaware_binds {c : EStateM E S α} (h : ∀ b ∈ bs, Unaware (M.bind b.1 b.2) c) : Unaware (M.binds bs) c := by
  intro s
  induction bs generalizing s with
  | nil => cases h : c s <;> exact h
  | cons b bs ih =>
    obtain ⟨hb, hbs⟩ := forall_mem_cons.1 h
    change c (M.binds bs (M.bind b.1 b.2 s)) = _
    rw [ih hbs, hb]
    cases c s <;> rfl

theorem read_binds (hnodup : (bs.map Prod.fst).Nodup) {b : String × V} (hb : b ∈ bs) (hname : b.1 ≠ "_") (s : S) :
    M.read b.1 (M.binds bs s) = .ok b.2 (M.binds bs s) := by
  induction bs generalizing s with
  | nil => cases hb
  | cons b' bs ih =>
    obtain ⟨hnot, hnodup⟩ := nodup_cons.1 hnodup
    rcases mem_cons.1 hb with rfl | hb
    · have hothers : Unaware (M.binds bs) (M.read b.1) := unaware_binds fun b' hb' =>
        M.unaware_read fun heq => hnot (heq ▸ mem_map_of_mem hb')
      change M.read b.1 (M.binds bs (M.bind b.1 b.2 s)) = _
      rw [hothers, M.read_bind _ _ hname]
      rfl
    · exact ih hnodup hb _

/-- Parts are set from variables that they are not aware of. -/
theorem sets_names {g : S → S} {ts : List (Deed E S V × String × V)}
    (h : ∀ t ∈ ts, (∀ s, M.read t.2.1 (g s) = .ok t.2.2 (g s)) ∧ Unaware g (t.1.store t.2.2)) (s : S) :
    sets (ts.map fun t => (t.1, M.node (.name t.2.1 u))) (g s) =
      moved g ((do stores (ts.map fun t => (t.1, t.2.2)); return .done : EStateM E S Signal) s) := by
  induction ts generalizing s with
  | nil => rfl
  | cons t ts ih =>
    obtain ⟨⟨hread, hstore⟩, hts⟩ := forall_mem_cons.1 h
    have heval : (M.node (.name t.2.1 u)).eval (g s) = .ok t.2.2 (g s) := hread s
    rw [map_cons, map_cons, stores, bind_assoc]
    refine (bind_ok heval).trans ?_
    cases hs : t.1.store t.2.2 s with
    | ok a s' =>
      rw [bind_ok hs]
      exact (bind_ok ((hstore s).trans (congrArg (moved g) hs))).trans (ih hts s')
    | error e s' =>
      rw [bind_error hs]
      exact bind_error ((hstore s).trans (congrArg (moved g) hs))

theorem stores_names (xs : List String) (vs : List V) (s : S) :
    stores ((xs.map fun x => M.node (.name x u)).zip vs) s = .ok ⟨⟩ (M.binds (xs.zip vs) s) := by
  induction xs generalizing vs s with
  | nil => rfl
  | cons x xs ih =>
    cases vs with
    | nil => rfl
    | cons v vs => exact ih vs (M.bind x v s)

/-- What is unpacked to variables and set from there is unpacked in the end. -/
theorem sets_temporaries {w : Usage} {value : Deed E S V} {ds : List (Deed E S V)} (hnodup : xs.Nodup)
    (hlength : xs.length = ds.length) (hxs : "_" ∉ xs)
    (hds : ∀ d ∈ ds, d.starred = false ∧ ∀ x ∈ xs, ∀ v v', Unaware (M.bind x v) (d.store v')) (s : S) :
    M.Upto xs (sets ((M.node (.tuple (xs.map fun x => M.node (.name x w)) u), value) ::
      ds.zip (xs.map fun x => M.node (.name x w))) s) (sets [(M.node (.tuple ds u), value)] s) := by
  have hflags : (xs.map fun x => M.node (.name x w)).map starred = ds.map starred := by
    rw [map_congr_left fun d hd => (hds d hd).1, map_map]
    simp [Function.comp_def, node, hlength]
  simp only [sets, store_tuple, hflags, bind_assoc]
  refine upto_bind fun v s1 _ => upto_bind fun vs s2 hvs => ?_
  have hvs : vs.length = xs.length := (M.length_of_unpack hvs).trans (by rw [length_map, hlength])
  refine ⟨xs.zip vs, fun b hb => (of_mem_zip hb).1, ?_⟩
  have hfst : (xs.zip vs).map Prod.fst = xs := map_fst_zip (Nat.le_of_eq hvs.symm)
  have hsnd : (xs.zip vs).map Prod.snd = vs := map_snd_zip (Nat.le_of_eq hvs)
  have hnames : ds.zip xs = (ds.zip (xs.zip vs)).map (Prod.map id Prod.fst) := by rw [← zip_map_right, hfst]
  have hvalues : ds.zip vs = (ds.zip (xs.zip vs)).map (Prod.map id Prod.snd) := by rw [← zip_map_right, hsnd]
  rw [bind_ok (stores_names xs vs s2), zip_map_right, hnames, hvalues, map_map]
  refine sets_names (fun t ht => ?_) s2
  obtain ⟨hd, hb⟩ := of_mem_zip ht
  refine ⟨read_binds (hfst.symm ▸ hnodup) hb fun heq => hxs (heq ▸ (of_mem_zip hb).1), ?_⟩
  exact unaware_binds fun b hb => (hds t.1 hd).2 b.1 (of_mem_zip hb).1 b.2 _

end Machine

namespace Destructuring

variable {lang : Language} {s : Session}

def temporaries (lang : Language) (s : Session) (m : Nat) : List String :=
  numbered (if lang == .nim then "tmp" else "__tmp") (s.given "destructuring") (s.given "destructuring" + m)

theorem not_mem_temporaries {m : Nat} : "_" ∉ temporaries lang s m := by
  intro h
  obtain ⟨k, _, _, heq⟩ := mem_numbered.1 h
  have hword : "_".length < (if lang == .nim then "tmp" else "__tmp").length := by split <;> decide
  have hlength := congrArg String.length heq
  rw [String.length_append] at hlength
  omega

theorem temporaries_added {line : Option Nat} {as ns : List Node} {t : Session}
    (h : (as.mapM fun _ => do Lowering.nameOn line (← temporary lang "destructuring")) s = .ok ns t) : Grows [] s t ∧
      List.Forall₂ (fun x n => s.next ≤ n.id ∧ t.Has n.id (.name x .unset)) (temporaries lang s as.length) ns := by
  induction as generalizing s ns with
  | nil =>
    cases h
    exact ⟨.refl _, by simp [temporaries, numbered]⟩
  | cons a as ih =>
    rw [mapM_cons] at h
    obtain ⟨n, u, hn, h⟩ := bind_eq_ok.1 h
    obtain ⟨ns, v, hns, ⟨⟩⟩ := bind_eq_ok.1 h
    obtain ⟨x, s1, ⟨⟩, hname⟩ := bind_eq_ok.1 hn
    obtain ⟨⟨hle, hkeyed, hkept⟩, hnext, hhas⟩ := adds_freshAt _ _ _ _ _ _ hname
    obtain ⟨hgrows, hrest⟩ := ih hns
    have hnumbered : temporaries lang s (as.length + 1) =
        ((if lang == .nim then "tmp" else "__tmp") ++ toString (s.given "destructuring" + 1)) :: temporaries lang u as.length := by
      cases hname
      simp [temporaries, given, numbered, range'_succ]
    refine ⟨.trans ⟨hle, hkeyed, hkept⟩ hgrows, ?_⟩
    rw [length_cons, hnumbered]
    exact .cons ⟨hnext, hhas.kept hgrows⟩ (hrest.imp fun _ _ h => ⟨hle.trans h.1, h.2⟩)

variable {self : Node → Analysis (List Node)} {t : Session} {n tup value e : Node} {es out : List Node} {u : Usage}
  {line col : Option Nat}

/-- Temporaries take the place of the parts of the tuple, and each part is assigned from its temporary. -/
theorem viaTemporaries_block (hlang : lang ∉ [Language.cpp, .julia, .d, .dart, .v, .mojo]) (hs : s.Keyed)
    (hn : n.shape = .assign [tup] value) (htup : s.now tup = ⟨tup.id, line, col, .tuple (e :: es) u⟩) (hlt : tup.id < s.next)
    (he : (s.now e).isName = false) (h : viaTemporaries lang self n s = .ok out t) :
    ∃ b test temps assigns, out = [b] ∧ Grows [tup.id] s t ∧
      t.Has b.id (.cond test (n.id :: assigns.map Node.id) []) ∧ t.Has test (.constant (.bool true) false) ∧
      t.Has tup.id (.tuple (temps.map Node.id) u) ∧
      List.Forall₂ (fun x m => t.Has m.id (.name x .unset)) (temporaries lang s (es.length + 1)) temps ∧
      List.Forall₂ (fun p a => t.Has a.id (.assign [p.1.id] p.2.id)) ((e :: es).zip temps) assigns := by
  have hhead : [tup].head?.mapM current s = .ok (some ⟨tup.id, line, col, .tuple (e :: es) u⟩) s := by
    rw [← htup]
    rfl
  rw [viaTemporaries, hn] at h
  dsimp only at h
  rw [if_neg (by simpa using hlang), bind_ok hhead] at h
  dsimp only at h
  rw [bind_ok (current_ok s e), he] at h
  obtain ⟨temps, s1, htemps, h⟩ := bind_eq_ok.1 h
  obtain ⟨hgrows1, hnames⟩ := temporaries_added htemps
  obtain ⟨_, s2, hedit, h⟩ := bind_eq_ok.1 h
  obtain ⟨hgrows2, htemps⟩ := grows_edit (n := ⟨tup.id, line, col, _⟩) (hlt.trans_le hgrows1.next_le) hedit
  obtain ⟨assigns, s3, hassigns, h⟩ := bind_eq_ok.1 h
  obtain ⟨hgrows3, hassigns⟩ := Adds.mapM (g := fun p => .assign [p.1.id] p.2.id) (fun _ => adds_freshAt _ _ _) hassigns
  obtain ⟨b, _, hblock, ⟨⟩⟩ := bind_eq_ok.1 h
  obtain ⟨test, hgrows4, hb, htest⟩ := block_grows (hgrows3.keyed (hgrows2.keyed (hgrows1.keyed hs))) hblock
  have hgrows3 := hgrows3.trans hgrows4
  refine ⟨b, test, temps, assigns, rfl, hgrows1.mono.trans (hgrows2.trans hgrows3.mono), hb, htest, htemps.kept hgrows3, ?_, ?_⟩
  · refine hnames.imp fun x m hm => (hgrows2.has _ _ (fun heq => ?_) hm.2).kept hgrows3
    exact Nat.not_lt.2 hm.1 (mem_singleton.1 heq ▸ hlt)
  · exact hassigns.imp fun _ _ h => h.kept hgrows4

def fields : Node :=
  ⟨7, some 1, some 0, .assign
    [⟨5, some 1, some 0, .tuple
      [⟨2, some 1, some 0, .attribute ⟨1, some 1, some 0, .name "a" .load⟩ "b" .store⟩,
        ⟨4, some 1, some 5, .attribute ⟨3, some 1, some 5, .name "a" .load⟩ "c" .store⟩] .store⟩]
    ⟨6, some 1, some 11, .name "d" .load⟩⟩

end Destructuring
end Polyglot
