import Polyglot.Lowering.Names
import Polyglot.Proofs.Search

/-!
# Names in upper case

Upper case is reached at once: the first character of what a letter becomes stays as it is. So a name that was put into
camel case, or whose first letter was raised, is not changed again. It begins with a digit, or is empty, exactly if that is
true of the old name without the underscores before it.
-/
namespace Polyglot

open List

namespace Text

/-! ### Runs of characters -/

/-- The characters from `lo` to `hi` in steps are none of those in another row of characters. -/
def misses (lo hi step lo' hi' step' : Nat) : Bool :=
  hi.blt lo' || hi'.blt lo || ((step.beq 2 || lo.beq hi) && (step'.beq 2 || lo'.beq hi') && ((lo + lo') % 2).beq 1)

/-- The characters from `lo` to `hi` in steps are in upper case. -/
def still (lo hi step : Nat) : Bool :=
  (Nat.ble 0x41 lo && hi.ble 0x5a) ||
    (Nat.ble 0x80 lo && (hi.blt 0xd800 || Nat.ble 0xe000 lo && hi.blt 0x110000) &&
      upperRuns.toList.all (fun r => misses lo hi step r.1 r.2.1 r.2.2.1) &&
      upperWide.toList.all fun e => misses lo hi step e.1 e.1 1)

theorem upperRuns_still : upperRuns.toList.all (fun r => still (Int.ofNat r.1 + r.2.2.2).toNat
    (Int.ofNat r.2.1 + r.2.2.2).toNat r.2.2.1) = true := by
  decide +kernel

theorem upperWide_still : upperWide.toList.all (fun e => match e.2 with
    | [] => false
    | h :: hs => still h h 1 && !(hs.map Char.ofNat).contains '_') = true := by
  decide +kernel

variable {lo hi step lo' hi' step' m : Nat} {c h : Char}

theorem not_covers (hmiss : misses lo hi step lo' hi' step' = true) (hlo : lo ≤ m) (hhi : m ≤ hi)
    (hstep : (m - lo) % step = 0) : ¬ (lo' ≤ m ∧ m ≤ hi' ∧ (m - lo') % step' = 0) := by
  simp only [misses, Bool.or_eq_true, Bool.and_eq_true, Nat.blt_eq, Nat.beq_eq] at hmiss
  rintro ⟨hlo', hhi', hstep'⟩
  rcases hmiss with (hmiss | hmiss) | ⟨⟨hodd, hodd'⟩, hparity⟩
  · omega
  · omega
  · have heven : (m - lo) % 2 = 0 := by
      rcases hodd with rfl | rfl
      · exact hstep
      · omega
    have heven' : (m - lo') % 2 = 0 := by
      rcases hodd' with rfl | rfl
      · exact hstep'
      · omega
    omega

/-- A character that stays in upper case, and is no digit and no underscore. -/
structure Raised (c : Char) : Prop where
  upper_eq : upperChar c = [c]
  not_underscore : c ≠ '_'
  not_digit : c.isDigit = false

theorem isDigit_eq_false (hc : 0x3a ≤ c.toNat) : c.isDigit = false := by
  have hval : ¬ c.val ≤ 57 := by
    exact Nat.not_le.2 (Nat.lt_of_lt_of_le (by decide) hc)
  simp [Char.isDigit, hval]

theorem ascii_upper : ∀ n < 0x80, (Char.ofNat n).toUpper.toNat < 0x80 ∧
    (Char.ofNat n).toUpper.toUpper = (Char.ofNat n).toUpper ∧ ((Char.ofNat n).toUpper = '_' → Char.ofNat n = '_') ∧
    (Char.ofNat n).toUpper.isDigit = (Char.ofNat n).isDigit ∧
    (0x41 ≤ n → n ≤ 0x5a → (Char.ofNat n).toUpper = Char.ofNat n) := by
  decide

theorem raised_of_still (hstill : still lo hi step = true) (hlo : lo ≤ m) (hhi : m ≤ hi) (hstep : (m - lo) % step = 0) :
    Raised (Char.ofNat m) := by
  simp only [still, Bool.or_eq_true, Bool.and_eq_true, Nat.blt_eq, Nat.ble_eq, all_eq_true] at hstill
  have htoNat : (Char.ofNat m).toNat = m := by
    have hvalid : m.isValidChar := by
      omega
    rw [Char.ofNat, dif_pos hvalid]
    rfl
  have hne : Char.ofNat m ≠ '_' := by
    intro heq
    rw [heq] at htoNat
    have : m = 0x5f := htoNat.symm
    omega
  refine ⟨?_, hne, isDigit_eq_false (by omega)⟩
  rcases hstill with hstill | ⟨⟨⟨h80, _⟩, hruns⟩, hwide⟩
  · have hupper := (ascii_upper m (by omega)).2.2.2.2 (by omega) (by omega)
    rw [upperChar, htoNat, if_pos (by omega), hupper]
  · have hrun : upperRuns.find? (fun r => r.1 ≤ m && m ≤ r.2.1 && (m - r.1) % r.2.2.1 == 0) = none := by
      refine Array.find?_eq_none.2 fun r hr hcover => not_covers (hruns r (Array.mem_toList_iff.2 hr)) hlo hhi hstep ?_
      simpa [and_assoc] using hcover
    have hkey : upperWide.find? (fun e => e.1 == m) = none := by
      refine Array.find?_eq_none.2 fun e he hkey => not_covers (hwide e (Array.mem_toList_iff.2 he)) hlo hhi hstep ?_
      simp [beq_iff_eq.1 hkey]
    rw [upperChar, htoNat, if_neg (by omega), recased, htoNat, hkey, shifted, hrun]

theorem upperChar_spec (c : Char) : ∃ h hs, upperChar c = h :: hs ∧ upperChar h = [h] ∧ ('_' ∈ h :: hs → c = '_') ∧
    h.isDigit = c.isDigit := by
  by_cases hascii : c.toNat < 0x80
  · obtain ⟨hlt, htwice, hunderscore, hdigit, _⟩ := ascii_upper c.toNat hascii
    rw [Char.ofNat_toNat] at hlt htwice hunderscore hdigit
    refine ⟨c.toUpper, [], if_pos hascii, ?_, ?_, hdigit⟩
    · rw [upperChar, if_pos hlt, htwice]
    · exact fun h => hunderscore (mem_singleton.1 h).symm
  · have hdigit : c.isDigit = false := isDigit_eq_false (by omega)
    have hraised {h : Char} (hh : Raised h) (hs : List Char) (hnot : '_' ∉ hs) :
        upperChar h = [h] ∧ ('_' ∈ h :: hs → c = '_') ∧ h.isDigit = c.isDigit :=
      ⟨hh.upper_eq, fun hmem => ((mem_cons.1 hmem).elim (absurd ·.symm hh.not_underscore) (absurd · hnot)),
        hh.not_digit.trans hdigit.symm⟩
    cases hwide : upperWide.find? (·.1 == c.toNat) with
    | some e =>
      have he := all_eq_true.1 upperWide_still e (Array.mem_toList_iff.2 (Array.mem_of_find?_eq_some hwide))
      have hupper : upperChar c = e.2.map Char.ofNat := by rw [upperChar, if_neg hascii, recased, hwide]
      cases hletters : e.2 with
      | nil => simp [hletters] at he
      | cons h hs =>
        simp only [hletters, Bool.and_eq_true, Bool.not_eq_true'] at he
        rw [hletters] at hupper
        refine ⟨Char.ofNat h, hs.map Char.ofNat, hupper, hraised ?_ _ ?_⟩
        · exact raised_of_still he.1 (Nat.le_refl h) (Nat.le_refl h) (by simp)
        · exact fun hmem => by simp [hmem] at he
    | none =>
      cases hrun : upperRuns.find? (fun r => r.1 ≤ c.toNat && c.toNat ≤ r.2.1 && (c.toNat - r.1) % r.2.2.1 == 0) with
      | some r =>
        obtain ⟨lo, hi, step, shift⟩ := r
        have hstill := all_eq_true.1 upperRuns_still _ (Array.mem_toList_iff.2 (Array.mem_of_find?_eq_some hrun))
        have hcover := Array.find?_some hrun
        have hupper : upperChar c = [Char.ofNat (Int.ofNat c.toNat + shift).toNat] := by
          rw [upperChar, if_neg hascii, recased, hwide, shifted, hrun]
        simp only [Bool.and_eq_true, decide_eq_true_eq, beq_iff_eq] at hcover hstill
        have hpositive : 0x41 ≤ (Int.ofNat lo + shift).toNat := by
          simp only [still, Bool.or_eq_true, Bool.and_eq_true, Nat.ble_eq] at hstill
          omega
        have hsteps : (Int.ofNat c.toNat + shift).toNat - (Int.ofNat lo + shift).toNat = c.toNat - lo := by
          simp only [Int.ofNat_eq_natCast] at hpositive ⊢
          omega
        refine ⟨_, [], hupper, hraised (raised_of_still hstill ?_ ?_ (hsteps ▸ hcover.2)) [] not_mem_nil⟩
        · simp only [Int.ofNat_eq_natCast]
          omega
        · simp only [Int.ofNat_eq_natCast]
          omega
      | none =>
        have hupper : upperChar c = [c] := by
          rw [upperChar, if_neg hascii, recased, hwide, shifted, hrun, Char.ofNat_toNat]
        exact ⟨c, [], hupper, hupper, fun h => (mem_singleton.1 h).symm, rfl⟩

end Text

/-! ### Names -/

namespace Names

open Text

variable {x y : String}

def raise : List Char → List Char
  | [] => []
  | c :: cs => upperChar c ++ cs

/-- A name without the underscores before it. -/
def bare (x : String) : List Char := x.toList.dropWhile (· == '_')

/-- What begins like a name: not empty, and not with a digit. -/
def BeginsWell (cs : List Char) : Prop := ∃ c ∈ cs.head?, c.isDigit = false

theorem toList_capitalFirst (x y : String) (h : x = "" → y = "") : ((capitalFirst x).getD y).toList = raise x.toList := by
  unfold capitalFirst
  cases hx : x.toList with
  | nil => rw [h (String.toList_inj.1 hx)]; rfl
  | cons c cs => simp [dropFirst, raise, upper]

/-- A name in upper case, made of another one. -/
structure Public (x y : String) : Prop where
  not_underscore : '_' ∉ y.toList
  begins : (bare x = [] ∧ y.toList = []) ∨ ∃ c cs ys, bare x = c :: cs ∧ y.toList = upperChar c ++ ys

theorem not_mem_raise {cs : List Char} (h : '_' ∉ cs) : '_' ∉ raise cs := by
  cases cs with
  | nil => exact h
  | cons c cs =>
    obtain ⟨hc, hcs⟩ := not_or.1 (fun hor => h (mem_cons.2 hor))
    obtain ⟨u, us, hupper, _, hunderscore, _⟩ := upperChar_spec c
    rw [raise, hupper, mem_append, not_or]
    exact ⟨fun hmem => hc (hunderscore hmem).symm, hcs⟩

theorem flatMap_raise (cs : List Char) :
    (cs.dropWhile (· == '_') = [] ∧ (pieces ['_'] 0 [] cs).flatMap raise = []) ∨
      ∃ c ds ys, cs.dropWhile (· == '_') = c :: ds ∧ (pieces ['_'] 0 [] cs).flatMap raise = upperChar c ++ ys := by
  induction cs with
  | nil => exact .inl ⟨rfl, rfl⟩
  | cons d cs ih =>
    by_cases hd : d = '_'
    · have hcut : pieces ['_'] 0 [] (d :: cs) = [] :: pieces ['_'] 0 [] cs := by simp [pieces, afterPrefix?, hd]
      rwa [hcut, dropWhile_cons_of_pos (by simp [hd]), flatMap_cons, raise, nil_append]
    · have hhead : (pieces ['_'] 0 [] (d :: cs)).head? = some ([].reverse ++ (d :: cs).takeWhile (· != '_')) := head?_pieces
      obtain ⟨ps, hps⟩ := head?_eq_some_iff.1 hhead
      refine .inr ⟨d, cs, cs.takeWhile (· != '_') ++ ps.flatMap raise, dropWhile_cons_of_neg (by simp [hd]), ?_⟩
      rw [hps, reverse_nil, nil_append, takeWhile_cons_of_pos (by simp [hd]), flatMap_cons, raise,
        append_assoc]

theorem occursIn_underscore : occursIn "_" x = true ↔ '_' ∈ x.toList := by
  rw [occursIn_iff]
  exact singleton_infix_iff ..

theorem toList_camelCase (h : camelCase x ≠ x) : (camelCase x).toList = (pieces ['_'] 0 [] x.toList).flatMap raise := by
  unfold camelCase at h ⊢
  split at h
  · exact absurd rfl h
  · split at h
    · exact absurd rfl h
    · rename_i h1 h2
      rw [if_neg h1, if_neg h2, split_char (c := '_') rfl, String.toList_join, List.map_map, flatMap_map]
      refine flatMap_congr fun p _ => (toList_capitalFirst _ "" fun _ => rfl).trans ?_
      rw [String.toList_ofList]

theorem public_camelCase (h : camelCase x ≠ x) : Public x (camelCase x) := by
  refine ⟨?_, ?_⟩
  · rw [toList_camelCase h]
    intro hmem
    obtain ⟨p, hp, hmem⟩ := mem_flatMap.1 hmem
    exact not_mem_raise (not_mem_of_mem_pieces not_mem_nil _ hp) hmem
  · rw [toList_camelCase h]
    exact flatMap_raise x.toList

theorem public_capitalFirst (h : '_' ∉ x.toList) : Public x ((capitalFirst x).getD x) := by
  have hbare : bare x = x.toList := by
    unfold bare
    cases hx : x.toList with
    | nil => rfl
    | cons c cs => exact dropWhile_cons_of_neg fun hc => h (hx ▸ mem_cons.2 (.inl (beq_iff_eq.1 hc).symm))
  refine ⟨?_, ?_⟩
  · rw [toList_capitalFirst x x fun h => h]
    exact not_mem_raise h
  · rw [toList_capitalFirst x x fun h => h, hbare]
    cases x.toList with
    | nil => exact .inl ⟨rfl, rfl⟩
    | cons c cs => exact .inr ⟨c, cs, cs, rfl, rfl⟩

namespace Public

theorem camelCase_eq (h : Public x y) : camelCase y = y := by
  have hnot : occursIn "_" y = false := Bool.eq_false_iff.2 fun hocc => h.not_underscore (occursIn_underscore.1 hocc)
  rw [camelCase, hnot]
  rfl

theorem capitalFirst_eq (h : Public x y) : (capitalFirst y).getD y = y := by
  refine String.toList_inj.1 ((toList_capitalFirst y y fun h => h).trans ?_)
  rcases h.begins with ⟨_, hy⟩ | ⟨c, _, ys, _, hy⟩
  · rw [hy, raise]
  · obtain ⟨u, us, hupper, hstays, _⟩ := upperChar_spec c
    rw [hy, hupper, cons_append, raise, hstays]
    rfl

/-- A name in upper case begins well if the other name does after its underscores. -/
theorem beginsWell_iff (h : Public x y) : BeginsWell y.toList ↔ BeginsWell (bare x) := by
  rcases h.begins with ⟨hx, hy⟩ | ⟨c, _, ys, hx, hy⟩
  · rw [hx, hy]
  · obtain ⟨u, us, hupper, _, _, hdigit⟩ := upperChar_spec c
    rw [hx, hy, hupper]
    simp [BeginsWell, hdigit]

end Public

end Names
end Polyglot
