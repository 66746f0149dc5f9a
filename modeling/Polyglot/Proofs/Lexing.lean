import Polyglot.Proofs.Search
import Polyglot.Tree.Token

/-!
# What a scan keeps of a text

A lexeme and what follows it make up the text it was cut from. So a text without opening brackets has no token with one,
and if such a text is put in brackets, the bracket that opens it is the only one.
-/
namespace Polyglot

open List

variable {cs rest body : List Char} {o : String}

namespace Token

theorem append_of_operator? (h : operator? cs = some (o, rest)) : o.toList ++ rest = cs := by
  obtain ⟨o', -, ho'⟩ := exists_of_findSome?_eq_some h
  obtain ⟨rest', hrest', ⟨⟩⟩ := Option.map_eq_some_iff.1 ho'
  exact (Text.eq_append_of_afterPrefix? hrest').symm

theorem append_of_stringBody {quote : Char} {triple : Bool} {acc : List Char}
    (h : stringBody quote triple cs acc = some (body, rest)) : body ++ rest = acc.reverse ++ cs := by
  fun_induction stringBody quote triple cs acc with
  | case1 | case5 | case7 => cases h
  | case3 | case6 =>
    cases h
    simp_all
  | case2 _ _ _ ih | case4 _ _ _ _ _ _ _ _ _ ih | case8 _ _ _ _ _ _ ih => simpa using ih h

theorem append_of_stringFrom (h : stringFrom cs = some (body, rest)) : body ++ rest = cs := by
  unfold stringFrom at h
  split at h
  case h_5 => cases h
  all_goals simpa using append_of_stringBody h

theorem digitRun_append (p : Char → Bool) (cs : List Char) : (digitRun p cs).1 ++ (digitRun p cs).2 = cs := by
  fun_induction digitRun p cs <;> simp_all

theorem append_of_basedDigits {p : Char → Bool} {ds : List Char} (h : basedDigits p cs = some (ds, rest)) :
    ds ++ rest = cs := by
  unfold basedDigits at h
  have key := digitRun_append p
  grind

theorem exponentPart_append (cs : List Char) : (exponentPart cs).1 ++ (exponentPart cs).2 = cs := by
  have key := digitRun_append Char.isDigit
  unfold exponentPart
  grind

theorem append_of_decimal {text : List Char} (h : numberFrom.decimal cs = some (text, rest)) : text ++ rest = cs := by
  have key := digitRun_append Char.isDigit
  have key' := exponentPart_append
  unfold numberFrom.decimal at h
  grind

theorem append_of_numberFrom {text : List Char} (h : numberFrom cs = some (text, rest)) : text ++ rest = cs := by
  have hends {o : Option (List Char × List Char)}
      (ho : (o.bind fun x => if endsNumber x.2 then some (x.1, x.2) else none) = some (text, rest)) : o = some (text, rest) := by
    obtain ⟨x, rfl, hx⟩ := Option.bind_eq_some_iff.1 ho
    grind
  have hbased {p : Char → Bool} {x : Char} {r : List Char}
      (ho : (basedDigits p r).map (fun d => ('0' :: x :: d.1, d.2)) = some (text, rest)) : text ++ rest = '0' :: x :: r := by
    obtain ⟨⟨ds, r'⟩, hds, ⟨⟩⟩ := Option.map_eq_some_iff.1 ho
    simp [append_of_basedDigits hds]
  unfold numberFrom at h
  split at h
  · split at h
    · exact hbased (hends h)
    split at h
    · exact hbased (hends h)
    split at h
    · exact hbased (hends h)
    · exact append_of_decimal (hends h)
  · exact append_of_decimal (hends h)

theorem margin_suffix (cs : List Char) (k a n : Nat) : (margin cs k a n).2.2.2 <:+ cs := by
  fun_induction margin cs k a n with
  | case1 r k a n ih | case2 r k a n ih | case3 r _ _ n ih => exact ih.trans (suffix_cons _ _)
  | case4 r k a n _ _ n' r' h ih =>
    rw [h] at ih
    exact ih.trans ((suffix_cons _ _).trans (suffix_cons _ _))
  | case5 => exact suffix_rfl

theorem mem_of_mem_unixLines {c : Char} (h : c ∈ unixLines cs) : c = '\n' ∨ c ∈ cs := by
  fun_induction unixLines cs <;> grind

/-- The only opening bracket among the tokens is at most the first of them. -/
def Mild (tokens : Array Token) : Prop :=
  ∀ i, '(' ∈ (tokens.getD i ⟨.stop, "", 0, 0⟩).text.toList → i = 0 ∧ (tokens.getD i ⟨.stop, "", 0, 0⟩).kind = .op

variable {tokens : Array Token}

theorem Mild.push (h : Mild tokens) {t : Token} (ht : '(' ∉ t.text.toList) : Mild (tokens.push t) := by
  intro i
  have hi := h i
  simp only [Array.getD_eq_getD_getElem?, Array.getElem?_push] at hi ⊢
  split
  · exact fun hmem => absurd hmem ht
  · exact hi

namespace Scan

/-- A scan that has no opening bracket before it, and behind it at most the first token. -/
structure Mild (s : Scan) : Prop where
  rest : '(' ∉ s.rest
  tokens : Token.Mild s.tokens

variable {s s' : Scan} {text : List Char}

variable (h : s.Mild)
include h

theorem Mild.emit (hcut : text ++ rest = s.rest) (kind : Kind) : (s.emit kind text rest).Mild := by
  have hrest := h.rest
  rw [← hcut, mem_append, not_or] at hrest
  exact ⟨hrest.2, h.tokens.push (by simpa using hrest.1)⟩

theorem Mild.skip (hrest : rest <:+ s.rest) : (s.skip text rest).Mild :=
  ⟨fun hmem => h.rest (hrest.mem hmem), h.tokens⟩

theorem Mild.mark (kind : Kind) : (s.mark kind).Mild := ⟨h.rest, h.tokens.push (by simp)⟩

theorem Mild.foldl {α : Type} {f : Scan → α → Scan} (hf : ∀ s a, s.Mild → (f s a).Mild) (as : List α) :
    (as.foldl f s).Mild := by
  induction as generalizing s with
  | nil => exact h
  | cons a as ih => exact ih (hf s a h)

theorem Mild.congr (hrest : s'.rest = s.rest) (htokens : s'.tokens = s.tokens) : s'.Mild :=
  ⟨hrest ▸ h.rest, htokens ▸ h.tokens⟩

theorem Mild.begin (hs : s.begin = .ok s') : s'.Mild := by
  have hsuffix := margin_suffix s.rest 0 0 0
  unfold Scan.begin at hs
  generalize margin s.rest 0 0 0 = m at hs hsuffix
  obtain ⟨k, a, n, r⟩ := m
  have hskip : (s.skip (s.rest.take n) r).Mild := h.skip hsuffix
  dsimp only at hs
  split at hs
  · cases hs
    exact hskip.congr rfl rfl
  · cases hs
    exact hskip.skip (suffix_cons _ _)
  · cases hs
    exact hskip.skip (drop_suffix _ _)
  split at hs
  · cases hs
    exact hskip.congr rfl rfl
  split at hs
  · split at hs
    · cases hs
      exact hskip.congr rfl rfl
    · cases hs
  split at hs
  · split at hs
    · cases hs
      exact (hskip.mark .indent).congr rfl rfl
    · cases hs
  · cases hclose : closeBlocks k a s.indents 0 with
    | error f =>
      rw [hclose] at hs
      cases hs
    | ok closed =>
      rw [hclose] at hs
      cases hs
      exact (hskip.foldl (fun _ _ h => h.mark .dedent) (List.range closed.2)).congr rfl rfl

theorem Mild.bracket (hs : s.bracket o = .ok s') : s'.Mild := by
  have hsame : s'.rest = s.rest ∧ s'.tokens = s.tokens := by
    unfold Scan.bracket at hs
    grind
  exact h.congr hsame.1 hsame.2

theorem Mild.token (hs : s.token = .ok s') : s'.Mild := by
  unfold Scan.token at hs
  split at hs
  · cases hs
    exact h
  · rename_i r hrest
    have hcut : ['\n'] ++ r = s.rest := hrest.symm
    split at hs
    · cases hs
      exact (h.emit hcut .newline).congr rfl rfl
    · cases hs
      exact h.skip (hrest ▸ suffix_cons _ _)
  · rename_i r hrest
    cases hs
    exact h.skip (hrest ▸ (suffix_cons _ _).trans (suffix_cons _ _))
  rename_i c r _ hrest
  split at hs
  · cases hs
    exact h.skip (hrest ▸ suffix_cons _ _)
  split at hs
  · cases hs
    exact h.skip (drop_suffix _ _)
  split at hs
  · extract_lets word after marks at hs
    have hcut : word ++ after = s.rest := prefix_iff_eq_append.1 ( takeWhile_prefix _)
    have hname : (s.emit .name word after).Mild := h.emit hcut .name
    clear_value word after
    split at hs
    · split at hs
      · split at hs
        · rename_i body rest hbody
          cases hs
          exact h.emit (by rw [append_assoc, append_of_stringFrom hbody, hcut]) .string
        · cases hs
      · cases hs
        exact hname
    · cases hs
      exact hname
  split at hs
  · split at hs
    · cases hs
      exact h.emit (append_of_stringFrom ‹_›) .string
    · cases hs
  split at hs
  · split at hs
    · cases hs
      exact h.emit (append_of_numberFrom ‹_›) .number
    · cases hs
  · split at hs
    · exact (h.emit (append_of_operator? ‹_›) .op).bracket hs
    · cases hs

theorem Mild.finish (hs : s.finish = .ok tokens) : Token.Mild tokens := by
  unfold Scan.finish at hs
  split at hs
  · cases hs
  extract_lets ended closed at hs
  have hended : ended.Mild := by
    unfold ended
    split
    · split
      · exact h
      · exact h.mark .newline
    · exact h
  have hclosed : closed.Mild := by
    refine hended.foldl (fun s block h => ?_) _
    dsimp only
    split
    · exact h
    · exact h.mark .dedent
  cases hs
  exact (hclosed.mark .stop).tokens

theorem Mild.scanAll {n : Nat} (hs : scanAll n s = .ok tokens) : Token.Mild tokens := by
  induction n generalizing s with
  | zero => exact h.finish hs
  | succ n ih =>
    rw [Token.scanAll] at hs
    split at hs
    · exact h.finish hs
    have hnext {next : Except Fault Scan} (hmild : ∀ t, next = .ok t → t.Mild)
        (hs : (next >>= fun t => Token.scanAll n t) = .ok tokens) : Token.Mild tokens := by
      cases next with
      | error f => cases hs
      | ok t => exact ih (hmild t rfl) hs
    split at hs
    · exact hnext (fun _ => h.begin) hs
    · exact hnext (fun _ => h.token) hs

end Scan

theorem mild_of_scanAt {line col : Nat} (hcs : '(' ∉ cs) (h : scanAt line col cs = .ok tokens) : Mild tokens :=
  Scan.Mild.scanAll ⟨hcs, by simp [Mild]⟩ h

theorem mild_of_scan {text : String} (htext : '(' ∉ text.toList) (h : scan text = .ok tokens) : Mild tokens := by
  unfold scan at h
  dsimp only at h
  split at h
  · cases h
  refine mild_of_scanAt (fun hmem => ?_) h
  obtain heq | hmem := mem_of_mem_unixLines hmem
  · exact absurd heq (by decide)
  · exact htext hmem

theorem mild_of_scanAt_bracketed {line col : Nat} (hcs : '(' ∉ cs) (h : scanAt line col ('(' :: cs ++ [')']) = .ok tokens) :
    Mild tokens := by
  let opened : Scan :=
    { rest := '(' :: (cs ++ [')']), line, col, brackets := [], indents := [(0, 0)], fresh := false, tokens := #[] }
  have hfuel : 2 * ('(' :: cs ++ [')']).length + 2 = 2 * cs.length + 4 + 2 := by
    simp only [cons_append, length_cons, length_append, length_nil]
    omega
  rw [scanAt, hfuel] at h
  change opened.token >>= scanAll (2 * cs.length + 4) = _ at h
  refine Scan.Mild.scanAll ⟨by simpa [Scan.emit] using hcs, ?_⟩ h
  intro i hi
  cases i with
  | zero => exact ⟨rfl, rfl⟩
  | succ i => simp [opened, Scan.emit] at hi

end Token
end Polyglot
