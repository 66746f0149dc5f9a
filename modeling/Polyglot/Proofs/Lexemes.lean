import Polyglot.Proofs.Precedence

/-!
# Texts cut into lexemes

A text is cut into the longest lexemes that can be: words, and the punctuation of a language. What is written piece by
piece is cut into these pieces if none of them goes on with what follows it.
-/
namespace Polyglot.Lexemes

open List Formula

def continues (P : List String) : List Char → Char → Bool
  | [], _ => false
  | d :: w, c => if isWordChar d then isWordChar c else P.contains (String.ofList (d :: w ++ [c]))

def cut (P : List String) : List Char → List Char → List (List Char)
  | w, [] => finished w
  | w, c :: cs =>
    if continues P w c then cut P (w ++ [c]) cs else finished w ++ cut P (if c.isWhitespace then [] else [c]) cs

def common : List String :=
  ["\x7b", "\x7d", "(", ")", "[", "]", ";", ":", ",", ".", "..", "...", "+", "+=", "-", "-=", "*", "*=", "/", "/=", "//",
   "/*", "%", "%=", "^", "^=", "!", "!=", "&", "&=", "&&", "|", "|=", "||", "<", "<=", "<<", "<<=", ">", ">=", ">>",
   ">>=", "=", "==", "~", "@", "#", "$", "?"]

def brackets : List Char := ['(', ')', '[', ']']

/-- Whether punctuation never goes on with a word, a blank or an opening bracket, and brackets stand alone. -/
def regular (P : List String) : Bool :=
  P.all fun p => (p.toList.tail.all fun x => !(isWordChar x || x == ' ' || x == '(')) &&
    (p.toList.length == 1 || p.toList.head?.all fun x => !brackets.contains x)

variable {P : List String} {w cs ds : List Char} {ls ms : List (List Char)} {c d : Char}

/-! ### Where lexemes end -/

theorem continues_punctuation (hd : isWordChar d = false) :
    continues P (d :: w) c = true ↔ ∃ p ∈ P, p.toList = d :: w ++ [c] := by
  rw [continues, if_neg (by simp [hd]), contains_iff_mem]
  constructor
  · intro h
    exact ⟨_, h, String.toList_ofList⟩
  · rintro ⟨p, hp, hlist⟩
    rwa [← hlist, String.ofList_toList]

theorem punctuation_ends (hP : regular P = true) (hd : isWordChar d = false)
    (hc : isWordChar c = true ∨ c = ' ' ∨ c = '(') : continues P (d :: w) c = false := by
  rw [Bool.eq_false_iff, Ne, continues_punctuation hd]
  rintro ⟨p, hp, hlist⟩
  have hends := (Bool.and_eq_true_iff.1 (all_eq_true.1 hP p hp)).1
  have hends := all_eq_true.1 hends c (by rw [hlist]; simp)
  rcases hc with hc | rfl | rfl
  · simp [hc] at hends
  · simp at hends
  · simp at hends

theorem not_word_of_bracket (hd : d ∈ brackets) : isWordChar d = false := by
  have hall : (brackets.all fun d => !isWordChar d) = true := by decide
  simpa using all_eq_true.1 hall d hd

theorem bracket_ends (hP : regular P = true) (hd : d ∈ brackets) : continues P [d] c = false := by
  rw [Bool.eq_false_iff, Ne, continues_punctuation (not_word_of_bracket hd)]
  rintro ⟨p, hp, hlist⟩
  have halone := (Bool.and_eq_true_iff.1 (all_eq_true.1 hP p hp)).2
  simp [hlist, hd] at halone

theorem word_ends (hw : w.all isWordChar = true) (hc : isWordChar c = false) : continues P w c = false := by
  cases w with
  | nil => rfl
  | cons d w =>
    rw [all_cons, Bool.and_eq_true] at hw
    rw [continues, if_pos hw.1, hc]

theorem not_blank_of_word (hd : isWordChar d = true) : d.isWhitespace = false := by
  rw [Bool.eq_false_iff]
  intro hblank
  simp only [Char.isWhitespace, Bool.or_eq_true, decide_eq_true_eq] at hblank
  obtain ((rfl | rfl) | rfl) | rfl := hblank <;> cases hd

/-! ### Pieces -/

def Apart (P : List String) (ls : List (List Char)) (rest : List Char) : Prop :=
  ∀ w ∈ ls.getLast?, ∀ c ∈ rest.head?, continues P w c = false

/-- A text that is cut into some lexemes, whatever follows apart from it. -/
def Lexes (P : List String) (cs : List Char) (ls : List (List Char)) : Prop :=
  ∀ rest, Apart P ls rest → cut P [] (cs ++ rest) = ls ++ cut P [] rest

theorem Lexes.append (h : Lexes P cs ls) (h' : Lexes P ds ms) (hds : ds ≠ []) (hapart : Apart P ls ds) :
    Lexes P (cs ++ ds) (ls ++ ms) := by
  intro rest hrest
  have hhead : (ds ++ rest).head? = ds.head? := by
    cases ds with
    | nil => exact absurd rfl hds
    | cons d ds => rfl
  have hrest' : Apart P ms rest := fun w hw => hrest w (by rw [getLast?_append, hw]; rfl)
  rw [append_assoc, h (ds ++ rest) (by rwa [Apart, hhead]), h' rest hrest', append_assoc]

theorem Lexes.cut_eq (h : Lexes P cs ls) : cut P [] cs = ls := by
  have hcut := h [] (by rintro w - c ⟨⟩)
  rwa [append_nil, cut, finished, append_nil] at hcut

theorem lexes_blank : Lexes P [' '] [] := fun _ _ => rfl

def grows (P : List String) : List Char → List Char → Bool
  | _, [] => true
  | w, c :: cs => continues P w c && grows P (w ++ [c]) cs

theorem cut_of_grows (hw : w ≠ []) (h : grows P w cs = true) {rest : List Char} (hrest : Apart P [w ++ cs] rest) :
    cut P w (cs ++ rest) = (w ++ cs) :: cut P [] rest := by
  induction cs generalizing w with
  | nil =>
    have hfinished : finished w = [w] := by
      cases w with
      | nil => exact absurd rfl hw
      | cons d w => rfl
    rw [append_nil] at hrest ⊢
    cases rest with
    | nil => rw [append_nil, cut, hfinished]; rfl
    | cons c rest =>
      rw [nil_append, cut, hrest w rfl c rfl, if_neg Bool.false_ne_true, hfinished]
      rfl
  | cons c cs ih =>
    rw [grows, Bool.and_eq_true] at h
    rw [append_cons w c cs] at hrest ⊢
    rw [cons_append, cut, if_pos h.1, ih (by simp) h.2 hrest]

theorem lexes_single (hd : d.isWhitespace = false) (h : grows P [d] w = true) : Lexes P (d :: w) [d :: w] := by
  intro rest hrest
  change cut P (if d.isWhitespace then [] else [d]) (w ++ rest) = _
  rw [hd, if_neg Bool.false_ne_true, cut_of_grows (by simp) h hrest]
  rfl

theorem grows_word (hw : w.all isWordChar = true) (hne : w ≠ []) (hcs : cs.all isWordChar = true) : grows P w cs = true := by
  induction cs generalizing w with
  | nil => rfl
  | cons c cs ih =>
    rw [all_cons, Bool.and_eq_true] at hcs
    have hcontinues : continues P w c = true := by
      cases w with
      | nil => exact absurd rfl hne
      | cons d w =>
        rw [all_cons, Bool.and_eq_true] at hw
        rw [continues, if_pos hw.1, hcs.1]
    rw [grows, hcontinues, ih (by simp [hw, hcs.1]) (by simp) hcs.2]
    rfl

theorem lexes_word (hne : w ≠ []) (hw : w.all isWordChar = true) : Lexes P w [w] := by
  obtain ⟨d, ds, rfl⟩ := exists_cons_of_ne_nil hne
  rw [all_cons, Bool.and_eq_true] at hw
  exact lexes_single (not_blank_of_word hw.1) (grows_word (by simp [hw.1]) (by simp) hw.2)

end Polyglot.Lexemes
