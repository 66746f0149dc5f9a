import Polyglot.Proofs.Effects
import Polyglot.Proofs.Grouping

/-!
# The text of a formula

Operators that join conditions are written without blanks, other operators between two of them. Cut into the longest
lexemes that can be, the text of a formula gives back its tokens: nowhere do two of them run together.
-/
namespace Polyglot.Formula

open List Lexemes String Script

variable {f g : Formula} {ts : List Token} {w : String}

def spaced (o : Operator) : String := if o.isLogic then o.symbol else " " ++ o.symbol ++ " "

def inBrackets (b : Bool) (text : String) : String := if b then "(" ++ text ++ ")" else text

def text : Formula → String
  | .word w => w
  | .unary s f => s.symbol ++ inBrackets (signBrackets s f) f.text
  | .binary o l r => inBrackets (brackets o l) l.text ++ spaced o ++ inBrackets (brackets o r) r.text

/-- Whether a word is read as an operand. -/
def isOperand (w : String) : Bool := !w.toList.isEmpty && w.toList.all isWordChar && !operatorWords.contains w

/-- Whether the words of a formula are read as operands. -/
def proper : Formula → Bool
  | .word w => isOperand w
  | .unary _ f => f.proper
  | .binary _ l r => l.proper && r.proper

/-! ### Texts as terms -/

theorem isWord_of_isOperand (hw : isOperand w = true) : Polyglot.isWord w = true := (Bool.and_eq_true_iff.1 hw).1

theorem text_group (x : Bool) (t : Term) : script.text (group x t) = inBrackets x (script.text t) := by cases x <;> rfl

theorem text_term (f : Formula) : script.text f.term = f.text := by
  induction f with
  | word => rfl
  | unary s f ih => rw [term, Script.text, text_group, ih, text]
  | binary o l r ihl ihr =>
    have hspaced : (if script.tight.contains o.symbol then o.symbol else " " ++ o.symbol ++ " ") = spaced o := by
      cases o <;> decide
    rw [term, Script.text, text_group, text_group, ihl, ihr, hspaced, text]

/-- A text begins with a word, a bracket or a sign. -/
theorem begins_text (hf : f.proper = true) :
    ∃ c cs, f.text.toList = c :: cs ∧ ((isWordChar c = true ∨ c = '(') ∨ c = '!' ∨ c = '-') := by
  induction f with
  | word w =>
    obtain ⟨c, cs, hcs, hc⟩ := exists_head (isWord_of_isOperand hf)
    exact ⟨c, cs, hcs, .inl (.inl hc)⟩
  | unary s f ih =>
    cases s with
    | not => exact ⟨'!', _, by rw [text, toList_append]; rfl, .inr (.inl rfl)⟩
    | minus => exact ⟨'-', _, by rw [text, toList_append]; rfl, .inr (.inr rfl)⟩
  | binary o l r ihl ihr =>
    rw [proper, Bool.and_eq_true] at hf
    obtain ⟨c, cs, hcs, hc⟩ := ihl hf.1
    simp only [text, inBrackets, toList_append]
    split
    · exact ⟨'(', _, by rw [toList_append, toList_append]; rfl, .inl (.inr rfl)⟩
    · exact ⟨c, _, by rw [hcs]; rfl, hc⟩

theorem regular_punctuation : regular script.punctuation = true := by decide

theorem clear_term (hf : f.proper = true) : script.clear f.term = true := by
  have hgroup (x : Bool) (t : Term) : script.clear (group x t) = script.clear t := by cases x <;> rfl
  induction f with
  | word w => exact isWord_of_isOperand hf
  | unary s f ih =>
    have hmark : script.isMark s.symbol = true := by cases s <;> decide
    have hparts : script.parts s.symbol (inBrackets (signBrackets s f) f.text) = true := by
      refine parts_of_head regular_punctuation hmark ?_
      cases hx : signBrackets s f with
      | true => exact ⟨'(', _, by rw [inBrackets, if_pos rfl, toList_append, toList_append]; rfl, .inr rfl⟩
      | false =>
        -- only a number goes without brackets
        cases f with
        | word w =>
          obtain ⟨c, cs, hcs, hc⟩ := exists_head (isWord_of_isOperand hf)
          exact ⟨c, cs, hcs, .inl hc⟩
        | unary | binary => simp [signBrackets, isNumber] at hx
    rw [term, Script.clear, text_group, text_term, hgroup, hmark, hparts, ih hf]
    rfl
  | binary o l r ihl ihr =>
    rw [proper, Bool.and_eq_true] at hf
    have hmark : script.isMark o.symbol = true := by cases o <;> decide
    have htight : script.tight.contains o.symbol = o.isLogic := by cases o <;> decide
    rw [term, Script.clear, hgroup, hgroup, ihl hf.1, ihr hf.2, htight]
    by_cases ho : o.isLogic = true
    · have hparts : script.parts o.symbol r.text = true := by
        obtain ⟨c, cs, hcs, hc | hc⟩ := begins_text hf.2
        · exact parts_of_head regular_punctuation hmark ⟨c, cs, hcs, hc⟩
        · rw [Script.parts, hcs, head?_cons]
          obtain rfl | rfl := hc <;> cases o <;> first | decide | cases ho
      rw [if_pos ho, brackets_logic ho, text_group, text_term, hmark, inBrackets, if_neg Bool.false_ne_true, hparts]
      rfl
    · rw [if_neg ho, (Bool.and_eq_true_iff.1 hmark).1]
      rfl

/-! ### Texts cut into lexemes -/

theorem lexemes_eq_cut (cs ds : List Char) : lexemes cs ds = cut punctuation cs ds := by
  induction ds generalizing cs with
  | nil => rfl
  | cons c ds ih =>
    have hcontinues : Formula.continues cs c = Lexemes.continues punctuation cs c := by cases cs <;> rfl
    rw [lexemes, cut, hcontinues, ih, ih]

theorem tokenOf_word (hw : isOperand w = true) : tokenOf w.toList = some (.word w) := by
  obtain ⟨c, cs, hcs, hc⟩ := exists_head (isWord_of_isOperand hw)
  simp only [isOperand, Bool.and_eq_true, Bool.not_eq_true'] at hw
  have htext : String.ofList (c :: cs) = w := by rw [← hcs, ofList_toList]
  rw [hcs, tokenOf]
  simp only [hc, htext, hw.2, if_true, Bool.false_eq_true, if_false]

theorem tokenOf_spelling {t : Token} (ht : ∀ w, t = .word w → isOperand w = true) : tokenOf (spelling t).toList = some t := by
  cases t with
  | word w => exact tokenOf_word (ht w rfl)
  | op o => cases o <;> decide
  | not | opening | closing => decide

theorem isOperand_of_mem (hf : f.proper = true) (hw : .word w ∈ f.tokens) : isOperand w = true := by
  induction f with
  | word v =>
    obtain rfl : w = v := by simpa [tokens] using hw
    exact hf
  | unary s f ih =>
    refine ih hf (mem_enclosed.1 ((mem_cons.1 hw).resolve_left ?_))
    cases s <;> simp [signToken]
  | binary o l r ihl ihr =>
    rw [proper, Bool.and_eq_true] at hf
    simp only [tokens, mem_append, mem_cons, reduceCtorEq, false_or] at hw
    obtain hw | hw := hw
    · exact ihl hf.1 (mem_enclosed.1 hw)
    · exact ihr hf.2 (mem_enclosed.1 hw)

theorem mapM_tokenOf (h : ∀ w, .word w ∈ ts → isOperand w = true) :
    ((ts.map spelling).map String.toList).mapM tokenOf = some ts := by
  induction ts with
  | nil => rfl
  | cons t ts ih =>
    rw [map_cons, map_cons, mapM_cons, tokenOf_spelling fun w hw => h w (hw ▸ mem_cons_self),
      ih fun w hw => h w (mem_cons_of_mem t hw)]
    rfl

theorem tokensOf_text (hf : f.proper = true) : tokensOf f.text = some f.tokens := by
  have hcut := (spells_text regular_punctuation (clear_term hf)).lexes.cut_eq
  rw [text_term, tokens_term] at hcut
  rw [tokensOf, lexemes_eq_cut, show punctuation = script.punctuation from rfl, hcut]
  exact mapM_tokenOf fun w hw => isOperand_of_mem hf hw

/-- The text of a formula is read as the formula if and only if its operands bind tight enough. -/
theorem reads_text_iff (hf : f.proper = true) : (∃ g, Reads f.text g ∧ g.flatten = f.flatten) ↔ f.grouped = true := by
  rw [← derives_tokens_iff fun w hw => isWord_of_isOperand (isOperand_of_mem hf hw)]
  constructor
  · rintro ⟨g, ⟨ts, hts, hg⟩, hflat⟩
    rw [tokensOf_text hf] at hts
    cases hts
    exact ⟨g, hg, hflat⟩
  · rintro ⟨g, hg, hflat⟩
    exact ⟨g, ⟨_, tokensOf_text hf, hg⟩, hflat⟩

/-- A lexeme that begins as a word is one. -/
theorem word_of_mem_lexemes {cs ds l : List Char} (hcs : ∀ c ∈ cs.head?, isWordChar c = true → cs.all isWordChar = true)
    (hl : l ∈ lexemes cs ds) : ∀ c ∈ l.head?, isWordChar c = true → l.all isWordChar = true := by
  have hfinished {cs : List Char} (hl : l ∈ finished cs) : l = cs := by
    cases cs with
    | nil => cases hl
    | cons => exact mem_singleton.1 hl
  fun_induction lexemes cs ds with
  | case1 cs => exact hfinished hl ▸ hcs
  | case2 cs d ds hd ih =>
    refine ih (fun c hc hword => ?_) hl
    cases cs with
    | nil => cases hd
    | cons c' cs =>
      cases hc
      rw [Formula.continues, if_pos hword] at hd
      simpa [hd] using hcs c rfl hword
  | case3 cs d ds hd ih =>
    rcases mem_append.1 hl with hl | hl
    · exact hfinished hl ▸ hcs
    · refine ih ?_ hl
      split <;> simp

theorem isWord_of_tokensOf {text : String} (h : tokensOf text = some ts) :
    ∀ t ∈ ts, ∀ w, t = .word w → Polyglot.isWord w = true := by
  refine Effect.forall_right (Effect.forall₂_of_mem (Effect.forall₂_of_mapM_some h) fun l t hl ht => ?_) fun _ _ h => h
  rintro w rfl
  cases l with
  | nil => cases ht
  | cons c cs =>
    have hword := word_of_mem_lexemes (by simp) hl c rfl
    simp only [tokenOf] at ht
    split_ifs at ht with hc
    · cases ht
      simpa [Polyglot.isWord] using hword hc
    all_goals simp at ht

theorem Reads.unique {text : String} (hf : Reads text f) (hg : Reads text g) : f = g := by
  obtain ⟨ts, hts, hf⟩ := hf
  obtain ⟨us, hus, hg⟩ := hg
  obtain rfl := Option.some.inj (hts.symm.trans hus)
  exact hf.unique hg fun w hw => isWord_of_tokensOf hts _ hw w rfl

end Polyglot.Formula
