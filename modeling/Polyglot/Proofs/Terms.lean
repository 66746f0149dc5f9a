import Polyglot.Proofs.Lexemes

/-!
# Terms of arithmetic

How arithmetic is written and read in a language that is given by its punctuation, its signs and how tightly its
operators bind. Texts are cut into the longest lexemes that can be, and a stack machine reads them. Every term whose
lexemes stay apart is read as some term, which is the term itself if and only if all operands without brackets bind
tightly enough.
-/
namespace Polyglot

open List Formula Lexemes

/-- How arithmetic is written and read. -/
structure Script where
  /-- With a text, all its beginnings are in the list. -/
  punctuation : List String
  /-- The operators that stand between operands, and how tightly they bind. -/
  levels : List (String × Nat)
  /-- The level at which operators go together from the right. -/
  rightward : Nat := 0
  tight : List String
  signs : List String := []

inductive Term where
  | word (w : String)
  | sign (s : String) (t : Term)
  | group (t : Term)
  | op (o : String) (l r : Term)
  deriving DecidableEq

def isWord (w : String) : Bool := !w.toList.isEmpty && w.toList.all isWordChar

namespace Term

def strip : Term → Term
  | word w => word w
  | sign s t => sign s t.strip
  | group t => t.strip
  | op o l r => op o l.strip r.strip

def tokens : Term → List String
  | word w => [w]
  | sign s t => s :: t.tokens
  | group t => "(" :: (t.tokens ++ [")"])
  | op o l r => l.tokens ++ o :: r.tokens

def size : Term → Nat
  | word _ => 1
  | sign _ t | group t => t.size
  | op _ l r => l.size + r.size

def isGroup : Term → Bool
  | group _ => true
  | _ => false

def isOp : Term → Bool
  | op .. => true
  | _ => false

theorem size_pos (t : Term) : 0 < t.size := by
  induction t with
  | word => exact Nat.one_pos
  | sign _ _ ih | group _ ih => exact ih
  | op _ _ _ ih => exact Nat.add_pos_left ih _

@[simp] theorem size_strip (t : Term) : t.strip.size = t.size := by
  induction t with
  | word => rfl
  | sign _ _ ih | group _ ih => exact ih
  | op _ _ _ ihl ihr => simp only [strip, size, ihl, ihr]

end Term

namespace Script

variable (S : Script) {p : String}

def level (o : String) : Nat := (S.levels.lookup o).getD 0

/-- How tightly an operand before an operator of a level has to bind. -/
def grip (k : Nat) : Nat := if k = S.rightward then k + 1 else k

/-- How tightly an operand after it has to bind. -/
def reach (k : Nat) : Nat := if k = S.rightward then k else k + 1

/-- No operator binds as tightly as a sign. -/
def top : Nat := 1 + (S.levels.map (·.2)).foldr max 0

theorem level_lt (o : String) : S.level o < S.top := by
  unfold level top
  induction S.levels with
  | nil => exact Nat.one_pos
  | cons a as ih =>
    rw [lookup_cons, map_cons, foldr_cons]
    split
    · simp only [Option.getD_some]
      omega
    · omega

/-! ### Writing -/

def text : Term → String
  | .word w => w
  | .sign s t => s ++ text t
  | .group t => "(" ++ text t ++ ")"
  | .op o l r => text l ++ (if S.tight.contains o then o else " " ++ o ++ " ") ++ text r

def isLexeme (o : String) : Bool :=
  match o.toList with
  | [] => false
  | d :: w => !d.isWhitespace && grows S.punctuation [d] w

def isMark (o : String) : Bool := S.isLexeme o && o.toList.head?.all (!isWordChar ·)

/-- Whether it does not go on with what a text begins with. -/
def parts (o text : String) : Bool := text.toList.head?.all (!continues S.punctuation o.toList ·)

/-- Whether the lexemes of a term stay apart. -/
def clear : Term → Bool
  | .word w => isWord w
  | .sign s t => S.isMark s && S.parts s (text S t) && clear t
  | .group t => clear t
  | .op o l r => clear l && clear r && if S.tight.contains o then S.isMark o && S.parts o (text S r) else S.isLexeme o

/-! ### Reading -/

inductive Frame where
  | bracket
  | sign (s : String)
  | left (o : String) (l : Term)

def settle (k : Nat) : List Frame → Term → List Frame × Term
  | .sign s :: σ, t => settle k σ (.sign s t)
  | .left o l :: σ, t => if k ≤ S.level o then settle k σ (.op o l t) else (.left o l :: σ, t)
  | σ, t => (σ, t)

/-- Reads lexemes; an operand has just been read or is to come. -/
def machine : List Frame → Option Term → List String → Option Term
  | _, none, [] => none
  | σ, none, w :: ws =>
    if isWord w then machine σ (some (.word w)) ws
    else if w = "(" then machine (.bracket :: σ) none ws
    else if S.signs.contains w then machine (.sign w :: σ) none ws
    else none
  | σ, some t, [] =>
    match S.settle 1 σ t with
    | ([], t) => some t
    | _ => none
  | σ, some t, w :: ws =>
    if w = ")" then
      match S.settle 1 σ t with
      | (.bracket :: σ, t) => machine σ (some t) ws
      | _ => none
    else if S.level w = 0 then none
    else
      match S.settle (S.grip (S.level w)) σ t with
      | (σ, t) => machine (.left w t :: σ) none ws

def lexemes (text : String) : List String := (cut S.punctuation [] text.toList).map String.ofList

/-- What a text is read as. -/
def read (text : String) : Option Term := S.machine [] none (S.lexemes text)

def bound : Term → Nat
  | .word _ | .group _ => S.top + 1
  | .sign _ _ => S.top
  | .op o _ _ => S.level o

/-- Whether all operands without brackets bind tightly enough. -/
def good : Term → Bool
  | .word w => isWord w
  | .sign s t => S.signs.contains s && !isWord s && s != "(" && good t && decide (S.top ≤ S.bound t)
  | .group t => good t
  | .op o l r => good l && good r && decide (o ≠ ")" ∧ S.level o ≠ 0 ∧ S.grip (S.level o) ≤ S.bound l ∧
      S.reach (S.level o) ≤ S.bound r)

variable {S} {t l r a b : Term} {o : String} {k j : Nat} {σ : List Frame} {ws : List String}

theorem good_op : S.good (.op o l r) = true ↔ S.good l = true ∧ S.good r = true ∧ o ≠ ")" ∧ S.level o ≠ 0 ∧
    S.grip (S.level o) ≤ S.bound l ∧ S.reach (S.level o) ≤ S.bound r := by
  simp only [good, Bool.and_eq_true, decide_eq_true_eq, and_assoc]

/-- Whether no operand of an operator up to a level is put in brackets. -/
def bare (S : Script) (k : Nat) : Term → Bool
  | .word _ => true
  | .sign _ t | .group t => bare S k t
  | .op o l r => bare S k l && bare S k r && (decide (k < S.level o) || !(l.isGroup || r.isGroup))

theorem bare_op : S.bare k (.op o l r) = true ↔ S.bare k l = true ∧ S.bare k r = true ∧
    (S.level o ≤ k → l.isGroup = false ∧ r.isGroup = false) := by
  simp only [bare, Bool.and_eq_true, Bool.or_eq_true, decide_eq_true_eq, Bool.not_eq_true', Bool.or_eq_false_iff, and_assoc,
    ← Nat.not_lt, Decidable.imp_iff_or_not, not_not, or_comm]

/-- No operator that binds at a level or tighter ends what was put aside last. -/
def Below (S : Script) (k : Nat) : List Frame → Prop
  | [] | .bracket :: _ => True
  | .sign _ :: _ => S.top ≤ k
  | .left o _ :: _ => S.reach (S.level o) ≤ k

/-- What follows a term of a level does not go on with it. -/
def Stops (S : Script) (k : Nat) (ws : List String) : Prop :=
  ∀ w ∈ ws.head?, w ≠ ")" → S.level w ≠ 0 → S.grip (S.level w) ≤ k

theorem Below.mono (h : S.Below k σ) (hk : k ≤ j) : S.Below j σ := by
  match σ, h with
  | [], _ | .bracket :: _, _ => trivial
  | .sign _ :: _, h | .left _ _ :: _, h => exact le_trans h hk

theorem Below.settle (h : S.Below k σ) (hk : k ≤ S.level o) (t : Term) :
    S.settle (S.grip (S.level o)) σ t = (σ, t) := by
  match σ, h with
  | [], _ | .bracket :: _, _ => rfl
  | .sign _ :: _, h => exact absurd (le_trans h hk) (Nat.not_le.2 (S.level_lt o))
  | .left p l :: σ, h =>
    have hreach : S.reach (S.level p) ≤ S.level o := le_trans h hk
    rw [Script.settle, if_neg]
    unfold reach at hreach
    unfold grip
    split_ifs at hreach ⊢ <;> omega

/-- What is read after an operand, if the operator before it ends there. -/
theorem machine_settle {fr : Frame} (h : ∀ j, j ≤ k → S.settle j (fr :: σ) l = S.settle j σ r) (hk : 1 ≤ k)
    (hws : S.Stops k ws) : S.machine (fr :: σ) (some l) ws = S.machine σ (some r) ws := by
  cases ws with
  | nil => simp only [machine, h 1 hk]
  | cons w ws =>
    by_cases hclosing : w = ")"
    · simp only [machine, hclosing, if_true, h 1 hk]
    · by_cases hlevel : S.level w = 0
      · simp only [machine, hclosing, hlevel, if_true, if_false]
      · simp only [machine, if_neg hclosing, if_neg hlevel, h _ (hws w rfl hclosing hlevel)]

theorem grip_reach (S : Script) (k : Nat) : k ≤ S.grip k ∧ S.grip k ≤ k + 1 ∧ k ≤ S.reach k ∧ S.reach k ≤ k + 1 := by
  unfold grip reach
  split_ifs <;> omega

theorem bound_pos (h : S.good t = true) : 1 ≤ S.bound t := by
  cases t with
  | word | group => exact Nat.le_add_left 1 _
  | sign => exact Nat.le_add_right 1 _
  | op o l r =>
    obtain ⟨-, -, -, hlevel, -⟩ := good_op.1 h
    exact Nat.one_le_iff_ne_zero.2 hlevel

/-- The machine reads a term that binds tightly enough for what was put aside and for what follows. -/
theorem machine_of_good {v : List String} (h : S.good t = true) (hk : 1 ≤ k) (hbound : k ≤ S.bound t)
    (hσ : S.Below k σ) (hv : S.Stops k v) : S.machine σ none (t.tokens ++ v) = S.machine σ (some t.strip) v := by
  induction t generalizing k σ v with
  | word w =>
    have hw : isWord w = true := h
    simp only [Term.tokens, cons_append, nil_append, machine, hw, if_true]
    rfl
  | sign s t ih =>
    simp only [good, Bool.and_eq_true, Bool.not_eq_true', bne_iff_ne, decide_eq_true_eq] at h
    obtain ⟨⟨⟨⟨hsign, hword⟩, hopening⟩, ht⟩, htop⟩ := h
    have hinner := ih (k := S.top) (σ := .sign s :: σ) ht (by unfold top; omega) htop le_rfl
      fun w hw h h' => (hv w hw h h').trans hbound
    simp only [Term.tokens, cons_append, machine, hword, hopening, hsign, if_true, if_false, Bool.false_eq_true, hinner]
    exact machine_settle (fun j _ => rfl) hk hv
  | group t ih =>
    have hinner := ih (k := 1) (σ := .bracket :: σ) (v := ")" :: v) h le_rfl (bound_pos h) trivial
      (by rintro w ⟨⟩ h; exact absurd rfl h)
    have hword : isWord "(" = false := by decide
    simp only [Term.tokens, cons_append, append_assoc, nil_append, machine, hword, if_true, if_false, Bool.false_eq_true,
      hinner, Script.settle]
    rfl
  | op o l r ihl ihr =>
    obtain ⟨hl, hr, hclosing, hlevel, hgrip, hreach⟩ := good_op.1 h
    have hko : k ≤ S.level o := hbound
    have hpos := S.grip_reach (S.level o)
    have hleft := ihl (k := S.grip (S.level o)) (σ := σ) (v := o :: (r.tokens ++ v)) hl (by omega) hgrip
      (hσ.mono (by omega)) (by rintro w ⟨⟩ _ _; exact le_rfl)
    have hright := ihr (k := S.reach (S.level o)) (σ := .left o l.strip :: σ) (v := v) hr (by omega) hreach le_rfl
      fun w hw h h' => (hv w hw h h').trans (by omega)
    simp only [Term.tokens, append_assoc, cons_append, hleft, machine, if_neg hclosing, if_neg hlevel, hσ.settle hko, hright]
    exact machine_settle (fun j hj => by rw [Script.settle, if_pos (hj.trans hko)]; rfl) hk hv

theorem machine_tokens (h : S.good t = true) : S.machine [] none t.tokens = some t.strip := by
  have hrun := machine_of_good (σ := []) (v := []) h le_rfl (bound_pos h) trivial (by rintro _ ⟨⟩)
  rwa [append_nil] at hrun

theorem strip_eq_of_tokens (ha : S.good a = true) (hb : S.good b = true) (h : a.tokens = b.tokens) : a.strip = b.strip := by
  have hrun := machine_tokens ha
  rw [h, machine_tokens hb] at hrun
  exact (Option.some.inj hrun).symm

/-! ### Operands that do not bind tightly enough -/

theorem grip_le (h : j < S.reach k) : S.grip j ≤ k := by
  unfold reach at h
  unfold grip
  split_ifs at h ⊢ <;> omega

theorem reach_le (h : j < S.grip k) : S.reach j ≤ k := by
  unfold grip at h
  unfold reach
  split_ifs at h ⊢ <;> omega

theorem exists_op_of_bound_lt (h : S.bound t < S.top) : ∃ o l r, t = .op o l r := by
  cases t with
  | word | sign | group => exact absurd h (by simp only [bound]; omega)
  | op o l r => exact ⟨o, l, r, rfl⟩

/-- What `l o r` is read as if nothing in `l` and `r` has to be read in another way. -/
structure Joined (S : Script) (o : String) (l r t : Term) : Prop where
  good : S.good t = true
  tokens : t.tokens = l.tokens ++ o :: r.tokens
  size : t.size = l.size + r.size
  bound : min (S.level o) (min (S.bound l) (S.bound r)) ≤ S.bound t
  bare : ∀ k, S.bare k (.op o l r) = true → S.bare k t = true
  root : t = .op o l r ∨ ∃ p a b, t = .op p a b ∧ a.size ≠ l.size

theorem Joined.isOp (h : S.Joined o l r t) : t.isOp = true ∧ t.isGroup = false := by
  obtain rfl | ⟨p, a, b, rfl, -⟩ := h.root
  · exact ⟨rfl, rfl⟩
  · exact ⟨rfl, rfl⟩

/-- The last operand of a loose term before an operator belongs to the operator. -/
theorem Joined.left (h : S.Joined o b r t) (hl : S.good (.op p a b) = true)
    (hp : S.reach (S.level p) ≤ S.level o ∧ S.reach (S.level p) ≤ S.bound r) : S.Joined o (.op p a b) r (.op p a t) := by
  obtain ⟨ha, -, hclosing, hlevel, hgrip, hreach⟩ := good_op.1 hl
  have hbound := h.bound
  refine ⟨good_op.2 ⟨ha, h.good, hclosing, hlevel, hgrip, by omega⟩, ?_, ?_, ?_, fun k hk => ?_, .inr ⟨p, a, t, rfl, ?_⟩⟩
  · simp only [Term.tokens, h.tokens, append_assoc, cons_append]
  · simp only [Term.size, h.size]
    omega
  · simp only [Script.bound]
    omega
  · obtain ⟨hl, hr, hno⟩ := bare_op.1 hk
    obtain ⟨ha, hb, hno'⟩ := bare_op.1 hl
    have hle : S.level p ≤ S.level o := (S.grip_reach _).2.2.1.trans hp.1
    have ht := h.bare k (bare_op.2 ⟨hb, hr, fun hk => ⟨(hno' (hle.trans hk)).2, (hno hk).2⟩⟩)
    exact bare_op.2 ⟨ha, ht, fun hk => ⟨(hno' hk).1, h.isOp.2⟩⟩
  · have := b.size_pos
    simp only [Term.size]
    omega

/-- The first operand of a loose term after an operator belongs to the operator. -/
theorem Joined.right (h : S.Joined o l a t) (hr : S.good (.op p a b) = true)
    (hp : S.grip (S.level p) ≤ S.level o ∧ S.grip (S.level p) ≤ S.bound l) : S.Joined o l (.op p a b) (.op p t b) := by
  obtain ⟨-, hb, hclosing, hlevel, hgrip, hreach⟩ := good_op.1 hr
  have hbound := h.bound
  refine ⟨good_op.2 ⟨h.good, hb, hclosing, hlevel, by omega, hreach⟩, ?_, ?_, ?_, fun k hk => ?_, .inr ⟨p, t, b, rfl, ?_⟩⟩
  · simp only [Term.tokens, h.tokens, append_assoc, cons_append]
  · simp only [Term.size, h.size]
    omega
  · simp only [Script.bound]
    omega
  · obtain ⟨hl, hr, hno⟩ := bare_op.1 hk
    obtain ⟨ha, hb, hno'⟩ := bare_op.1 hr
    have hle : S.level p ≤ S.level o := (S.grip_reach _).1.trans hp.1
    have ht := h.bare k (bare_op.2 ⟨hl, ha, fun hk => ⟨(hno hk).1, (hno' (hle.trans hk)).1⟩⟩)
    exact bare_op.2 ⟨ht, hb, fun hk => ⟨h.isOp.2, (hno' hk).2⟩⟩
  · have := a.size_pos
    rw [h.size]
    omega

theorem exists_joined (hl : S.good l = true) (hr : S.good r = true) (hclosing : o ≠ ")") (hlevel : S.level o ≠ 0) :
    ∃ t, S.Joined o l r t := by
  have htop := S.level_lt o
  -- the loosest operator, which is in one of the operands, becomes the outermost one
  induction hn : l.size + r.size using Nat.strong_induction_on generalizing l r with
  | _ n ih =>
    subst hn
    have hleft {p : String} (hgrip : S.bound l < S.grip (S.level p)) (hp : S.level p ≤ S.level o)
        (hp' : S.level p ≤ S.bound r) : ∃ t, S.Joined o l r t := by
      have hgrip' := S.grip_reach (S.level p)
      obtain ⟨q, a, b, rfl⟩ := exists_op_of_bound_lt (show S.bound l < S.top by omega)
      have := a.size_pos
      obtain ⟨t, ht⟩ := ih _ (by simp only [Term.size]; omega) (good_op.1 hl).2.1 hr rfl
      have hq : S.reach (S.level q) ≤ S.level p := reach_le hgrip
      exact ⟨_, ht.left hl ⟨by omega, by omega⟩⟩
    by_cases hreach : S.reach (S.level o) ≤ S.bound r
    · by_cases hgrip : S.grip (S.level o) ≤ S.bound l
      · refine ⟨.op o l r, good_op.2 ⟨hl, hr, hclosing, hlevel, hgrip, hreach⟩, rfl, rfl, ?_, fun _ h => h, .inl rfl⟩
        simp only [bound]
        omega
      · exact hleft (by omega) le_rfl ((S.grip_reach _).2.2.1.trans hreach)
    · have hreach' := S.grip_reach (S.level o)
      obtain ⟨p, a, b, rfl⟩ := exists_op_of_bound_lt (show S.bound r < S.top by omega)
      have hp : S.grip (S.level p) ≤ S.level o := grip_le (by simpa only [bound, not_le] using hreach)
      by_cases hgrip : S.grip (S.level p) ≤ S.bound l
      · have := b.size_pos
        obtain ⟨t, ht⟩ := ih _ (by simp only [Term.size]; omega) hl (good_op.1 hr).1 rfl
        exact ⟨_, ht.right hr ⟨hp, hgrip⟩⟩
      · refine hleft (p := p) (by omega) ?_ le_rfl
        simp only [bound] at hreach
        omega

/-- Whether a term can be read, in whatever way. -/
def lawful (S : Script) : Term → Bool
  | .word w => isWord w
  | .sign s t => S.signs.contains s && !isWord s && s != "(" && lawful S t && !t.isOp
  | .group t => lawful S t
  | .op o l r => lawful S l && lawful S r && o != ")" && S.level o != 0

theorem le_bound_of_not_isOp (h : t.isOp = false) : S.top ≤ S.bound t := by
  refine Nat.not_lt.1 fun hlt => ?_
  obtain ⟨o, l, r, rfl⟩ := exists_op_of_bound_lt hlt
  cases h

/-- What a term is read as: one that is written with the same lexemes, and is not itself unless all operands bind tightly
enough. -/
structure Regrouped (S : Script) (t g : Term) : Prop where
  good : S.good g = true
  tokens : g.tokens = t.tokens
  size : g.size = t.size
  isOp : g.isOp = t.isOp
  isGroup : g.isGroup = t.isGroup
  bare : ∀ k, S.bare k t = true → S.bare k g = true
  eq_of_strip : g.strip = t.strip → g = t

theorem exists_regrouped (h : S.lawful t = true) : ∃ g, S.Regrouped t g := by
  induction t with
  | word w => exact ⟨.word w, h, rfl, rfl, rfl, rfl, fun _ h => h, fun _ => rfl⟩
  | sign s t ih =>
    simp only [lawful, Bool.and_eq_true, Bool.not_eq_true'] at h
    obtain ⟨g, hg⟩ := ih h.1.2
    have hbound := S.le_bound_of_not_isOp (hg.isOp.trans h.2)
    refine ⟨.sign s g, ?_, by simp only [Term.tokens, hg.tokens], hg.size, rfl, rfl, hg.bare, fun heq => ?_⟩
    · simp only [Script.good, h.1.1, hg.good, hbound, Bool.not_false, Bool.and_self, decide_true]
    · rw [hg.eq_of_strip (Term.sign.inj heq).2]
  | group t ih =>
    obtain ⟨g, hg⟩ := ih h
    exact ⟨.group g, hg.good, by simp only [Term.tokens, hg.tokens], hg.size, rfl, rfl, hg.bare, fun h => by
      rw [hg.eq_of_strip h]⟩
  | op o l r ihl ihr =>
    simp only [lawful, Bool.and_eq_true, bne_iff_ne] at h
    obtain ⟨⟨⟨hl, hr⟩, hclosing⟩, hlevel⟩ := h
    obtain ⟨l', hl⟩ := ihl hl
    obtain ⟨r', hr⟩ := ihr hr
    obtain ⟨t, ht⟩ := exists_joined hl.good hr.good hclosing hlevel
    refine ⟨t, ht.good, by rw [ht.tokens, hl.tokens, hr.tokens]; rfl, by rw [ht.size, hl.size, hr.size]; rfl, ht.isOp.1,
      ht.isOp.2, fun k hk => ht.bare k ?_, fun heq => ?_⟩
    · obtain ⟨hlk, hrk, hno⟩ := bare_op.1 hk
      exact bare_op.2 ⟨hl.bare k hlk, hr.bare k hrk, fun hk => ⟨hl.isGroup.trans (hno hk).1, hr.isGroup.trans (hno hk).2⟩⟩
    · obtain rfl | ⟨p, a, b, rfl, ha⟩ := ht.root
      · simp only [Term.strip, Term.op.injEq] at heq
        rw [hl.eq_of_strip heq.2.1, hr.eq_of_strip heq.2.2]
      · -- another outermost operator has fewer or more words before it
        simp only [Term.strip, Term.op.injEq] at heq
        have hsize := congrArg Term.size heq.2.1
        rw [Term.size_strip, Term.size_strip, ← hl.size] at hsize
        exact absurd hsize ha

/-! ### Lexemes of a term -/

/-- A text that is cut into some lexemes, of which the last one does not go on with punctuation. -/
structure Spells (S : Script) (text : String) (ws : List String) : Prop where
  lexes : Lexes S.punctuation text.toList (ws.map String.toList)
  ne_nil : text.toList ≠ []
  ends : ∃ w, ws.getLast? = some w ∧ ∀ c, isWordChar c = false → continues S.punctuation w.toList c = false

theorem lexes_of_isLexeme (h : S.isLexeme o = true) : o.toList ≠ [] ∧ Lexes S.punctuation o.toList [o.toList] := by
  unfold isLexeme at h
  split at h
  · cases h
  · rename_i d w ho
    simp only [Bool.and_eq_true, Bool.not_eq_true'] at h
    rw [ho]
    exact ⟨cons_ne_nil d w, lexes_single h.1 h.2⟩

theorem exists_head {w : String} (hw : isWord w = true) : ∃ c cs, w.toList = c :: cs ∧ isWordChar c = true := by
  simp only [isWord, Bool.and_eq_true, Bool.not_eq_true', isEmpty_eq_false_iff, all_eq_true] at hw
  obtain ⟨c, cs, hcs⟩ := exists_cons_of_ne_nil hw.1
  exact ⟨c, cs, hcs, hw.2 c (by simp [hcs])⟩

theorem isMark_cons (h : S.isMark o = true) : ∃ d w, o.toList = d :: w ∧ isWordChar d = false := by
  unfold isMark isLexeme at h
  cases ho : o.toList with
  | nil => simp [ho] at h
  | cons d w => exact ⟨d, w, rfl, by simpa [ho] using (Bool.and_eq_true_iff.1 h).2⟩

theorem isWord_of_isMark (h : S.isMark o = true) : isWord o = false := by
  obtain ⟨d, w, hlist, hd⟩ := isMark_cons h
  simp [isWord, hlist, hd]

/-- A mark does not go on with a word or an opening bracket. -/
theorem parts_of_head {b : String} (hS : regular S.punctuation = true) (ho : S.isMark o = true)
    (hb : ∃ c cs, b.toList = c :: cs ∧ (isWordChar c = true ∨ c = '(')) : S.parts o b = true := by
  obtain ⟨c, cs, hcs, hc⟩ := hb
  obtain ⟨d, v, hlist, hd⟩ := isMark_cons ho
  simp [parts, hcs, hlist, punctuation_ends hS hd (hc.imp_right .inr)]

theorem continues_blank (hS : regular S.punctuation = true) (w : List Char) : continues S.punctuation w ' ' = false := by
  cases w with
  | nil => rfl
  | cons d w =>
    by_cases hd : isWordChar d = true
    · rw [Lexemes.continues, if_pos hd]
      rfl
    · exact punctuation_ends hS (by simpa using hd) (.inr (.inl rfl))

theorem Spells.apart {text : String} {cs : List Char} (h : S.Spells text ws) (hcs : ∀ c ∈ cs.head?, isWordChar c = false) :
    Apart S.punctuation (ws.map String.toList) cs := by
  obtain ⟨v, hv, hends⟩ := h.ends
  intro w hw c hc
  rw [getLast?_map, hv] at hw
  cases hw
  exact hends c (hcs c hc)

namespace Spells

variable {a b : String} {ls rs : List String}

theorem word (h : isWord a = true) : S.Spells a [a] := by
  simp only [isWord, Bool.and_eq_true, Bool.not_eq_true', isEmpty_eq_false_iff] at h
  exact ⟨lexes_word h.1 h.2, h.1, a, rfl, fun c hc => word_ends h.2 hc⟩

theorem bracket (hS : regular S.punctuation = true) {d : Char} (hd : d ∈ brackets) :
    S.Spells (String.singleton d) [String.singleton d] := by
  have hblank : d.isWhitespace = false := by
    have hall : (brackets.all fun d => !d.isWhitespace) = true := by decide
    simpa using all_eq_true.1 hall d hd
  refine ⟨by simpa using lexes_single (w := []) hblank rfl, by simp, String.singleton d, rfl, fun c _ => ?_⟩
  rw [String.toList_singleton]
  exact bracket_ends hS hd

theorem append (hl : S.Spells a ls) (hr : S.Spells b rs) (hb : ∀ c ∈ b.toList.head?, isWordChar c = false) :
    S.Spells (a ++ b) (ls ++ rs) := by
  obtain ⟨w, hw, hends⟩ := hr.ends
  refine ⟨?_, by simp [hl.ne_nil], w, by rw [getLast?_append, hw]; rfl, hends⟩
  rw [String.toList_append, map_append]
  exact hl.lexes.append hr.lexes hr.ne_nil (hl.apart hb)

theorem mark (ho : S.isMark o = true) (hr : S.Spells b rs) (hparts : S.parts o b = true) : S.Spells (o ++ b) (o :: rs) := by
  simp only [isMark, parts, Bool.and_eq_true, Option.all_eq_true, Bool.not_eq_true'] at ho hparts
  obtain ⟨hne, hlexes⟩ := lexes_of_isLexeme ho.1
  obtain ⟨w, hw, hends⟩ := hr.ends
  refine ⟨?_, by simp [hne], w, by rw [getLast?_cons, hw]; rfl, hends⟩
  rw [String.toList_append]
  exact hlexes.append hr.lexes hr.ne_nil (by rintro _ ⟨⟩ c hc; exact hparts c hc)

/-- A mark runs together with neither of the texts around it. -/
theorem tight (hl : S.Spells a ls) (hr : S.Spells b rs) (ho : S.isMark o = true) (hparts : S.parts o b = true) :
    S.Spells (a ++ o ++ b) (ls ++ o :: rs) := by
  rw [String.append_assoc]
  refine hl.append (hr.mark ho hparts) fun c hc => ?_
  simp only [isMark, Bool.and_eq_true, Option.all_eq_true, Bool.not_eq_true'] at ho
  rw [String.toList_append, head?_append_of_ne_nil _ (lexes_of_isLexeme ho.1).1] at hc
  exact ho.2 c hc

theorem spaced (hS : regular S.punctuation = true) (hl : S.Spells a ls) (hr : S.Spells b rs) (ho : S.isLexeme o = true) :
    S.Spells (a ++ " " ++ o ++ " " ++ b) (ls ++ o :: rs) := by
  obtain ⟨hne, hlexes⟩ := lexes_of_isLexeme ho
  have hblank : Apart S.punctuation [o.toList] (' ' :: b.toList) := by
    rintro _ ⟨⟩ _ ⟨⟩
    exact continues_blank hS _
  have hright := hlexes.append (lexes_blank.append hr.lexes hr.ne_nil (by rintro _ ⟨⟩)) (by simp) hblank
  have hall := hl.lexes.append (lexes_blank.append hright (by simp) (by rintro _ ⟨⟩)) (by simp)
    (hl.apart (by rintro _ ⟨⟩; rfl))
  obtain ⟨w, hw, hends⟩ := hr.ends
  refine ⟨?_, by simp, w, by rw [getLast?_append, getLast?_cons, hw]; rfl, hends⟩
  simpa only [show " ".toList = [' '] from rfl, String.toList_append, map_append, map_cons, append_assoc, cons_append,
    nil_append] using hall

theorem lexemes_eq (h : S.Spells a ls) : S.lexemes a = ls := by
  rw [lexemes, h.lexes.cut_eq, map_map]
  exact (map_congr_left fun w _ => String.ofList_toList).trans (map_id _)

end Spells

theorem spells_text (hS : regular S.punctuation = true) (h : S.clear t = true) : S.Spells (S.text t) t.tokens := by
  induction t with
  | word w => exact .word h
  | sign s t ih =>
    simp only [clear, Bool.and_eq_true] at h
    exact (ih h.2).mark h.1.1 h.1.2
  | group t ih =>
    have hopening : S.parts "(" (S.text t ++ ")") = true := by
      simp only [parts, Option.all_eq_true, Bool.not_eq_true']
      exact fun c _ => bracket_ends hS (by decide)
    have hclosing := (ih h).append (.bracket hS (d := ')') (by decide)) (by rintro c ⟨⟩; rfl)
    have hall := hclosing.mark (o := "(") rfl hopening
    rwa [← String.append_assoc] at hall
  | op o l r ihl ihr =>
    simp only [clear, Bool.and_eq_true] at h
    obtain ⟨⟨hl, hr⟩, ho⟩ := h
    rw [text, Term.tokens]
    split_ifs at ho ⊢
    · rw [Bool.and_eq_true] at ho
      exact (ihl hl).tight (ihr hr) ho.1 ho.2
    · simpa only [String.append_assoc] using (ihl hl).spaced hS (ihr hr) ho

variable (hS : regular S.punctuation = true) (hclear : S.clear t = true)
include hS hclear

theorem read_text : S.read (S.text t) = S.machine [] none t.tokens := by
  rw [read, (spells_text hS hclear).lexemes_eq]

theorem read_of_good (h : S.good t = true) : S.read (S.text t) = some t.strip := by
  rw [read_text hS hclear, machine_tokens h]

/-- A term whose lexemes stay apart is read, and is read as it was meant if and only if all operands without brackets
bind tightly enough. -/
theorem read_text_iff (h : S.lawful t = true) :
    (∃ u, S.read (S.text t) = some u) ∧ (S.read (S.text t) = some t.strip ↔ S.good t = true) := by
  obtain ⟨g, hg⟩ := exists_regrouped h
  have hread : S.read (S.text t) = some g.strip := by rw [read_text hS hclear, ← hg.tokens, machine_tokens hg.good]
  refine ⟨⟨_, hread⟩, fun hsame => ?_, read_of_good hS hclear⟩
  rw [hread, Option.some.injEq] at hsame
  exact hg.eq_of_strip hsame ▸ hg.good

end Script
end Polyglot
