import Mathlib.Algebra.Ring.Int.Defs
import Polyglot.Proofs.Order
import Polyglot.Typing.Inference

/-!
# Integers of fixed width

A sum of two integers of fixed width is given the type that comes next after the wider of theirs. The types stand in
one row, the signed ones before the unsigned ones. So sums of signed integers fit, and sums of unsigned ones, but where
they are mixed negative sums have no place.
-/
namespace Polyglot

inductive Width where
  | w8 | w16 | w32 | w64
  deriving DecidableEq

def Width.bits : Width → Nat
  | .w8 => 8 | .w16 => 16 | .w32 => 32 | .w64 => 64

/-- The next width, of which there is none after the last. -/
def Width.next : Width → Width
  | .w8 => .w16 | .w16 => .w32 | .w32 | .w64 => .w64

/-- The integers of fixed width. Truth values count as integers. -/
inductive IntType where
  | bool
  | signed (w : Width)
  | unsigned (w : Width)
  deriving DecidableEq

namespace IntType

def bits : IntType → Nat
  | .bool => 1
  | .signed w | .unsigned w => w.bits

def low : IntType → Int
  | .bool | .unsigned _ => 0
  | .signed w => -2 ^ (w.bits - 1)

def high : IntType → Int
  | .bool => 1
  | .signed w => 2 ^ (w.bits - 1) - 1
  | .unsigned w => 2 ^ w.bits - 1

def Has (t : IntType) (x : Int) : Prop := t.low ≤ x ∧ x ≤ t.high

instance (t : IntType) (x : Int) : Decidable (t.Has x) := inferInstanceAs (Decidable (_ ∧ _))

def isSigned : IntType → Bool
  | .signed _ => true
  | _ => false

def isUnsigned : IntType → Bool
  | .unsigned _ => true
  | _ => false

def names : List (String × IntType) :=
  [("bool", .bool), ("c_int8", .signed .w8), ("c_int16", .signed .w16), ("c_int32", .signed .w32),
   ("c_int64", .signed .w64), ("c_uint8", .unsigned .w8), ("c_uint16", .unsigned .w16), ("c_uint32", .unsigned .w32),
   ("c_uint64", .unsigned .w64), ("i8", .signed .w8), ("i16", .signed .w16), ("i32", .signed .w32),
   ("i64", .signed .w64), ("isize", .signed .w64), ("ilong", .signed .w64), ("u8", .unsigned .w8),
   ("u16", .unsigned .w16), ("u32", .unsigned .w32), ("u64", .unsigned .w64), ("usize", .unsigned .w64),
   ("ulong", .unsigned .w64)]

def ofName (name : String) : Option IntType := names.lookup name

def rank : IntType → Nat
  | .bool => 1
  | .signed .w8 => 2 | .signed .w16 => 3 | .signed .w32 => 4 | .signed .w64 => 5
  | .unsigned .w8 => 6 | .unsigned .w16 => 7 | .unsigned .w32 => 8 | .unsigned .w64 => 9

def next : IntType → IntType
  | .bool => .signed .w8
  | .signed w => .signed w.next
  | .unsigned w => .unsigned w.next

def plus (a b : IntType) : IntType := if b.rank < a.rank then a.next else b.next

variable {a b : IntType} {x y : Int} {l r : String}

theorem rankOf_of_ofName (h : ofName l = some a) : Inference.rankOf l = a.rank := by
  have hall : ∀ p ∈ names, Inference.rankOf p.1 = p.2.rank := by decide +kernel
  exact hall _ (mem_of_lookup h)

/-- The name that is inferred for a sum stands for the type of the sum. -/
theorem ofName_widened (hl : ofName l = some a) (hr : ofName r = some b) :
    ofName (Inference.widened .add l r) = some (a.plus b) := by
  have hl' := rankOf_of_ofName hl
  have hr' := rankOf_of_ofName hr
  unfold Inference.widened
  rw [hl', hr']
  -- of 64 bits there is no next type, so the name of the operand stays
  rcases a with _ | v | v <;> rcases b with _ | w | w <;> (try cases v) <;> (try cases w)
  all_goals first | rfl | exact hl | exact hr

/-- One operand is signed and has more than twice the bits of the other, which is unsigned. -/
def Outgrows : IntType → IntType → Prop
  | .signed v, .unsigned w => 2 * w.bits < v.bits
  | _, _ => False

instance : (a b : IntType) → Decidable (Outgrows a b)
  | .signed v, .unsigned w => inferInstanceAs (Decidable (2 * w.bits < v.bits))
  | .bool, _ | .unsigned _, _ | .signed _, .bool | .signed _, .signed _ => isFalse id

/-- The type of a sum has no fewer bits than those of its operands unless one outgrows the other. -/
theorem bits_le_plus_iff (a b : IntType) :
    (a.bits ≤ (a.plus b).bits ∧ b.bits ≤ (a.plus b).bits) ↔ ¬ (a.Outgrows b ∨ b.Outgrows a) := by
  rcases a with _ | v | v <;> rcases b with _ | w | w <;> (try cases v) <;> (try cases w) <;> decide

theorem isUnsigned_plus (a b : IntType) : (a.plus b).isUnsigned = (a.isUnsigned || b.isUnsigned) := by
  rcases a with _ | v | v <;> rcases b with _ | w | w <;> (try cases v) <;> (try cases w) <;> rfl

theorem low_nonpos (a : IntType) : a.low ≤ 0 := by
  rcases a with _ | v | v <;> (try cases v) <;> decide

theorem has_low (a : IntType) : a.Has a.low := by
  rcases a with _ | v | v <;> (try cases v) <;> exact ⟨by decide, by decide⟩

theorem has_plus (ha : a.isUnsigned = false) (hb : b.isUnsigned = false) (ha64 : a.bits ≠ 64) (hb64 : b.bits ≠ 64)
    (hx : a.Has x) (hy : b.Has y) : (a.plus b).Has (x + y) := by
  simp only [Has] at *
  rcases a with _ | v | v <;> rcases b with _ | w | w <;> (try cases v) <;> (try cases w) <;>
    simp [plus, rank, next, Width.next, low, high, bits, Width.bits, isUnsigned] at * <;> omega

/-- What a sum of truth values and unsigned integers can come to: there are at most two, four or eight truth values
in a sum that is given eight, sixteen or thirty-two bits. -/
def Reaches : IntType → Int → Prop
  | .signed w, x => 0 ≤ x ∧ 4 * x ≤ w.bits
  | t, x => t.Has x

theorem reaches_plus (ha64 : a.bits ≠ 64) (hb64 : b.bits ≠ 64) (hx : a.Reaches x) (hy : b.Reaches y) :
    (a.plus b).Reaches (x + y) := by
  rcases a with _ | v | v <;> rcases b with _ | w | w <;> (try cases v) <;> (try cases w) <;>
    simp [plus, rank, next, Width.next, Reaches, Has, low, high, bits, Width.bits] at * <;> omega

theorem reaches_of_has (ha : a.isSigned = false) (h : a.Has x) : a.Reaches x := by
  cases a with
  | signed w => cases ha
  | bool | unsigned w => exact h

theorem has_of_reaches (h : a.Reaches x) : a.Has x := by
  rcases a with _ | v | v <;> (try cases v) <;> simp [Reaches, Has, low, high, Width.bits] at * <;> omega

end IntType

inductive Sum where
  | named (name : String)
  | plus (l r : Sum)

namespace Sum

variable {types : String → IntType} {e l r : Sum}

def names : Sum → List String
  | .named x => [x]
  | .plus l r => l.names ++ r.names

def value (v : String → Int) : Sum → Int
  | .named x => v x
  | .plus l r => l.value v + r.value v

def type (types : String → IntType) : Sum → IntType
  | .named x => types x
  | .plus l r => (l.type types).plus (r.type types)

def Narrow (types : String → IntType) : Sum → Prop
  | .named _ => True
  | .plus l r => l.Narrow types ∧ r.Narrow types ∧ (l.type types).bits ≠ 64 ∧ (r.type types).bits ≠ 64

/-- A sum fits its type, whatever the values of its variables are. -/
def Fits (types : String → IntType) (e : Sum) : Prop :=
  ∀ v : String → Int, (∀ x ∈ e.names, (types x).Has (v x)) → (e.type types).Has (e.value v)

/-- There are signed variables in a sum as well as unsigned ones. -/
def Mixed (types : String → IntType) (e : Sum) : Prop :=
  (∃ x ∈ e.names, (types x).isSigned = true) ∧ ∃ x ∈ e.names, (types x).isUnsigned = true

theorem isUnsigned_type : (e.type types).isUnsigned = true ↔ ∃ x ∈ e.names, (types x).isUnsigned = true := by
  induction e with
  | named x => simp [type, names]
  | plus l r ihl ihr => simp [type, names, IntType.isUnsigned_plus, ihl, ihr, or_and_right, exists_or]

/-- What holds of the variables and of every sum of what it holds of, holds of all sums. -/
theorem holds_of_names {P : IntType → Int → Prop} {v : String → Int} (hnarrow : e.Narrow types)
    (hplus : ∀ a b x y, a.bits ≠ 64 → b.bits ≠ 64 → P a x → P b y → P (a.plus b) (x + y))
    (hv : ∀ x ∈ e.names, P (types x) (v x)) : P (e.type types) (e.value v) := by
  induction e with
  | named x => exact hv x List.mem_cons_self
  | plus l r ihl ihr =>
    obtain ⟨hl, hr, hl64, hr64⟩ := hnarrow
    simp only [names, List.mem_append, or_imp, forall_and] at hv
    exact hplus _ _ _ _ hl64 hr64 (ihl hl hv.1) (ihr hr hv.2)

/-- The least value of a sum is not positive, and it is negative if a variable is signed. -/
theorem value_low_nonpos (types : String → IntType) (e : Sum) : e.value (fun x => (types x).low) ≤ 0 := by
  induction e with
  | named x => exact (types x).low_nonpos
  | plus l r ihl ihr =>
    rw [value]
    omega

theorem value_low_neg (h : ∃ x ∈ e.names, (types x).isSigned = true) : e.value (fun x => (types x).low) < 0 := by
  induction e with
  | named y =>
    obtain ⟨x, hx, hsigned⟩ := h
    obtain rfl := List.mem_singleton.1 hx
    rw [value]
    generalize types x = t at hsigned
    cases t with
    | signed w => cases w <;> decide
    | bool | unsigned w => cases hsigned
  | plus l r ihl ihr =>
    have hl := value_low_nonpos types l
    have hr := value_low_nonpos types r
    simp only [names, List.mem_append, or_and_right, exists_or] at h
    rw [value]
    rcases h with h | h
    · have := ihl h
      omega
    · have := ihr h
      omega

/-- If no operand has 64 bits, a sum fits its type exactly if signed variables are not mixed with unsigned ones. -/
theorem fits_iff (hnarrow : e.Narrow types) : e.Fits types ↔ ¬ e.Mixed types := by
  constructor
  · rintro hfits ⟨hsigned, hunsigned⟩
    -- the type is unsigned, and with all variables at their least the sum is negative
    have hlow := (hfits _ fun x _ => (types x).has_low).1
    have hneg := value_low_neg hsigned
    have htype : (e.type types).low = 0 := by
      have hunsigned := isUnsigned_type.2 hunsigned
      generalize e.type types = t at hunsigned
      cases t with
      | unsigned w => rfl
      | bool | signed w => cases hunsigned
    omega
  · intro hmixed v hv
    by_cases hsigned : ∃ x ∈ e.names, (types x).isSigned = true
    · refine (holds_of_names (P := fun t x => t.isUnsigned = false ∧ t.Has x) hnarrow ?_ fun x hx => ⟨?_, hv x hx⟩).2
      · rintro a b x y ha64 hb64 ⟨ha, hx⟩ ⟨hb, hy⟩
        exact ⟨by rw [IntType.isUnsigned_plus, ha, hb]; rfl, IntType.has_plus ha hb ha64 hb64 hx hy⟩
      · exact Bool.not_eq_true _ ▸ fun hunsigned => hmixed ⟨hsigned, x, hx, hunsigned⟩
    · refine IntType.has_of_reaches (holds_of_names hnarrow (fun _ _ _ _ => IntType.reaches_plus) fun x hx => ?_)
      exact IntType.reaches_of_has (Bool.not_eq_true _ ▸ fun h => hsigned ⟨x, hx, h⟩) (hv x hx)

end Sum

end Polyglot
