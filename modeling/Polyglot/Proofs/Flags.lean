import Mathlib.Data.Nat.Bitwise
import Polyglot.Proofs.Comparisons

/-!
# Numbers of flags

Of a class of flags whose members are all left open, four targets write the number of every member. Two of them count the
members up from zero, so the first flag is no flag at all and later ones share bits; two give every member a bit of its own.
-/
namespace Polyglot

open Effect List Dialect Emit

/-- The targets that write the numbers of flags. -/
inductive FlagTarget where
  | cpp | d | julia | kotlin
  deriving DecidableEq

namespace FlagTarget

def dialect : FlagTarget → Visit → Dialect
  | .cpp => Cpp.dialect
  | .d => D.dialect
  | .julia => Julia.dialect
  | .kotlin => Kotlin.dialect

def classDef : FlagTarget → Visit → Node → Emit (Option String)
  | .cpp => Cpp.classDef
  | .d => D.classDef
  | .julia => Julia.classDef
  | .kotlin => Kotlin.classDef

/-- The number of a flag, by its place. -/
def number : FlagTarget → Nat → Nat
  | .cpp, i | .d, i => i
  | .julia, i | .kotlin, i => 2 ^ i

/-- A class of flags with their numbers. -/
def text (name : String) (flags : List (String × Nat)) : FlagTarget → String
  | .cpp => "enum " ++ name ++ " : int \x7b\n" ++
      String.join (flags.map fun (k, v) => k ++ " = " ++ toString v ++ ",") ++ "\x7d;\n"
  | .d =>
    let pad := Text.times " " 12
    let type := "int"
    Text.dedent (pad ++ "@VnumDefinition\n" ++ pad ++ "class " ++ name ++ " extends Vnum<" ++ type ++ "> \x7b\n" ++
      Text.lines (flags.map fun (k, v) =>
        Text.times " " 20 ++ "static final " ++ k ++ " = const " ++ name ++ ".define(" ++ toString v ++ ");") ++ "\n\n" ++
      pad ++ "const " ++ name ++ ".define(" ++ type ++ " fromValue) : super.define(fromValue);\n" ++
      pad ++ "  factory " ++ name ++ "(" ++ type ++ " value) => Vnum.fromValue(value, " ++ name ++ ");\n" ++
      pad ++ "\x7d\n" ++ pad)
  | .julia =>
    let pad := Text.times " " 12
    Text.dedent (pad ++ "@se " ++ name ++ " begin\n" ++ String.join (flags.map fun (k, v) =>
      Text.times " " 16 ++ k ++ " " ++ "=" ++ " " ++ toString v ++ "\n" ++ pad) ++ "\n" ++ pad ++ "end\n" ++ pad)
  | .kotlin => "enum class " ++ name ++ "(val value: " ++ "Int" ++ ") \x7b\n" ++ String.join (flags.map fun (k, v) =>
      Text.times " " 16 ++ k ++ "(" ++ toString v ++ "),\n" ++ Text.times " " 12) ++ "\n\x7d"

theorem number_disjoint_iff (t : FlagTarget) (n : Nat) :
    (∀ i < n, t.number i ≠ 0 ∧ ∀ j < n, i ≠ j → t.number i &&& t.number j = 0) ↔ t = .julia ∨ t = .kotlin ∨ n = 0 := by
  have hbits (i : Nat) : 2 ^ i ≠ 0 ∧ ∀ j < n, i ≠ j → 2 ^ i &&& 2 ^ j = 0 := by
    refine ⟨(Nat.two_pow_pos i).ne', fun j _ hij => Nat.eq_of_testBit_eq fun k => ?_⟩
    grind
  have hzero (h : ∀ i < n, i ≠ 0 ∧ ∀ j < n, i ≠ j → i &&& j = 0) : n = 0 :=
    Nat.eq_zero_of_not_pos fun hn => (h 0 hn).1 rfl
  cases t with
  | cpp | d => simpa [number] using ⟨hzero, by rintro rfl; exact nofun⟩
  | julia | kotlin => simpa [number] using fun i _ => (hbits i).2

end FlagTarget

/-- A target writes every class of flags that are all left open, and numbers them so that none is zero and no two share a
bit exactly if it numbers by bits or there are no flags. -/
theorem flags_disjoint_iff (t : FlagTarget) {visit : Visit} {n : Node} {c : Class Node} {ds : List (String × TypeTerm)}
    {p q r : Page} (names : List String) (hdeclare : (Members.declare (t.dialect visit) n) p = .ok (c, ds) q)
    (hflags : enumKind? c.bases = some .flag) (hauto : classValues visit n q = .ok (names.map (·, "auto()")) r) :
    (∃ r', t.classDef visit n p = .ok (some (t.text c.name (names.zipIdx.map fun (m, i) => (m, t.number i)))) r') ∧
    ((∀ i < names.length, t.number i ≠ 0 ∧ ∀ j < names.length, i ≠ j → t.number i &&& t.number j = 0) ↔
      t = .julia ∨ t = .kotlin ∨ names = []) := by
  refine ⟨?_, (t.number_disjoint_iff _).trans (by rw [length_eq_zero_iff])⟩
  have hmap {α : Type} (f : (String × String) × Nat → α) :
      (names.map (·, "auto()")).zipIdx.map f = names.zipIdx.map fun (m, i) => f ((m, "auto()"), i) := by
    rw [zipIdx_map, map_map]
    rfl
  cases t with
  | cpp =>
    refine ⟨r, (bind_ok hdeclare).trans ?_⟩
    simp only [hflags, FlagTarget.text, map_map]
    rw [Cpp.numberEnum, Cpp.enumFields, bind_assoc, bind_ok hauto, hmap, pure_bind, map_map]
    rfl
  | d =>
    refine ⟨{ r with classes := insertNew c.name r.classes }, (bind_ok hdeclare).trans ?_⟩
    simp only [hflags, FlagTarget.text, map_map]
    rw [D.enumClass, bind_assoc, bind_ok hauto, hmap]
    rfl
  | julia =>
    refine ⟨{ r with usings := insertNew "SuperEnum" r.usings }, (bind_ok hdeclare).trans ?_⟩
    simp only [hflags, FlagTarget.text, map_map]
    rw [Julia.enumClass, bind_ok hauto]
    simp only [hmap]
    rfl
  | kotlin =>
    refine ⟨r, (bind_ok hdeclare).trans ?_⟩
    simp only [hflags, FlagTarget.text, map_map]
    rw [Kotlin.enumClass, bind_ok hauto, hmap]
    rfl

def twoFlags : Node :=
  let flag (id : NodeId) (name : String) : Node :=
    ⟨id, none, none, .assign [⟨id + 1, none, none, .name name .store⟩] ⟨id + 2, none, none, .pass⟩⟩
  ⟨1, none, none, .classDef ⟨"F", [⟨2, none, none, .name "IntFlag" .load⟩], [], [flag 3 "A", flag 6 "B"], []⟩⟩

theorem twoFlags_written : ∃ q, Kotlin.classDef (fun _ => pure (some "auto()")) twoFlags {} =
    .ok (some (FlagTarget.kotlin.text "F" [("A", 1), ("B", 2)])) q := by
  let visit : Visit := fun _ => pure (some "auto()")
  have hrun : (match (Members.declare (Kotlin.dialect visit) twoFlags) {} with
      | .ok (c, _) q => match classValues visit twoFlags q with
        | .ok values _ => (c.name, enumKind? c.bases, values) == ("F", some .flag, ["A", "B"].map (·, "auto()"))
        | .error _ _ => false
      | .error _ _ => false) = true := by decide +kernel
  split at hrun
  · split at hrun
    · obtain ⟨hname, hflags, rfl⟩ : _ ∧ _ ∧ _ := by simpa using hrun
      obtain ⟨⟨q, hq⟩, -⟩ := flags_disjoint_iff .kotlin ["A", "B"] ‹_› hflags ‹_›
      exact ⟨q, hname ▸ hq⟩
    · cases hrun
  · cases hrun

/-- The first of three flags is numbered zero. -/
theorem first_flag_zero :
    (Chain.textFor Cpp.target "from enum import IntFlag, auto\n\nclass F(IntFlag):\n    A = auto()\n    B = auto()\n    C = auto()\n").any
      (Text.endsWith · "enum F : int \x7b\nA = 0,B = 1,C = 2,\x7d;\n\n") := by
  decide +kernel

end Polyglot
