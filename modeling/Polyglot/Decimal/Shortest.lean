/-!
# Shortest decimals

The decimal with the fewest digits that reads back as a given binary number and, of those, the one
nearest to it. The number is taken apart exactly: a finite double is `m * 2 ^ q`, and the reals that
round to it are an interval around it, which contains its ends exactly when `m` is even.
-/
namespace Polyglot.Decimal

structure Ratio where
  num : Nat
  den : Nat

structure Digits where
  digits : Nat
  exponent : Int

inductive Parts where
  | nan
  | infinite (negative : Bool)
  | finite (negative : Bool) (m : Nat) (q : Int)

def parts (x : Float) : Parts :=
  let bits := x.toBits.toNat
  let negative := bits / Nat.pow 2 63 == 1
  let e := bits / Nat.pow 2 52 % 2048
  let f := bits % Nat.pow 2 52
  if e == 2047 then if f == 0 then .infinite negative else .nan
  else if e == 0 then .finite negative f (-1074)
  else .finite negative (f + Nat.pow 2 52) (Int.ofNat e - 1075)

def quarter (a : Nat) (q : Int) : Ratio :=
  if 0 ≤ q then ⟨a * Nat.pow 2 q.toNat, 4⟩ else ⟨a, 4 * Nat.pow 2 (-q).toNat⟩

/-- The largest `k` with `10 ^ k ≤ num / den`, for a positive ratio. -/
def magnitude (r : Ratio) : Int :=
  if r.den ≤ r.num then Int.ofNat ((Nat.toDigits 10 (r.num / r.den)).length - 1)
  else
    let l := (Nat.toDigits 10 (r.den / r.num)).length
    if r.num * Nat.pow 10 (l - 1) == r.den then -Int.ofNat (l - 1) else -Int.ofNat l

/-- The part of `r / 10 ^ t` before the point. -/
def floorAt (r : Ratio) (t : Int) : Nat :=
  if 0 ≤ t then r.num / (r.den * Nat.pow 10 t.toNat) else r.num * Nat.pow 10 (-t).toNat / r.den

/-- Compares `c * 10 ^ t` with a ratio. -/
def compareAt (c : Nat) (t : Int) (r : Ratio) : Ordering :=
  if 0 ≤ t then compare (c * Nat.pow 10 t.toNat * r.den) r.num
  else compare (c * r.den) (r.num * Nat.pow 10 (-t).toNat)

structure Interval where
  low : Ratio
  high : Ratio
  closed : Bool

def Interval.has (i : Interval) (c : Nat) (t : Int) : Bool :=
  match compareAt c t i.low, compareAt c t i.high with
  | .gt, .lt => true
  | .eq, _ | _, .eq => i.closed
  | _, _ => false

/-- The candidate nearer to `v` of `c` and `c + 1` on the grid `10 ^ t`; a tie goes to the even one. -/
def nearer (v : Ratio) (c : Nat) (t : Int) : Nat :=
  match compareAt (2 * c + 1) t ⟨2 * v.num, v.den⟩ with
  | .lt => c + 1
  | .gt => c
  | .eq => if c % 2 == 0 then c else c + 1

/-- The first grid, from coarse to fine, that has a point in the interval. -/
def search (v : Ratio) (i : Interval) (k : Int) : Nat → Nat → Digits
  | _, 0 => ⟨floorAt v (k - 16), k - 16⟩
  | n, fuel + 1 =>
    let t := k - Int.ofNat n
    let c := floorAt v t
    match i.has c t, i.has (c + 1) t with
    | true, true => ⟨nearer v c t, t⟩
    | true, false => ⟨c, t⟩
    | false, true => ⟨c + 1, t⟩
    | false, false => search v i k (n + 1) fuel

/-- The shortest decimal of `m * 2 ^ q`, for positive `m`. -/
def shortest (m : Nat) (q : Int) : Digits :=
  let v := quarter (4 * m) q
  let narrow := m == Nat.pow 2 52 && q > -1074
  let i : Interval :=
    { low := quarter (if narrow then 4 * m - 1 else 4 * m - 2) q
      high := quarter (4 * m + 2) q
      closed := m % 2 == 0 }
  search v i (magnitude v) 0 17

/-- Where a written number changes from positional to scientific notation, and whether a whole number
keeps its point. -/
structure Format where
  least : Int
  most : Int
  keepPoint : Bool

/-- Numbers are positional from `1e-4` up to `1e16`, and a whole number ends in `.0`. -/
def plain : Format := ⟨-4, 16, true⟩

def pointless : Format := ⟨-4, 16, false⟩

def zeros (n : Nat) : String := String.ofList (List.replicate n '0')

/-- Writes digits with the point after the first `p` of them, `p` being any integer. -/
def layout (f : Format) (digits : String) (p : Int) : String :=
  let n := digits.length
  if p ≤ f.least || p > f.most then
    let e := p - 1
    let fraction := if n > 1 then "." ++ String.ofList (digits.toList.drop 1) else ""
    let shown := toString e.natAbs
    String.ofList (digits.toList.take 1) ++ fraction ++ "e" ++ (if e < 0 then "-" else "+") ++
      (if shown.length < 2 then "0" else "") ++ shown
  else if p ≤ 0 then "0." ++ zeros (-p).toNat ++ digits
  else if n ≤ p.toNat then digits ++ zeros (p.toNat - n) ++ (if f.keepPoint then ".0" else "")
  else String.ofList (digits.toList.take p.toNat) ++ "." ++ String.ofList (digits.toList.drop p.toNat)

def trimZeros (digits : String) : String :=
  String.ofList (digits.toList.reverse.dropWhile (· == '0')).reverse

def write (f : Format) (x : Float) : String :=
  match parts x with
  | .nan => "nan"
  | .infinite negative => if negative then "-inf" else "inf"
  | .finite negative m q =>
    let sign := if negative then "-" else ""
    if m == 0 then sign ++ "0" ++ (if f.keepPoint then ".0" else "")
    else
      let d := shortest m q
      let all := toString d.digits
      sign ++ layout f (trimZeros all) (Int.ofNat all.length + d.exponent)

end Polyglot.Decimal
