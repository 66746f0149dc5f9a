import Polyglot.Lowering.Basic

/-!
# Destructuring assignments

An assignment to a tuple whose first part is no plain name goes through temporaries. Parts that are called `_`
are evaluated and dropped.
-/
namespace Polyglot.Destructuring

open Session Lowering

def temporary (lang : Language) (kind : String) : Analysis String := do
  let n ← nextTemporary kind
  return (if lang == .nim then "tmp" else "__tmp") ++ toString n

def viaTemporaries (lang : Language) : Lowering := fun self n => do
  match n.shape with
  | .assign targets _ =>
    if [Language.cpp, .julia, .d, .dart, .v, .mojo].contains lang then return [n]
    else
      match ← targets.head?.mapM current with
      | some ⟨i, line, col, .tuple elts u⟩ =>
        match elts with
        | [] => fail .outOfRange
        | e :: _ =>
          if (← current e).isName then return [n]
          else
            let temps ← elts.mapM fun _ => do nameOn n.line (← temporary lang "destructuring")
            let _ ← edit ⟨i, line, col, .tuple elts u⟩ (.tuple temps u)
            let assigns ← (elts.zip temps).mapM fun (e, t) => assignOn n.line e t
            return [← block (n :: assigns) n]
      | _ => return [n]
  | _ => through self n

/-- Takes the parts called `_` out of both sides, counting on as the sides shrink. -/
def dropIgnored (names : List (Option String)) :
    Nat → Nat → List Node → List Node → List Node → Analysis (List Node × List Node × List Node)
  | 0, _, ts, vs, dropped => return (ts, vs, dropped)
  | k + 1, i, ts, vs, dropped =>
    match names[i]? with
    | none => fail .outOfRange
    | some name =>
      if name == some "_" then
        if ts.length ≤ i then fail .outOfRange
        else
          match vs[i]? with
          | none => fail .outOfRange
          | some v => dropIgnored names k (i + 1) (ts.eraseIdx i) (vs.eraseIdx i) (dropped ++ [v])
      else dropIgnored names k (i + 1) ts vs dropped

def splitAll (keepIgnored : Bool) : List Node → List Node → Analysis (List Node)
  | [], _ => return []
  | _ :: _, [] => fail .outOfRange
  | t :: ts, v :: vs => do
    let t ← current t
    let s ← if t.ident? == some "_" && t.isName && !keepIgnored then do
        let e ← fresh (.exprStmt v)
        note e.id ({ · with unused := true })
        pure e
      else fresh (.assign [t] v)
    return s :: (← splitAll keepIgnored ts vs)

def ignoring (lang : Language) : Lowering := fun self n => do
  match n.shape with
  | .assign targets value =>
    if lang == .nim || lang == .v then return [n]
    else
      match ← targets.head?.mapM current, ← current value with
      | some ⟨i, line, col, .tuple elts u⟩, ⟨vi, vline, vcol, .tuple velts vu⟩ =>
        let elts ← elts.mapM current
        let names := (elts.filter Node.isName).map Node.ident?
        if !(names.contains (some "_")) then return [n]
        else if [Language.cpp, .d, .dart, .go, .rust].contains lang then
          return [← block (← splitAll (lang == .go) elts velts) n]
        else
          let (ts, vs, dropped) ← dropIgnored names elts.length 0 elts velts []
          let _ ← edit ⟨i, line, col, .tuple elts u⟩ (.tuple ts u)
          let _ ← edit ⟨vi, vline, vcol, .tuple velts vu⟩ (.tuple vs vu)
          let evals ← dropped.mapM fun e => fresh (.exprStmt e)
          return [← block (evals ++ [n]) n]
      | _, _ => return [n]
  | _ => through self n

end Polyglot.Destructuring
