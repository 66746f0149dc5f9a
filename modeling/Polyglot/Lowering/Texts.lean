import Polyglot.Lowering.Basic
import Polyglot.Typing.Inference

/-!
# Texts

Formatted strings become joins of their parts, a documenting string becomes a comment of what it documents,
a printed truth value becomes a choice of words, and a search of a text in a text becomes a call.
-/
namespace Polyglot.Texts

open Session Lowering

/-- A new call of a function on a line of its own making. -/
def joinParts (lang : Language) : Lowering := fun self n => do
  match n.shape with
  | .joinedStr values =>
    if [Language.mojo, .python, .v].contains lang then return [n]
    else
      let line ← lineOf n
      let col ← colOf n
      let join ← readFirst "\"\".join([])"
      match join.shape with
      | .call func (list :: _) kws =>
        let elts ← values.filterMapM fun v => do
          match v.shape with
          | .constant .. => return some v
          | .formatted value _ _ =>
            let str ← fresh (.name "str" .word)
            some <$> fresh (.call str [value] [])
          | _ => return none
        let list ← edit list (.list elts .load)
        let join : Node := ⟨join.id, some line, some col, .call func [list] kws⟩
        record join
        return [← place join]
      | _ => fail .wrongSort
  | _ => through self n

def docstring? (body : List Node) : Analysis (Option String) := do
  match body with
  | b :: _ =>
    match (← current b).shape with
    | .exprStmt v =>
      match (← current v).shape with
      | .constant (.str s) _ => return some s
      | _ => return none
    | _ => return none
  | [] => return none

def documented (self : Node → Analysis (List Node)) (n : Node) (body : List Node)
    (rebuild : List Node → Shape Node) : Analysis (List Node) := do
  match ← docstring? body with
  | some s =>
    note n.id ({ · with docstring := some s })
    through self (n.withShape (rebuild body.tail))
  | none => through self n

def commentDocstrings : Lowering := fun self n => do
  match n.shape with
  | .functionDef f => documented self n f.body fun body => .functionDef { f with body }
  | .classDef c => documented self n c.body fun body => .classDef { c with body }
  | .module body => documented self n body .module
  | _ => through self n

def wordChoice (n test : Node) : Analysis Node := do
  let choice ← readFirst "'True' if true else 'False'"
  match choice.shape with
  | .ifExp _ body orelse =>
    let choice : Node := ⟨choice.id, some (← lineOf n), some (← colOf n), .ifExp test body orelse⟩
    record choice
    place choice
  | _ => fail .wrongSort

def printedBranch (n test : Node) : Analysis Node := do
  let b ← statementAt "if True:\n    print('True')\nelse:\n    print('False')\n" n
  match b.shape with
  | .cond _ body orelse => place (← edit b (.cond test body orelse))
  | _ => fail .wrongSort

def printTruth (lang : Language) : Lowering := fun self n => do
  match n.shape with
  | .call func [a] kws =>
    if (← current func).ident? == some "print" && ((← hintOf a).bind Node.ident?) == some "bool" then
      if lang == .go then return [← printedBranch n a]
      else
        let choice ← wordChoice n a
        return [← edit n (.call func [choice] kws)]
    else return [n]
  | .call .. => return [n]
  | _ => through self n

def searchCall (lang : Language) (left right : Node) : Analysis Node := do
  match lang with
  | .julia =>
    let e ← readFirst "findfirst(a, b) != Nothing"
    match e.shape with
    | .compare call ops cs =>
      match call.shape with
      | .call f _ ks => edit e (.compare (← edit call (.call f [left, right] ks)) ops cs)
      | _ => fail .wrongSort
    | _ => fail .wrongSort
  | .go =>
    let e ← readFirst "StringsContains(a, b)"
    match e.shape with
    | .call f _ ks => edit e (.call f [right, left] ks)
    | _ => fail .wrongSort
  | .cpp =>
    let e ← readFirst "a.find(b) != string.npos"
    match e.shape with
    | .compare call ops cs =>
      match call.shape with
      | .call f _ ks =>
        match f.shape with
        | .attribute _ attr u =>
          let f ← edit f (.attribute right attr u)
          edit e (.compare (← edit call (.call f [left] ks)) ops cs)
        | _ => fail .wrongSort
      | _ => fail .wrongSort
    | _ => fail .wrongSort
  | _ =>
    let e ← readFirst "a.contains(b)"
    match e.shape with
    | .call f _ ks =>
      match f.shape with
      | .attribute _ attr u => edit e (.call (← edit f (.attribute right attr u)) [left] ks)
      | _ => fail .wrongSort
    | _ => fail .wrongSort

def searchTexts (lang : Language) : Lowering := fun self n => do
  match n.shape with
  | .compare left ops (right :: _) =>
    if [Language.d, .dart, .kotlin, .nim, .python].contains lang || ops.head? != some .isIn then return [n]
    else if (← Inference.typeNameOf left) == some "str" && (← Inference.typeNameOf right) == some "str" then
      let e ← searchCall lang left right
      let e := { e with line := some (← lineOf n) }
      record e
      return [← place e]
    else return [n]
  | _ => through self n

end Polyglot.Texts
