import Polyglot.Emit.Common

/-!
# Members of a class

Collects what a class declares: members with a written type, values assigned in its body, and members that its
methods assign on their own object. The declarations of a data class leave its body.
-/
namespace Polyglot

open Session Emit

structure Members where
  annotated : List (String × TypeTerm × Option NodeId) := []
  assigned : List (Member × Option NodeId) := []
  own : List (String × Node) := []

namespace Members

abbrev Collect := StateT Members Emit

def isOwn (d : Dialect) (target : Node) : Collect Bool := do
  match target.shape with
  | .attribute v _ _ | .subscript v _ _ | .starred v _ => return (← d.visit v) == some "self"
  | _ => return false

def assign (key : Member) (value : Option NodeId) : Collect Unit :=
  modify fun m => if m.assigned.any (·.1 == key) then m else { m with assigned := m.assigned ++ [(key, value)] }

def declared (d : Dialect) (n target ann : Node) (value : Option Node) : Collect Unit := do
  match target.ident? with
  | none => pure ()
  | some id =>
    let written := match ann.shape with
      | .constant v _ => TypeTerm.ofLiteral v
      | _ => .absent
    let type ← if written == .absent then (d.typeOf n : Emit TypeTerm) else pure written
    modify fun m =>
      if (m.annotated.lookup id).isSome then m
      else { m with annotated := m.annotated ++ [(id, type, value.map (·.id))] }
    if !(← isOwn d target) then
      (note n.id ({ · with classAssignment := true }) : Analysis Unit)
      assign (.target target.id) (value.map (·.id))

def step (d : Dialect) (self : Node → Collect Unit) (n : Node) : Collect Unit := do
  match n.shape with
  | .classDef c =>
    if c.decorators.any fun x => x.ident? == some "dataclass" then
      (note n.id ({ · with isDataclass := some true }) : Analysis Unit)
      for b in c.body do
        if let .annAssign target ann value _ := b.shape then
          declared d b target ann value
          let _ ← (d.typeOf b : Emit TypeTerm)
      let rest := c.body.filter fun b => !(b.shape matches .annAssign ..)
      let _ ← (edit n (.classDef { c with body := rest }) : Analysis Node)
    else
      (note n.id ({ · with isDataclass := some false }) : Analysis Unit)
      Pass.below self n
  | .functionDef f | .asyncFunctionDef f =>
    let _ ← (d.parameters f.args : Emit _)
    Pass.below self n
  | .annAssign target ann value _ => declared d n target ann value
  | .assign targets value =>
    match targets.head? with
    | none => (fail .outOfRange : Analysis Unit)
    | some target =>
      if ← isOwn d target then
        match target.shape with
        | .attribute _ attr _ =>
          modify fun m => if (m.own.lookup attr).isSome then m else { m with own := m.own ++ [(attr, value)] }
        | _ => (fail .missingPart : Analysis Unit)
      else
        (note n.id ({ · with classAssignment := true }) : Analysis Unit)
        assign (.named target.ident?) (some value.id)
  | .withBlock items _ =>
    for i in items do
      if let .withItem context (some v) := i.shape then
        match v.ident? with
        | some id => if !id.isEmpty then assign (.named (some id)) (some context.id)
        | none => pure ()
    Pass.below self n
  | _ => Pass.below self n

def collect (d : Dialect) (n : Node) : Emit Members := do
  (d.install : Analysis Unit)
  aside d.start do
    let n ← current n
    return (← (Pass.run (step d) n).run {}).2

def ownTypes (d : Dialect) (m : Members) : Emit (List (String × TypeTerm)) :=
  (m.own.filter fun (name, _) => !(m.annotated.any (·.1 == name))).mapM fun (name, value) => do
    return (name, ← d.typeOf value)

/-- All members with their types; a name that is a keyword is marked. -/
def declarations (d : Dialect) (keywords : List String) (m : Members) : Emit (List (String × TypeTerm)) := do
  let typed := m.annotated.map fun (name, type, _) => (name, type)
  let all := typed ++ (← m.ownTypes d)
  let renamed := all.map fun (name, type) => (if keywords.contains name then name ++ "_" else name, type)
  return renamed.foldl (fun acc (name, type) =>
    if acc.any (·.1 == name) then acc.map fun (k, t) => if k == name then (k, type) else (k, t)
    else acc ++ [(name, type)]) []

def withDefaults (d : Dialect) (m : Members) : Emit (List (String × TypeTerm × Option NodeId)) := do
  return m.annotated ++ (← m.ownTypes d).map fun (name, type) => (name, type, none)

/-- Collects the members of a class and remembers them, with their values on demand. Gives what is left of the class, and
its declarations. -/
def declare (d : Dialect) (n : Node) (keywords : List String := []) (keepsValues : Bool := false) :
    Emit (Class Node × List (String × TypeTerm)) := do
  let members ← collect d n
  let declarations ← members.declarations d keywords
  let defaults ← if keepsValues then some <$> members.withDefaults d else pure none
  note n.id fun f => { f with
    declarations := some declarations, declaredDefaults := defaults <|> f.declaredDefaults,
    classAssignments := some members.assigned }
  match (← current n).shape with
  | .classDef c => return (c, declarations)
  | _ => fail .missingPart

/-- The methods of a class know whose they are. -/
def ownMethods (c : Class Node) (name : String := c.name) : Emit Unit :=
  for b in c.body do
    if b.isFunction then note b.id ({ · with selfType := some name })

end Members

end Polyglot
