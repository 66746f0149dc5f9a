import Polyglot.Known
import Polyglot.Scope

/-!
# Naming types

How an annotation reads in a target. A target has names for known classes and for containers; a container
with its parameters is put together by `combine`. Every container type that is read is remembered at the
annotation and at the annotated node, once with the target's names and once with the source's.
-/
namespace Polyglot

open Session

structure TypeStyle where
  fallback : TypeTerm
  /-- The target's own container names, where they are not those of the session. -/
  containers : Option (List (String × String))
  nameType : TypeMaps → String → Lifetime → Analysis TypeTerm
  combine : TypeTerm → TypeTerm → Analysis TypeTerm
  /-- The parameters that are remembered for a container. -/
  settle : TypeTerm → TypeTerm → TypeTerm
  /-- The type of an annotated node, from a container and its parameters. -/
  container : TypeMaps → TypeTerm → TypeTerm → Analysis TypeTerm
  /-- The last word on the type of an annotation. -/
  adjust : TypeTerm → TypeTerm
  /-- How the type of a function is written, from its parameters and its result. -/
  functionType : Option (String → String → String)

namespace TypeStyle

def mapsOf (st : TypeStyle) : Analysis TypeMaps := do
  let m := (← get).maps
  return { m with containers := st.containers.getD m.containers, fallback := st.fallback }

def knownName (m : TypeMaps) (name : String) : String :=
  ((Known.resolve [] name).bind fun key => m.types.lookup key).getD name

/-- A type by name: a known class has the target's name, all others keep theirs. -/
def commonName (m : TypeMaps) (name : String) (_ : Lifetime) : Analysis TypeTerm :=
  return .text (knownName m name)

def angled (value index : TypeTerm) : Analysis TypeTerm :=
  return .text (value.shown ++ "<" ++ index.shown ++ ">")

def squared (value index : TypeTerm) : Analysis TypeTerm :=
  return .text (value.shown ++ "[" ++ index.shown ++ "]")

/-- A container type; if a parameter can be anything or the container has no name in the target, so has the
whole. Several parameters are written with commas, and each of them has to be a name. -/
def commonContainer (combine : TypeTerm → TypeTerm → Analysis TypeTerm) (m : TypeMaps) (value index : TypeTerm) :
    Analysis TypeTerm := do
  match index with
  | .many ts =>
    if ts.any (·.isText "Any") then return m.fallback
    else if ts.any (· == .absent) then
      throw ⟨.typeless, some ("(" ++ value.quoted ++ ", " ++ index.quoted ++ ") not supported"), none⟩
    else
      let names ← ts.mapM fun t => match t with
        | .text s => pure s
        | _ => fail .wrongSort
      if value == m.fallback then return m.fallback
      else combine value (.text (Text.commas names))
  | _ =>
    if index.isText "Any" || value == m.fallback then return m.fallback else combine value index

/-- The name of a dotted type, without the module of type formers. -/
def dottedType (n : Node) : String :=
  let id := n.ident?.getD "None"
  if Text.startsWith id "typing." then ((Text.split id ".").getD 1 "") else id

def parameterOf (n : Node) (index : Node) : Analysis Node := do
  if index.shape matches .slice .. then throwAt .unsupported (some "Advanced Slicing not supported") n
  else current index

def containerName (m : TypeMaps) : TypeTerm → Analysis TypeTerm
  | .text s => return ((m.containers.lookup s).map .text).getD m.fallback
  | .many _ => fail .wrongSort
  | _ => return m.fallback

def common : TypeStyle :=
  { fallback := .text "auto"
    containers := none
    nameType := commonName
    combine := angled
    settle := fun _ index => index
    container := commonContainer angled
    adjust := fun t => t
    functionType := none }

/-- The common style with another way to put containers together. -/
def combining (fallback : TypeTerm) (combine : TypeTerm → TypeTerm → Analysis TypeTerm) : TypeStyle :=
  { common with fallback, combine, container := commonContainer combine }

def readNode (st : TypeStyle) (self : Option Node → Analysis TypeTerm) (n? : Option Node) :
    Analysis TypeTerm := do
  let m ← st.mapsOf
  match n? with
  | none => return st.adjust m.fallback
  | some n =>
    match n.shape with
    | .name id _ => st.adjust <$> st.nameType m id ((← factsOf n.id).lifetime.getD .unknown)
    | .constant .nothing _ => return st.adjust m.fallback
    | .constant v _ => return st.adjust (.ofLiteral v)
    | .classDef c => return st.adjust (.text c.name)
    | .tuple es _ => return .many (← es.mapM fun e => do self (some (← current e)))
    | .attribute .. => return st.adjust (.text (dottedType n))
    | .subscript v i _ =>
      let index ← parameterOf n i
      let value ← self (some (← current v))
      let index ← self (some index)
      let value ← containerName m value
      let index := st.settle value index
      note n.id ({ · with container := some (value, index) })
      st.adjust <$> st.combine value index
    | _ => return st.adjust m.fallback

def ofNode (st : TypeStyle) (n? : Option Node) : Analysis TypeTerm :=
  tie (fun self => st.readNode self) (fun _ => fail .tooDeep) nestingLimit n?

/-! ### Types of functions -/

/-- The parts of a function type as far as they are names. -/
inductive Signature where
  | name (s : String)
  | parts (ps : List Signature)
  | other (kind : String)

namespace Signature

def read : Nat → Node → Analysis Signature
  | 0, _ => fail .tooDeep
  | k + 1, n => do
    let n ← current n
    match n.shape with
    | .name id _ => return .name id
    | .tuple es _ | .list es _ => return .parts (← es.mapM (read k))
    | _ => return .other n.kindName

mutual
def quoted : Signature → String
  | .name s => Text.quoted s
  | .parts [p] => "(" ++ p.quoted ++ ",)"
  | .parts ps => "(" ++ Text.commas (quotedAll ps) ++ ")"
  | .other kind => "<ast." ++ kind ++ " object>"

def quotedAll : List Signature → List String
  | [] => []
  | p :: ps => p.quoted :: quotedAll ps
end

/-- The names of a list of types; of a single name its letters are taken. -/
def names (rename : String → String) : Signature → Analysis (List String)
  | .name s => return s.toList.map fun c => rename c.toString
  | .other _ => fail .wrongSort
  | .parts ps => ps.mapM fun p => match p with
    | .name s => pure (rename s)
    | _ => fail .wrongSort

def result (rename : String → String) : Signature → String
  | .name s => rename s
  | p => p.quoted

def write (rename : String → String) (layout : String → String → String) : Signature → Analysis String
  | .other _ => fail .wrongSort
  | .name s =>
    match s.toList with
    | [a, b] => return layout (rename a.toString) (rename b.toString)
    | _ => return s
  | .parts [a, b] => return layout (Text.commas (← a.names rename)) (b.result rename)
  | p => return p.quoted

end Signature

/-- The target's type for a node whose annotation is `ann`: the outer option says whether there is any
mention of one. -/
def ofMention (st : TypeStyle) (n : Node) (ann : Option (Option Node)) : Analysis TypeTerm := do
  let m ← st.mapsOf
  match ann with
  | none => return m.fallback
  | some none =>
    let t ← st.ofNode none
    if t == .absent then throwAt .uninferred (some "Could not infer: None") n else return t
  | some (some type) =>
    match type.shape, st.functionType with
    | .subscript v i _, some layout =>
      if (← current v).ident? == some "Callable" then
        let sig ← Signature.read nestingLimit (← parameterOf type i)
        return .text (← sig.write (knownName m) layout)
      else contained m type
    | .subscript .., none => contained m type
    | _, _ =>
      let t ← st.ofNode (some type)
      if t == .absent then
        throwAt .uninferred (some ("Could not infer: <ast." ++ type.kindName ++ " object>")) n
      else return t
where
  contained (m : TypeMaps) (type : Node) : Analysis TypeTerm := do
    let _ ← st.ofNode (some type)
    match (← factsOf type.id).container with
    | none => fail .missingPart
    | some (value, index) =>
      note n.id ({ · with container := some (value, index) })
      try st.container m value index
      catch f => if f.cause == .typeless && f.place.isNone then throwAt .typeless f.text n else throw f

def ofHint (st : TypeStyle) (n : Node) : Analysis TypeTerm := do
  st.ofMention n (← hint? n)

/-- What a function is annotated to return; other nodes have no mention of it. -/
def returns? (n : Node) : Analysis (Option (Option Node)) := do
  match (← current n).shape with
  | .functionDef f | .asyncFunctionDef f => return some (← f.returns.mapM current)
  | _ => return none

def ofReturns (st : TypeStyle) (n : Node) : Analysis TypeTerm := do
  st.ofMention n (← returns? n)

/-! ### Types in the source's own names -/

def genericNode (fallback : TypeTerm) (self : Option Node → Analysis TypeTerm) (n? : Option Node) :
    Analysis TypeTerm := do
  match n? with
  | none => return fallback
  | some n =>
    match n.shape with
    | .name id _ => return .text id
    | .constant v _ => return .ofLiteral v
    | .classDef c => return .text c.name
    | .tuple es _ => return .many (← es.mapM fun e => do self (some (← current e)))
    | .attribute .. => return .text (dottedType n)
    | .subscript v i _ =>
      let index ← parameterOf n i
      let value ← self (some (← current v))
      let index ← self (some index)
      note n.id ({ · with genericContainer := some (value, index) })
      return .text (value.shown ++ "[" ++ index.shown ++ "]")
    | _ => return fallback

def genericOf (fallback : TypeTerm) (n? : Option Node) : Analysis TypeTerm :=
  tie (genericNode fallback) (fun _ => fail .tooDeep) nestingLimit n?

/-- The type of a node in the source's names, if there is any mention of one. -/
def genericHint (fallback : TypeTerm) (n : Node) : Analysis TypeTerm := do
  match ← hint? n with
  | none => return .absent
  | some type? =>
    let t ← genericOf fallback type?
    match type? with
    | some type =>
      if type.isSubscript then
        let c := (← factsOf type.id).genericContainer
        note n.id ({ · with genericContainer := c })
    | none => pure ()
    return t

end TypeStyle
end Polyglot
