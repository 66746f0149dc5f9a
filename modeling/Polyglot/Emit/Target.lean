import Polyglot.Emit.Members
import Polyglot.Lowering.Blocks
import Polyglot.Lowering.Entry
import Polyglot.Lowering.Texts

/-!
# Targets

A target language: how programs are lowered for it, how they are emitted, and what stands around the text.
-/
namespace Polyglot

open Session Emit

structure Options where
  extension : Bool := false
  bare : Bool := false
  indent : Option Int := none
  /-- Whether types are to be inferred by a tool that is not there. -/
  foreignTypes : Bool := false
  deriving Inhabited

structure Target where
  language : Language
  entryParams : List String := []
  lowerings : List (String × Lowering) := []
  analyses : Options → List (Node → Analysis Unit) := fun _ => []
  laterLowerings : List (String × Lowering) := []
  start : Options → Page
  install : Analysis Unit
  emit : Visit
  headers : Bool → Emit String := fun _ => return ""
  features : Emit String := return ""
  usings : Emit String := return ""
  aliases : Emit String := return ""
  extensionModule : Node → Emit String := fun _ => fail .wrongSort

namespace Target

def installMaps (types containers : List (String × String)) : Analysis Unit :=
  modify fun s => { s with maps := { s.maps with types, containers } }

def installTypes (types : List (String × String)) : Analysis Unit :=
  modify fun s => { s with maps := { s.maps with types } }

def usingLines (before : String) (after : String := "") : Emit String :=
  return Text.lines ((sorted (← get).usings).map (before ++ · ++ after))

def headedUsings (head before after : String) : Emit String := do
  if (← get).usings.isEmpty then return "" else return head ++ (← usingLines before after)

/-- Emits a tree, each node under guard. -/
def emitter (step : Visit → Node → Emit (Option String)) : Visit :=
  tie (fun self n => do
    let n ← current n
    guarded n (step self n)) (fun _ => fail .tooDeep) nestingLimit

end Target
end Polyglot
