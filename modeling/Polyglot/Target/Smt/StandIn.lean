import Polyglot.Text.Search

/-!
# Stand-ins for a solver

What a program that is written for a solver finds when it is run as it is: no answers, conditions that never hold,
and constants that have the default value of their type.
-/
namespace Polyglot.Smt.StandIn

/-- The default value of a known class as it prints; a class that cannot be made from nothing has none. -/
def defaultText : String → String
  | "int" => "0" | "float" => "0.0" | "str" => "''" | "bool" => "False" | "bytes" => "b''" | "list" => "[]"
  | "dict" => "\x7b\x7d" | "tuple" => "()" | "set" => "set()" | "complex" => "0j"
  | "property" => "<property object>" | "Array" => "Array" | _ => "None"

inductive Question where
  | satisfiable
  | model
  | value

def answer (_ : Question) : Option String := none

/-- Whether what a function demands, and what it grants, is checked. -/
def demands : Bool := false
def grants : Bool := false

end Polyglot.Smt.StandIn
