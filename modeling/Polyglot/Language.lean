/-!
# Target languages
-/
namespace Polyglot

inductive Language where
  | python | cpp | rust | julia | kotlin | nim | mojo | d | dart | go | v | smt | zig
  deriving DecidableEq, Inhabited

namespace Language

def all : List Language :=
  [.python, .cpp, .rust, .julia, .kotlin, .nim, .mojo, .d, .dart, .go, .v, .smt, .zig]

def key : Language → String
  | .python => "python" | .cpp => "cpp" | .rust => "rust" | .julia => "julia" | .kotlin => "kotlin"
  | .nim => "nim" | .mojo => "mojo" | .d => "dlang" | .dart => "dart" | .go => "go" | .v => "vlang"
  | .smt => "smt" | .zig => "zig"

def ofKey? (key : String) : Option Language := all.find? (·.key == key)

def suffix : Language → String
  | .python => ".py" | .cpp => ".cpp" | .rust => ".rs" | .julia => ".jl" | .kotlin => ".kt" | .nim => ".nim"
  | .mojo => ".mojo" | .d => ".d" | .dart => ".dart" | .go => ".go" | .v => ".v" | .smt => ".smt"
  | .zig => ".zig"

def displayName : Language → String
  | .python => "Python" | .cpp => "C++" | .rust => "Rust" | .julia => "Julia" | .kotlin => "Kotlin"
  | .nim => "Nim" | .mojo => "Mojo" | .d => "D" | .dart => "Dart" | .go => "Go" | .v => "V" | .smt => "SMT"
  | .zig => "Zig"

end Language
end Polyglot
