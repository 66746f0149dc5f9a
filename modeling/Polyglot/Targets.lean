import Polyglot.Run
import Polyglot.Target.Cpp
import Polyglot.Target.D
import Polyglot.Target.Dart
import Polyglot.Target.Go
import Polyglot.Target.Julia
import Polyglot.Target.Kotlin
import Polyglot.Target.Mojo
import Polyglot.Target.Nim
import Polyglot.Target.Python
import Polyglot.Target.Rust
import Polyglot.Target.Smt
import Polyglot.Target.V
import Polyglot.Target.Zig

/-!
# All targets
-/
namespace Polyglot.Targets

open Session

def all : List Target :=
  [Python.target, Cpp.target, Rust.target, Julia.target, Kotlin.target, Nim.target, Mojo.target, D.target, Dart.target,
   Go.target, V.target, Smt.target, Zig.target]

def ofLanguage? (l : Language) : Option Target := all.find? (·.language == l)

/-- A session in which every target was offered once, and then `t` was chosen. -/
def session (t : Target) : Session :=
  match (do
    all.forM (·.install)
    t.install : Analysis Unit) {} with
  | .ok _ s => s
  | .error _ s => s

def page (t : Target) (o : Options) (strict : Bool) : Page :=
  { t.start o with session := session t, strict }

end Polyglot.Targets
