import Polyglot.Command.Workspace
import Polyglot.Language

/-!
# Tooling

The programs that go with a language: one that formats its files, and for some languages one that checks them. Which
programs these are may depend on what is installed and on the environment.
-/
namespace Polyglot

abbrev Variables := List (String × String)

def Variables.get? (vs : Variables) (name : String) : Option String := (vs.lookup name).filter (!·.isEmpty)

structure Tooling where
  formatter : List String
  linter : Option (List String) := none

namespace Tooling

def inFolder (folder name : String) : String :=
  if Path.isAbsolute name then name
  else if folder.isEmpty || Text.endsWith folder "/" then folder ++ name else folder ++ "/" ++ name

/-- Where a program is found: at a path, or else in one of the folders of a search path, or else among the programs
at hand. -/
def findExecutable (name : String) (path : Option String := none) : Shell (Option String) := do
  let w ← get
  if w.hasFile name then return some name
  match path with
  | some path =>
    if path.isEmpty then return none
    else return ((Text.split path ":").map fun folder => inFolder folder name).find? w.hasFile
  | none =>
    if (w.programs.lookup name).isSome then return w.programFolder.map fun folder => folder ++ "/" ++ name
    else return none

/-- The formatter that Julia names when it is asked. It is asked only once. -/
def askJulia : Shell (Option String) := do
  match (← get).juliaFormatter with
  | some answer => return answer
  | none =>
    let (p, code) ← Shell.start "julia"
    let answer := if code == 0 && !p.output.isEmpty
      then some (Path.join (Path.parent (Path.parent p.output)) "bin/format.jl") else none
    modify fun w => { w with juliaFormatter := some answer }
    return answer

def juliaFormatter : Shell (List String) := do
  match ← findExecutable "jlfmt" with
  | some program => return [program, "--inplace"]
  | none =>
    let script ← match ← findExecutable "format.jl" with
      | some script => pure (some script)
      | none => do
        if (← findExecutable "julia").isSome then askJulia else pure none
    match script with
    | some script => return ["julia", "-O0", "--compile=min", "--startup=no", script, "-v"]
    | none => return ["format.jl", "-v"]

/-- The compiler for C++: the one that is asked for, if it is there, or else one that is. -/
def compiler (env : Variables) : Shell String := do
  let wanted ← match env.get? "CXX" with
    | none => pure none
    | some cxx => do
      if (← findExecutable cxx).isSome then pure (some cxx)
      else do
        Shell.say ("Warning: CXX(" ++ cxx ++ ") not found")
        pure none
  match wanted with
  | some cxx => return cxx
  | none => return (← ["clang++", "g++"].findM? fun cxx => do return (← findExecutable cxx).isSome).getD "clang++"

def cpp (env : Variables) : Shell Tooling := do
  let cxx ← compiler env
  let flags := match env.get? "CXXFLAGS" with
    | some flags => Text.words flags
    | none => ["-std=c++17", "-Wall", "-Werror"]
  let library := if Text.startsWith cxx "clang++" then ["-stdlib=libc++"] else []
  let style := ((env.get? "CLANG_FORMAT_STYLE").map fun style => "-style=" ++ style).toList
  return { formatter := ["clang-format"] ++ style ++ ["-i"], linter := some ([cxx] ++ flags ++ library) }

def d (indent : Option Int) : Shell Tooling := do
  let program := if ((← get).programs.lookup "dfmt").isSome && (← get).programFolder.isSome then ["dfmt"]
    else ["dub", "run", "--yes", "dfmt", "--"]
  return { formatter := program ++ ["--inplace", "--brace_style=otbs", "--indent_size=" ++ toString (indent.getD 2)] }

def go : Shell Tooling := do
  let w ← get
  let settings := "revive.toml"
  let folder := if w.hasFile settings || w.hasFolder settings then some (w.pathOf w.here) else w.home
  let config := match folder with
    | some folder => ["--config", folder ++ "/" ++ settings]
    | none => []
  return { formatter := ["gofmt", "-w"], linter := some ("revive" :: config) }

def indentOption (indent : Option Int) : List String :=
  (indent.map fun n => "--indent:" ++ toString n).toList

def of (l : Language) (indent : Option Int) (env : Variables) : Shell Tooling :=
  match l with
  | .python => return { formatter := ["black"] }
  | .cpp => cpp env
  | .rust =>
    return { formatter := ["rustfmt", "--edition=2021"], linter := some ["../../scripts/rust-runner.sh", "lint"] }
  | .julia => return { formatter := ← juliaFormatter }
  | .kotlin =>
    let linter := ["jgo", "--add-opens", "java.base/java.lang=ALL-UNNAMED", "com.pinterest.ktlint:ktlint-cli",
      "--reporter=plain"]
    return { formatter := linter ++ ["--format"], linter := some linter }
  | .nim => return { formatter := "nimpretty" :: indentOption indent }
  | .mojo => return { formatter := ["mojo", "format"] }
  | .d => d indent
  | .dart => return { formatter := ["dart", "format"] }
  | .go => go
  | .v => return { formatter := ["v", "fmt", "-w"] ++ indentOption indent }
  | .smt => return { formatter := ["cljstyle", "fix"] }
  | .zig => return { formatter := ["zig", "fmt"] }

end Tooling
end Polyglot
