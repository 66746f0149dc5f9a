import Polyglot.Text.Search

/-!
# Paths

The parts of a path, and what its last part says. Empty parts and parts that stand for the same directory count
for nothing.
-/
namespace Polyglot.Path

/-- The root of a path; two slashes and no third one are a root of their own. -/
def root (path : String) : String :=
  if Text.startsWith path "//" && !(Text.startsWith path "///") then "//"
  else if Text.startsWith path "/" then "/" else ""

def names (path : String) : List String := (Text.split path "/").filter fun p => p != "" && p != "."

def parts (path : String) : List String :=
  (if (root path).isEmpty then [] else [root path]) ++ names path

def isAbsolute (path : String) : Bool := !(root path).isEmpty

/-- A path made of a root and the parts below it; no parts at all lead nowhere else. -/
def ofNames (root : String) (names : List String) : String :=
  if root.isEmpty && names.isEmpty then "." else root ++ "/".intercalate names

/-- A path without the parts that count for nothing. -/
def text (path : String) : String := ofNames (root path) (names path)

def parent (path : String) : String := ofNames (root path) (names path).dropLast

/-- A path that starts at another one, unless it has a root of its own. -/
def join (start path : String) : String :=
  if isAbsolute path then text path else ofNames (root start) (names start ++ names path)

/-- The way from one absolute path to another. -/
def relative (start path : String) : String :=
  let shared := ((names start).zip (names path)).takeWhile fun (a, b) => a == b
  ofNames "" (List.replicate ((names start).length - shared.length) ".." ++ (names path).drop shared.length)

def name (path : String) : String := (names path).getLast?.getD ""

def stem (path : String) : String :=
  match Text.cutLast? (name path) "." with
  | some (a, b) => if a.isEmpty || b.isEmpty then name path else a
  | none => name path

def suffix (path : String) : String := Text.dropStart (name path) (stem path).length

def parentName (path : String) : String := (names path).dropLast.getLast?.getD ""

end Polyglot.Path
