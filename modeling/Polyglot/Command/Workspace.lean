import Polyglot.Fault
import Polyglot.Path
import Polyglot.Text.Quoted

/-!
# Workspaces

All that a command sees and changes: files and folders, the folder where it works, the programs that it can start,
the variables of its environment, what it reads and what it has printed. A location is the list of the names that
lead to it from the top of the workspace. What lies above the top starts with `..`, once for each level.
-/
namespace Polyglot

abbrev Location := List String

namespace Location

def isTop (l : Location) : Bool := l.all (· == "..")

def root : Location := ["/"]

def parent (l : Location) : Location :=
  if l == root then root else if isTop l then l ++ [".."] else l.dropLast

def child (l : Location) (name : String) : Location := if name == ".." then parent l else l ++ [name]

def isInside (l : Location) : Bool := l.head?.all fun n => n != ".." && n != "/"

def below? : Location → Location → Option (List String)
  | [], l => if isInside l then some l else none
  | _ :: _, [] => none
  | a :: l, b :: m => if a == b then below? l m else none

end Location

/-- A program that can be started: what it prints, and how it ends at first and from then on. -/
structure Program where
  output : String := ""
  errors : String := ""
  code : Nat := 0
  codeAgain : Nat := 0
  deriving Inhabited

structure Workspace where
  files : List (Location × String) := []
  folders : List Location := []
  here : Location := []
  start : Location := []
  top : String := "/"
  home : Option String := none
  programs : List (String × Program) := []
  programFolder : Option String := none
  started : List String := []
  /-- The formatter that Julia names, once it was asked for one. -/
  juliaFormatter : Option (Option String) := none
  input : String := ""
  printed : String := ""
  deriving Inhabited

abbrev Shell := EStateM Fault Workspace

namespace Workspace

def isFolder (w : Workspace) (l : Location) : Bool := l.isTop || l == Location.root || w.folders.contains l

def file? (w : Workspace) (l : Location) : Option String := w.files.lookup l

/-- Follows names from a location. Every name but the last has to lead to a folder. -/
def follow (w : Workspace) : Location → List String → Except Cause Location
  | l, [] => return l
  | l, n :: ns =>
    if w.isFolder l then w.follow (l.child n) ns
    else throw (if (w.file? l).isSome then .notFolder else .missingFile)

def locate (w : Workspace) (path : String) : Except Cause Location :=
  w.follow (if Path.isAbsolute path then Location.root else w.here) (Path.names path)

def hasFile (w : Workspace) (path : String) : Bool :=
  match w.locate path with
  | .ok l => (w.file? l).isSome && !Text.endsWith path "/"
  | .error _ => false

def hasFolder (w : Workspace) (path : String) : Bool :=
  match w.locate path with
  | .ok l => w.isFolder l
  | .error _ => false

def withFolder (w : Workspace) (l : Location) : Workspace :=
  let new := (List.range l.length).map (fun k => l.take (k + 1)) |>.filter fun m => !w.isFolder m
  { w with folders := w.folders ++ new }

def withFile (w : Workspace) (l : Location) (text : String) : Workspace :=
  if (w.file? l).isSome then { w with files := w.files.map fun (m, t) => if m == l then (m, text) else (m, t) }
  else { w with files := w.files ++ [(l, text)] }

/-- A workspace with files in it, and the folders that these lie in. -/
def ofFiles (files : List (Location × String)) : Workspace :=
  files.foldl (fun w (l, text) => (w.withFolder l.dropLast).withFile l text) {}

def pathOf (w : Workspace) (l : Location) : String := "/".intercalate (w.top :: l)

/-- What lies in a folder at any depth: first what lies in the folder itself, by name, then what lies in each of its
folders. -/
def allBelow (w : Workspace) (l : Location) : List (List String) :=
  let found := (w.files.map (·.1) ++ w.folders).filterMap l.below? |>.filter (!·.isEmpty)
  found.mergeSort fun a b => a.dropLast.lex b.dropLast || (a.dropLast == b.dropLast && !(b.lex a))

end Workspace

namespace Shell

def complaint : Cause → String
  | .fileExists => "[Errno 17] File exists"
  | .notFolder => "[Errno 20] Not a directory"
  | .isFolder => "[Errno 21] Is a directory"
  | _ => "[Errno 2] No such file or directory"

def refuse {α : Type} (c : Cause) (path : String) : Shell α :=
  throw ⟨c, some (complaint c ++ ": " ++ Text.quoted path), none⟩

def locate (path : String) : Shell Location := do
  match (← get).locate path with
  | .ok l => return l
  | .error c => refuse c path

def say (line : String) : Shell Unit := modify fun w => { w with printed := w.printed ++ line ++ "\n" }

def read (path : String) : Shell String := do
  let l ← locate path
  match (← get).file? l with
  | some text => return Text.plainBreaks text
  | none => refuse (if (← get).isFolder l then .isFolder else .missingFile) path

def write (path text : String) : Shell Unit := do
  let l ← locate path
  if (← get).isFolder l then refuse .isFolder path
  modify (·.withFile l text)

def makeFoldersFrom (root : String) : Location → List String → List String → Shell Unit
  | _, _, [] => return ()
  | l, done, n :: ns => do
    let next := l.child n
    let done := done ++ [n]
    let w ← get
    if w.isFolder next then makeFoldersFrom root next done ns
    else if (w.file? next).isSome then
      match ns with
      | [] => refuse .fileExists (Path.ofNames root done)
      | m :: _ => refuse .notFolder (Path.ofNames root (done ++ [m]))
    else
      set { w with folders := w.folders ++ [next] }
      makeFoldersFrom root next done ns

def makeFolders (path : String) : Shell Unit := do
  let w ← get
  let start := if Path.isAbsolute path then Location.root else w.here
  makeFoldersFrom (Path.root path) start [] (Path.names path)

def enter (path : String) : Shell Unit := do
  let l ← locate path
  let w ← get
  if w.isFolder l then set { w with here := l }
  else refuse (if (w.file? l).isSome then .notFolder else .missingFile) path

/-- Starts a program, given by its name or by its path: the program and the code with which it ends. -/
def start (word : String) : Shell (Program × Nat) := do
  let w ← get
  let isMeant (name : String) : Bool := name == word || w.programFolder.any fun f => f ++ "/" ++ name == word
  match w.programs.find? fun (name, _) => isMeant name with
  | none => refuse .missingFile word
  | some (name, p) =>
    set { w with started := name :: w.started }
    return (p, if w.started.contains name then p.codeAgain else p.code)

def takeInput : Shell String := modifyGet fun w => (w.input, { w with input := "" })

end Shell
end Polyglot
