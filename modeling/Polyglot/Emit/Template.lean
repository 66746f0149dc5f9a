import Polyglot.Emit.Basic

/-!
# Templates

How a call of a library function is written, as a text with holes. A hole is a dollar sign with a letter: `$0` to
`$9` for an argument, `$r` for the object whose method is called, `$*` for all arguments and `$+` for all but the
first. A dollar sign before anything else stands for itself.
-/
namespace Polyglot.Template

open Session Emit

inductive Piece where
  | char (c : Char)
  | arg (i : Nat)
  | receiver
  | args
  | rest
  deriving DecidableEq

def pieces : List Char → List Piece
  | [] => []
  | '$' :: c :: cs =>
    if c.isDigit then .arg (c.toNat - '0'.toNat) :: pieces cs
    else if c == 'r' then .receiver :: pieces cs
    else if c == '*' then .args :: pieces cs
    else if c == '+' then .rest :: pieces cs
    else .char '$' :: pieces (c :: cs)
  | c :: cs => .char c :: pieces cs

def Piece.fill (receiver : Emit String) (vargs : List (Option String)) : Piece → Emit String
  | .char c => return c.toString
  | .arg i => argAt vargs i
  | .receiver => receiver
  | .args => join ", " vargs
  | .rest => join ", " (vargs.drop 1)

def fill (t : String) (receiver : Emit String) (vargs : List (Option String)) : Emit String := do
  return String.join (← (pieces t.toList).mapM (Piece.fill receiver vargs))

end Polyglot.Template

namespace Polyglot

/-- How a library function is written, from the text of the object and those of the arguments. -/
abbrev LibraryCall := Emit String → List (Option String) → Emit (Option String)

namespace LibraryCall

open Emit

/-- A template, for which something may have to be imported. -/
def filled (usings : List String) (template : String) : LibraryCall := fun receiver vargs => do
  usings.forM using_
  return some (← Template.fill template receiver vargs)

def ofTemplates (templates : List (List String × List (String × String))) : List (String × LibraryCall) :=
  templates.flatMap fun (usings, paths) => paths.map fun (path, template) => (path, filled usings template)

/-- One template for a call with arguments, another one for a call without. -/
def either (usings : List String) (with_ without : String) : LibraryCall := fun receiver vargs => do
  usings.forM using_
  return some (← Template.fill (if vargs.isEmpty then without else with_) receiver vargs)

def itself (i : Nat) : LibraryCall := fun _ vargs =>
  match vargs[i]? with
  | some t => return t
  | none => Session.fail .outOfRange

/-- Modules of the source's library that need no import where they are written so. -/
def modules : List String :=
  ["abc", "argparse", "array", "base64", "binascii", "bisect", "calendar", "collections", "colorsys",
   "concurrent", "contextlib", "copy", "csv", "datetime", "decimal", "difflib", "fnmatch", "functools",
   "getopt", "glob", "gzip", "hashlib", "hmac", "html", "http", "imaplib", "inspect", "io", "itertools",
   "json", "locale", "logging", "math", "operator", "os", "pathlib", "pickle", "platform", "poplib", "pprint",
   "queue", "random", "re", "requests", "resource", "secrets", "shutil", "signal", "smtplib", "sqlite3",
   "statistics", "struct", "subprocess", "sys", "tarfile", "tempfile", "textwrap", "threading", "time",
   "timeit", "traceback", "unittest", "urllib", "uuid", "xml", "xmlrpc", "zipfile", "zlib"]

def isLibrary (path : String) : Bool := modules.contains ((Text.split path ".").headD "")

end LibraryCall
end Polyglot
