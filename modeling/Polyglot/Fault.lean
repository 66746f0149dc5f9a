/-!
# Faults

What can go wrong, as causes. A fault that a pass reports about a node carries the node's place; a fault
of the machinery below it carries neither place nor text.
-/
namespace Polyglot

inductive Cause where
  /-- A construct that the target cannot express. -/
  | unsupported
  /-- An operator between two types that have no common one. -/
  | operator
  /-- A class that is built before its members are known. -/
  | undeclared
  /-- An annotation from which no type can be read. -/
  | uninferred
  /-- A container type with a parameter of no type. -/
  | typeless
  /-- A value that does not fit the declared type. -/
  | incompatible
  /-- A part of a node that should be there and is not. -/
  | emptyNode
  /-- Any other refusal, told in words. -/
  | refusal
  /-- A refusal of a form that is not handled. -/
  | unhandled
  | missingPart
  | wrongSort
  | missingKey
  | outOfRange
  | badValue
  | unknownName
  | unsetName
  | brokenPromise
  | tooDeep
  | malformed
  | badIndent
  | badTab
  | missingFile
  | fileExists
  | notFolder
  | isFolder
  /-- The command ends at once, with the code in the text. -/
  | exit
  deriving DecidableEq, Inhabited

structure Fault where
  cause : Cause
  text : Option String
  place : Option (Nat × Nat)
  deriving Inhabited

namespace Fault

def bare (cause : Cause) : Fault := ⟨cause, none, none⟩

def refuse (text : String) : Fault := ⟨.refusal, some text, none⟩

/-- Whether a fault already says at which node it arose, so that no enclosing node claims it. -/
def isSettled (f : Fault) : Bool :=
  match f.cause with
  | .unsupported | .operator | .undeclared | .uninferred | .typeless => true
  | _ => false

end Fault

namespace Cause

def reportName : Cause → String
  | .unsupported => "AstNotImplementedError"
  | .operator => "AstUnrecognisedBinOp"
  | .undeclared => "AstClassUsedBeforeDeclaration"
  | .uninferred => "AstCouldNotInfer"
  | .typeless => "AstTypeNotSupported"
  | .incompatible => "AstIncompatibleAssign"
  | .emptyNode => "AstEmptyNodeFound"
  | .refusal => "Exception"
  | .unhandled => "NotImplementedError"
  | .missingPart => "AttributeError"
  | .wrongSort => "TypeError"
  | .missingKey => "KeyError"
  | .outOfRange => "IndexError"
  | .badValue => "ValueError"
  | .unknownName => "NameError"
  | .unsetName => "UnboundLocalError"
  | .brokenPromise => "AssertionError"
  | .tooDeep => "RecursionError"
  | .malformed => "SyntaxError"
  | .badIndent => "IndentationError"
  | .badTab => "TabError"
  | .missingFile => "FileNotFoundError"
  | .fileExists => "FileExistsError"
  | .notFolder => "NotADirectoryError"
  | .isFolder => "IsADirectoryError"
  | .exit => "SystemExit"

def fullName (c : Cause) : String :=
  match c with
  | .unsupported | .operator | .undeclared | .uninferred | .typeless | .incompatible | .emptyNode =>
    "py2many.exceptions." ++ c.reportName
  | _ => c.reportName

end Cause

end Polyglot
