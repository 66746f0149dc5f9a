import Polyglot.Emit.Target

/-!
# Python

A program is written back as it reads, with its entry restored and its inferred types declared.
-/
namespace Polyglot.Python

open Session Emit

def prologue : List String :=
  ["from typing import Callable, Dict, List, Set, Optional",
   "from ctypes import c_int8 as i8, c_int16 as i16, c_int32 as i32, c_int64 as i64",
   "from ctypes import c_uint8 as u8, c_uint16 as u16, c_uint32 as u32, c_uint64 as u64",
   "import sys"]

def emit : Visit := fun n => do
  match Write.text (← refresh n) with
  | .ok s => return some s
  | .error f => throw f

def target : Target where
  language := .python
  lowerings := [("RestoreMainRewriter", Entry.restore)]
  laterLowerings := [("InferredAnnAssignRewriter", Blocks.declareTypes)]
  start o := { bare := o.bare }
  install := Target.installMaps [] []
  emit := emit
  usings := return if (← get).bare then "" else Text.lines prologue

end Polyglot.Python
