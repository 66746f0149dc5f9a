import Polyglot.Emit.Target

/-!
# Prepared modules

Modules of the tool itself are not written from their source. Some have a prepared text, most are left empty, and
those that need values of any type rely on a definition that they share.
-/
namespace Polyglot.V

open Emit

def indented (line : String) (level : Nat := 1) : Emit String := do
  return Text.times " " ((← get).indentUnit * level) ++ line

namespace Prepared

def emptyModules : List String :=
  ["analysis", "annotation_transformer", "clike", "context", "declaration_extractor", "inference", "language",
   "llm_transpile", "macosx_llm", "mutability_transformer", "nesting_transformer", "plugins",
   "python_transformer", "raises_transformer", "registry", "rewriters", "scope", "self_transpile",
   "toposort_modules", "tracer", "transpiler", "vformat"]

def moduleNames : List String :=
  ["__init__", "__main__", "ast_helpers", "astx", "cli", "exceptions", "helpers", "process_helpers", "result",
   "smt", "stubs"] ++ emptyModules

def directories : List String := ["py2many", "pyrs", "pyv", "output"]

/-- Whether a module of some name, in a directory of some name, is one of the tool's own. -/
def isOwn (name parent : Option String) : Bool :=
  parent.any directories.contains || (parent != some "cases" && name.any moduleNames.contains)

def sharesAny (name parent : Option String) : Bool :=
  isOwn name parent && name.isSome && name != some "__init__"

def skipsImport (name : String) : Bool :=
  Text.startsWith name "py2many." || moduleNames.contains name ||
    ["ast", "importlib", "mlx_lm", "warnings"].contains name

def skipsImportFrom (source : String) : Bool :=
  Text.startsWith source "py2many." || moduleNames.contains source ||
    ["ast", "mlx_lm", "py2many.version", "version"].contains source

def layout (lines : List (Nat × String)) : Emit String := do
  return Text.lines (← lines.mapM fun (level, line) => indented line level)

def commandLine : List (Nat × String) :=
  [(0, "pub fn run_cli() \x7b"), (1, "mut input := ''"), (1, "mut outdir := ''"), (1, "mut emit_rust := false"),
   (1, "args := os.args[1..]"), (1, "for i := 0; i < args.len; i++ \x7b"), (2, "arg := args[i]"),
   (2, "if arg == '--rust' || arg == '-r' \x7b"), (3, "emit_rust = true"),
   (2, "\x7d else if (arg == '--outdir' || arg == '-o') && i + 1 < args.len \x7b"), (3, "outdir = args[i + 1]"),
   (3, "i++"), (2, "\x7d else if !arg.starts_with('-') \x7b"), (3, "input = arg"), (2, "\x7d"), (1, "\x7d"),
   (1, "if !emit_rust \x7b"),
   (2, "eprintln('only --rust is supported by this generated bootstrap binary')"), (2, "exit(1)"), (1, "\x7d"),
   (1, "if input == '' \x7b"), (2, "eprintln('missing input file')"), (2, "exit(1)"), (1, "\x7d"),
   (1, "source := os.read_file(input) or \x7b panic(err) \x7d"), (1, "mod := pyast.parse_module(source) or \x7b"),
   (2, "eprintln(err.msg())"), (2, "exit(1)"), (1, "\x7d"), (1, "rust := rust_from_module(mod)"),
   (1, "if outdir == '' || outdir == '-' \x7b"), (2, "print(rust)"), (2, "return"), (1, "\x7d"),
   (1, "os.mkdir_all(outdir) or \x7b panic(err) \x7d"),
   (1, "base := os.file_name(input).all_before_last('.')"),
   (1, "os.write_file(os.join_path(outdir, base + '.rs'), rust) or \x7b panic(err) \x7d"), (0, "\x7d")]

def record (name : String) (fields : List String) : List (Nat × String) :=
  [(0, "pub struct " ++ name ++ " \x7b"), (0, "pub mut:")] ++ fields.map (fun f => (1, f)) ++ [(0, "\x7d")]

def treeTypes : List (Nat × String) :=
  [(0, "enum LifeTime \x7b"), (1, "unknown = 0"), (1, "static = 1"), (0, "\x7d"), (0, "")] ++
    [(0, "")].intercalate
      [record "ASTxName" ["lifetime LifeTime", "assigned_from voidptr"],
       record "ASTxClassDef" ["is_dataclass bool"],
       record "ASTxFunctionDef" ["mutable_vars []string", "python_main bool"],
       record "ASTxModule" ["__file__ ?string"],
       record "ASTxSubscript" ["container_type ?Any", "generic_container_type ?Any"],
       record "ASTxIf" ["unpack bool"],
       record "ASTx" ["annotation ASTxName", "rewritten bool", "lhs bool", "scopes []voidptr", "id ?string"]]

def resultTypes : List (Nat × String) :=
  record "Ok" ["value Any"] ++ [(0, "")] ++ record "ResultError" ["error Any"] ++
    [(0, ""), (0, "type StdResult = Ok | ResultError"), (0, "type Result = Ok")]

def faultTypes : List (Nat × String) :=
  record "AstErrorBase" ["msg string", "lineno int", "col_offset int"] ++ [(0, "")] ++
    ["AstNotImplementedError", "AstUnrecognisedBinOp", "AstClassUsedBeforeDeclaration", "AstCouldNotInfer",
     "AstTypeNotSupported", "AstIncompatibleAssign", "AstEmptyNodeFound", "TypeNotSupported"].map
      fun name => (0, "type " ++ name ++ " = AstErrorBase")

def text? (name parent : Option String) : Emit (Option String) := do
  match isOwn name parent, name with
  | false, _ | _, none => return none
  | true, some "__main__" =>
    modify fun p => { p with moduleName := some "__main__", usings := [] }
    return some (← layout [(0, "fn main() \x7b"), (1, "run_cli()"), (0, "\x7d")])
  | true, some "cli" =>
    modify fun p => { p with moduleName := some "cli", usings := ["os", "pyast"] }
    return some (← layout commandLine)
  | true, some name =>
    let mentions := ["__init__", "astx", "result"].contains name
    modify fun p => { p with moduleName := some name, usings := [], mentionsAny := mentions, showsAny := false }
    if name == "__init__" then return some "// shared V bootstrap prelude"
    else if name == "astx" then return some (← layout treeTypes)
    else if name == "stubs" then return some "const stdlib_module_names = []string\x7b\x7d"
    else if name == "result" then return some (← layout resultTypes)
    else if name == "exceptions" then return some (← layout faultTypes)
    else return if emptyModules.contains name then some "" else none

/-- The entry of the tool passes on to its command line. -/
def forwardMain (code : String) : Emit String := do
  if (← get).moduleName == some "__main__" && Text.strip code == "main()" then
    modify fun p =>
      { p with usings := insertNew "cli" (p.usings.filter fun u =>
          u != "py2many.cli \x7b main \x7d" && u != "py2many.cli") }
    return "fn main() \x7b\n" ++ (← indented "cli.main()") ++ "\n\x7d"
  else return code

end Prepared
end Polyglot.V
