import Polyglot.Tree.Write

/-!
# Known names

Some names of the source language mean the same in every program: its classes, its functions, and the
members of its standard modules. `resolve` finds what an expression over such names stands for. It only
looks names up: nothing is run, and an expression that would have to be run stands for nothing.
-/
namespace Polyglot.Known

inductive Thing where
  | module (path : String)
  | cls (name : String)
  | function (name : String)
  | method (owner name : String)
  | bound (owner name : String)
  | object (cls : String)
  | alias (text : String)
  | union (parts : List String)
  /-- The two type formers whose result can be one of their parameters. -/
  | unionFormer
  | optionalFormer
  /-- Something of which nothing is known but that it exists. -/
  | unknown
  deriving Inhabited

def classes : List String :=
  ["bool", "bytearray", "bytes", "classmethod", "complex", "dict", "enumerate", "filter", "float", "frozenset",
   "int", "list", "map", "memoryview", "object", "property", "range", "reversed", "set", "slice",
   "staticmethod", "str", "tuple", "type", "zip", "ArithmeticError", "AssertionError", "AttributeError",
   "BaseException", "BufferError", "EOFError", "Exception", "FileExistsError", "FileNotFoundError",
   "ImportError", "IndexError", "KeyError", "KeyboardInterrupt", "LookupError", "MemoryError", "NameError",
   "NotImplementedError", "OSError", "OverflowError", "PermissionError", "RecursionError",
   "ReferenceError", "RuntimeError", "StopIteration", "SyntaxError", "SystemExit", "TimeoutError",
   "TypeError", "UnicodeError", "ValueError", "Warning", "ZeroDivisionError"]

def functions : List String :=
  ["abs", "aiter", "all", "anext", "any", "ascii", "bin", "breakpoint", "callable", "chr", "compile",
   "delattr", "dir", "divmod", "eval", "exec", "format", "getattr", "globals", "hasattr", "hash", "hex",
   "id", "input", "isinstance", "issubclass", "iter", "len", "locals", "max", "min", "next", "oct", "open",
   "ord", "pow", "print", "repr", "round", "setattr", "sorted", "sum", "vars"]

def fixedWidth : List (String × List String) :=
  [("ctypes.c_byte", ["i8", "c_int8"]), ("ctypes.c_short", ["i16", "c_int16"]),
   ("ctypes.c_int", ["i32", "c_int32"]), ("ctypes.c_long", ["i64", "c_int64", "ilong", "isize"]),
   ("ctypes.c_ubyte", ["u8", "c_uint8"]), ("ctypes.c_ushort", ["u16", "c_uint16"]),
   ("ctypes.c_uint", ["u32", "c_uint32"]), ("ctypes.c_ulong", ["u64", "c_uint64", "ulong", "usize"])]

def globalThings : List (String × Thing) :=
  [("math", .module "math"), ("os", .module "os"), ("sys", .module "sys"), ("io", .module "io"),
   ("time", .module "time"), ("random", .module "random"), ("ast", .module "ast"),
   ("importlib", .module "importlib"), ("logging", .module "logging"), ("Path", .cls "pathlib.Path"),
   ("Any", .cls "typing.Any"), ("Callable", .object "typing._CallableType"),
   ("Dict", .object "typing._SpecialGenericAlias"), ("List", .object "typing._SpecialGenericAlias"),
   ("Optional", .optionalFormer), ("OrderedDict", .object "typing._SpecialGenericAlias"),
   ("Tuple", .object "typing._TupleType"), ("Union", .unionFormer), ("Result", .alias "Result"),
   ("Ellipsis", .object "ellipsis"), ("NotImplemented", .object "NotImplementedType"),
   ("EnvironmentError", .cls "OSError"), ("IOError", .cls "OSError"),
   ("__name__", .object "str"), ("__file__", .object "str"), ("__doc__", .object "NoneType")]

def global? (name : String) : Option Thing :=
  if classes.contains name then some (.cls name)
  else if functions.contains name then some (.function name)
  else
    match fixedWidth.find? fun (_, names) => names.contains name with
    | some (c, _) => some (.cls c)
    | none => globalThings.lookup name

def members : List (String × List String × List (String × Thing)) :=
  [("math", ["acos", "asin", "atan", "atan2", "ceil", "cos", "exp", "fabs", "floor", "fmod", "gcd", "hypot",
      "log", "log10", "log2", "pow", "sin", "sqrt", "tan", "trunc"],
    [("pi", .object "float"), ("e", .object "float"), ("tau", .object "float"), ("inf", .object "float"),
     ("nan", .object "float")]),
   ("os", ["chdir", "getcwd", "getenv", "getpid", "kill", "listdir", "makedirs", "mkdir", "remove", "rename",
      "rmdir", "system", "unlink", "walk"],
    [("path", .module "os.path"), ("environ", .object "os._Environ"), ("name", .object "str"),
     ("sep", .object "str"), ("linesep", .object "str"), ("curdir", .object "str")]),
   ("os.path", ["abspath", "basename", "dirname", "exists", "getsize", "isdir", "isfile", "join", "split",
      "splitext"],
    [("sep", .object "str")]),
   ("sys", ["exit", "getrecursionlimit", "getsizeof", "setrecursionlimit"],
    [("argv", .object "list"), ("path", .object "list"), ("modules", .object "dict"),
     ("maxsize", .object "int"), ("maxunicode", .object "int"), ("platform", .object "str"),
     ("version", .object "str"), ("byteorder", .object "str"), ("executable", .object "str"),
     ("stdin", .object "io.TextIOWrapper"), ("stdout", .object "io.TextIOWrapper"),
     ("stderr", .object "io.TextIOWrapper")]),
   ("io", ["open"],
    [("RawIOBase", .cls "io.RawIOBase"), ("TextIOWrapper", .cls "io.TextIOWrapper"),
     ("StringIO", .cls "io.StringIO"), ("BytesIO", .cls "io.BytesIO"), ("IOBase", .cls "io.IOBase"),
     ("FileIO", .cls "io.FileIO")]),
   ("time", ["ctime", "gmtime", "localtime", "monotonic", "perf_counter", "sleep", "strftime", "time"], []),
   ("random", [], [("Random", .cls "random.Random")]),
   ("tempfile", ["NamedTemporaryFile", "mkdtemp", "mkstemp"], []),
   ("argparse_dataclass", ["dataclass", "argument"],
    [("ArgumentParser", .cls "argparse_dataclass.ArgumentParser")]),
   ("argparse", [], [("ArgumentParser", .cls "argparse.ArgumentParser")]),
   ("functools", ["lru_cache", "reduce", "wraps"], [("partial", .cls "functools.partial")]),
   ("collections", ["namedtuple"],
    [("OrderedDict", .cls "collections.OrderedDict"), ("defaultdict", .cls "collections.defaultdict"),
     ("deque", .cls "collections.deque"), ("Counter", .cls "collections.Counter")]),
   ("datetime", [],
    [("datetime", .cls "datetime.datetime"), ("date", .cls "datetime.date"), ("time", .cls "datetime.time"),
     ("timedelta", .cls "datetime.timedelta"), ("tzinfo", .cls "datetime.tzinfo")]),
   ("pathlib", [], [("Path", .cls "pathlib.Path")]),
   ("decimal", [], [("Decimal", .cls "decimal.Decimal")]),
   ("json", ["dump", "dumps", "load", "loads"], []),
   ("re", ["compile", "findall", "match", "search", "split", "sub"], []),
   ("string", [],
    [("ascii_letters", .object "str"), ("ascii_lowercase", .object "str"), ("ascii_uppercase", .object "str"),
     ("digits", .object "str"), ("punctuation", .object "str"), ("whitespace", .object "str")])]

/-- The functions of a module that are methods of one hidden object. -/
def hiddenMethods : List (String × String × List String) :=
  [("random", "random.Random",
    ["betavariate", "choice", "choices", "gauss", "getrandbits", "randint", "random", "randrange", "sample",
     "seed", "shuffle", "uniform"])]

def member? (path name : String) : Option Thing :=
  match hiddenMethods.find? fun (p, _, names) => p == path && names.contains name with
  | some (_, owner, _) => some (.bound owner name)
  | none =>
    match members.find? fun (p, _, _) => p == path with
    | some (_, fns, others) =>
      if fns.contains name then some (.function (if path == "io" then name else path ++ "." ++ name))
      else others.lookup name
    | none => none

def moduleNames : List String :=
  ["__future__", "abc", "argparse", "argparse_dataclass", "array", "ast", "asyncio", "atexit", "base64",
   "binascii", "bisect", "builtins", "bz2", "calendar", "cmath", "cmd", "code", "codecs", "collections",
   "colorsys", "concurrent", "configparser", "contextlib", "copy", "csv", "ctypes", "curses", "dataclasses",
   "datetime", "decimal", "difflib", "dis", "doctest", "email", "enum", "errno", "fnmatch", "fractions",
   "ftplib", "functools", "gc", "getopt", "getpass", "gettext", "glob", "graphlib", "gzip", "hashlib",
   "heapq", "hmac", "html", "http", "imaplib", "importlib", "inspect", "io", "ipaddress", "itertools",
   "json", "keyword", "linecache", "locale", "logging", "lzma", "marshal", "math", "mimetypes", "mmap",
   "multiprocessing", "numbers", "opcode", "operator", "optparse", "os", "pathlib", "pdb", "pickle",
   "pkgutil", "platform", "pprint", "profile", "pstats", "pwd", "queue", "random", "re", "readline",
   "reprlib", "resource", "runpy", "sched", "secrets", "select", "selectors", "shelve", "shlex", "shutil",
   "signal", "site", "smtplib", "socket", "socketserver", "sqlite3", "ssl", "stat", "statistics", "string",
   "struct", "subprocess", "symtable", "sys", "sysconfig", "syslog", "tarfile", "tempfile", "termios",
   "textwrap", "threading", "time", "timeit", "token", "tokenize", "tomllib", "trace", "traceback",
   "tracemalloc", "types", "typing", "unicodedata", "unittest", "urllib", "uuid", "venv", "warnings", "wave",
   "weakref", "webbrowser", "xml", "xmlrpc", "zipapp", "zipfile", "zipimport", "zlib", "zoneinfo"]

/-- Whether a dotted module path can be imported; below a package only well-known parts can. -/
def importable (path : String) : Bool :=
  moduleNames.contains path ||
    ["os.path", "collections.abc", "concurrent.futures", "importlib.util", "logging.handlers",
     "unittest.mock", "urllib.request", "urllib.parse", "urllib.error", "http.client", "http.server",
     "xml.etree", "xml.etree.ElementTree", "email.message", "json.decoder", "json.encoder",
     "asyncio.subprocess", "multiprocessing.pool"].contains path

def imported (path name : String) : Thing := (member? path name).getD .unknown

/-! ### Expressions over known names -/

abbrev Locals := List (String × Thing)

def attribute? (t : Thing) (name : String) : Option Thing :=
  match t with
  | .module path => member? path name
  | .cls c => some (.method c name)
  | .object c => some (.bound c name)
  | _ => none

/-- How a thing shows as a part of a union, if it can be one. -/
def unionPart? : Thing → Option (List String)
  | .cls c => some [c]
  | .alias s => some [s]
  | .union ps => some ps
  | .object "NoneType" => some ["NoneType"]
  | .object c => some [c]
  | _ => none

def makeUnion (parts : List (List String)) : Thing :=
  let all := parts.flatten.foldl (fun acc p => if acc.contains p then acc else acc ++ [p]) []
  match all with
  | [p] => .cls p
  | ps => .union ps

def literalThing : Literal → Thing
  | .nothing => .object "NoneType"
  | .ellipsis => .object "ellipsis"
  | .bool _ => .object "bool"
  | .int _ => .object "int"
  | .float _ => .object "float"
  | .imaginary _ => .object "complex"
  | .str _ => .object "str"
  | .bytes _ => .object "bytes"

/-- Classes whose objects can be made from any arguments that can be looked up. -/
def makable : List String := ["str", "list", "tuple", "dict", "set", "bool", "object", "frozenset"]

def evaluate (locals : Locals) : Nat → Node → Option Thing
  | 0, _ => none
  | k + 1, n =>
    match n.shape with
    | .name id _ => locals.lookup id <|> global? id
    | .constant v _ => some (literalThing v)
    | .attribute v a _ => do attribute? (← evaluate locals k v) a
    | .list es _ => do
      let _ ← es.mapM (evaluate locals k)
      return .object "list"
    | .tuple es _ => do
      let _ ← es.mapM (evaluate locals k)
      return .object "tuple"
    | .dict keys values => do
      let _ ← (keys.filterMap id).mapM (evaluate locals k)
      let _ ← values.mapM (evaluate locals k)
      return .object "dict"
    | .subscript v i _ => do
      let base ← evaluate locals k v
      let args := match i.shape with
        | .tuple es _ => es
        | _ => [i]
      let things ← args.mapM (evaluate locals k)
      match base with
      | .unionFormer => return makeUnion (← things.mapM unionPart?)
      | .optionalFormer => return makeUnion ((← things.mapM unionPart?) ++ [["NoneType"]])
      | .object "typing._SpecialGenericAlias" | .object "typing._TupleType" | .object "typing._CallableType" =>
        return .alias ((Write.text n).toOption.getD "")
      | .alias _ => return .alias ((Write.text n).toOption.getD "")
      | _ => none
    | .call f args [] => do
      let things ← args.mapM (evaluate locals k)
      match ← evaluate locals k f with
      | .cls c => if makable.contains c && things.length ≤ 1 then some (.object c) else none
      | .function "len" => some (.object "int")
      | _ => none
    | _ => none

/-- The name by which tables know a thing. -/
def Thing.key : Thing → Option String
  | .module _ => some "module"
  | .cls c => some c
  | .function f => some f
  | .method _ _ => some "method_descriptor"
  | .bound c m => some (c ++ "." ++ m)
  | .object c => some c
  | _ => none

def resolve (locals : Locals) (text : String) : Option String := do
  if text == "super" || Text.startsWith text "super()" then none
  else
    let e ← (Grammar.readExpression text).toOption
    (← evaluate locals nestingLimit e).key

end Polyglot.Known
