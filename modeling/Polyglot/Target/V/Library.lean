import Polyglot.Emit.Template

/-!
# The library of V

How functions and values of the source's library are written, by dotted name. A method that may belong to a text
goes by the name of the type of texts.
-/
namespace Polyglot.V.Library

open Session Emit LibraryCall

def formattedTime : LibraryCall := fun receiver vargs => do
  using_ "time"
  match vargs.head? with
  | none => fail .outOfRange
  | some t =>
    let letters := [("%Y", "YYYY"), ("%m", "MM"), ("%d", "DD"), ("%H", "HH"), ("%M", "mm"), ("%S", "ss")]
    let pattern := letters.foldl (fun s (a, b) => Text.replaceAll s a b) (← present t)
    return some ((← receiver) ++ ".custom_format(" ++ pattern ++ ")")

/-- Calls that are written by one template, by what has to be imported for them. -/
def templates : List (List String × List (String × String)) :=
  [([], [("str.lower", "$r.to_lower()"), ("str.upper", "$r.to_upper()"), ("str.capitalize", "$r.to_lower()"),
     ("str.title", "$r.title()"), ("str.strip", "$r.trim_space()"), ("str.lstrip", "$r.trim_left(' ')"),
     ("str.rstrip", "$r.trim_right(' ')"), ("str.find", "($r.index($0) or \x7b -1 \x7d)"),
     ("str.replace", "$r.replace($*)"), ("str.join", "$0.join($r)"), ("str.isalpha", "$r.bytes().all(it.is_letter())"),
     ("str.isdigit", "$r.bytes().all(it.is_digit())"), ("str.isspace", "($r.trim_space() == '')"),
     ("str.hexdigest", "$r.hexhash()"), ("collections.OrderedDict", "map[string]string\x7b\x7d"),
     ("collections.defaultdict", "map[string]string\x7b\x7d"),
     ("threading.Thread", "spawn /* thread target should follow */"), ("copy.copy", "$0.clone()"),
     ("copy.deepcopy", "$0.clone()"), ("unittest.TestCase", ""), ("self.assertEqual", "assert $0 == $1"),
     ("self.assertTrue", "assert $0"), ("self.assertFalse", "assert !($0)"), ("heapq.heappush", "$0 << $1; $0.sort()"),
     ("heapq.heappop", "$0.pop()"), ("collections.deque", "$0.clone()"), ("str.appendleft", "$r.insert(0, $0)"),
     ("str.popleft", "$r.delete(0)"), ("collections.Counter", "map[string]int\x7b\x7d"),
     ("platform.system", "/* $if windows \x7b 'Windows' \x7d $else \x7b 'Linux' \x7d */ 'Windows'"),
     ("warnings.warn", "eprintln('Warning: ' + $0)"), ("abc.ABC", ""), ("abc.abstractmethod", ""),
     ("inspect.isfunction", "true"), ("array.array", "$1.clone()"),
     ("contextlib.closing", "defer \x7b $0.close() \x7d"), ("fnmatch.fnmatch", "$0.match_glob($1)"),
     ("locale.setlocale", ""), ("locale.format_string", "$0 % $1"), ("resource.getrlimit", "0"),
     ("queue.Queue", "chan int\x7b\x7d"), ("Queue.put", "$r <- $0"), ("Queue.get", "<- $r"),
     ("pprint.pprint", "dump($0)"), ("traceback.print_exc", "eprintln('Exception occurred')"),
     ("textwrap.fill", "/* $0.wrap($1) */ $0"), ("operator.add", "($0 + $1)"), ("operator.sub", "($0 - $1)"),
     ("operator.mul", "($0 * $1)"), ("operator.truediv", "($0 / $1)"),
     ("difflib.SequenceMatcher", "/* Comparison placeholder */ diff.SequenceMatcher\x7b\x7d"),
     ("colorsys.rgb_to_hls", "/* Color math placeholder */ $0"), ("poplib.POP3", "/* Email retrieval placeholder */ 0"),
     ("imaplib.IMAP4", "/* Email retrieval placeholder */ 0"),
     ("xmlrpc.client.ServerProxy", "/* RPC placeholder for $0 */ 0"),
     ("concurrent.futures.ThreadPoolExecutor", "/* Concurrency pool placeholder */ 0"),
     ("concurrent.futures.ProcessPoolExecutor", "/* Concurrency pool placeholder */ 0"),
     ("ThreadPoolExecutor.submit", "spawn $0($+)")]),
   (["os"], [("str.exists", "os.exists($r)"), ("str.is_dir", "os.is_dir($r)"), ("str.is_file", "os.is_file($r)"),
     ("str.read_text", "os.read_file($r) or \x7b panic(err) \x7d"),
     ("str.write_text", "os.write_file($r, $0) or \x7b panic(err) \x7d"),
     ("os.mkdir", "os.mkdir($0) or \x7b panic(err) \x7d"), ("os.getcwd", "os.getwd()"),
     ("os.environ.get", "os.getenv($0)"), ("os.path.join", "os.join_path($*)"), ("os.path.exists", "os.exists($0)"),
     ("os.path.isdir", "os.is_dir($0)"), ("os.path.isfile", "os.is_file($0)"), ("os.path.basename", "os.base($0)"),
     ("os.path.dirname", "os.dir($0)"), ("pathlib.Path", "$0"),
     ("shutil.copy", "os.cp($0, $1) or \x7b panic(err) \x7d"),
     ("shutil.rmtree", "os.rmdir_all($0) or \x7b panic(err) \x7d"),
     ("shutil.move", "os.mv($0, $1) or \x7b panic(err) \x7d"), ("subprocess.run", "os.execute($0)"),
     ("subprocess.check_output", "os.execute($0).output"), ("subprocess.call", "os.system($0)"),
     ("tempfile.gettempdir", "os.vtmp_dir()"), ("glob.glob", "os.ls($0) or \x7b []string\x7b\x7d \x7d"),
     ("signal.signal", "os.signal_opt($0, $1)"), ("getopt.getopt", "os.args[1..]")]),
   (["regex"], [
     ("re.search", "(fn(p string, s string) bool \x7b mut re := regex.regex_opt(p) or \x7b panic(err) \x7d; return " ++
       "re.find_all_str(s).len > 0 \x7d($0, $1))"),
     ("re.match", "(fn(p string, s string) bool \x7b mut re := regex.regex_opt('^' + p) or \x7b panic(err) \x7d; " ++
       "return re.find_all_str(s).len > 0 \x7d($0, $1))"),
     ("re.findall", "(fn(p string, s string) []string \x7b mut re := regex.regex_opt(p) or \x7b panic(err) \x7d; " ++
       "return re.find_all_str(s) \x7d($0, $1))"),
     ("re.sub", "(fn(p string, r string, s string) string \x7b mut re := regex.regex_opt(p) or \x7b panic(err) " ++
       "\x7d; return re.replace(s, r) \x7d($0, $1, $2))"),
     ("re.split", "(fn(p string, s string) []string \x7b mut re := regex.regex_opt(p) or \x7b panic(err) \x7d; " ++
       "return re.split(s) \x7d($0, $1))"), ("re.compile", "regex.regex_opt($0) or \x7b panic(err) \x7d")]),
   (["math"], ["ceil", "floor", "pow", "sqrt", "log", "log10", "gcd", "factorial", "sin", "cos", "tan", "asin", "acos",
     "atan", "degrees", "radians", "cosh", "tanh", "erf", "erfc"].map fun f =>
     ("math." ++ f, "math." ++ f ++ "($*)")),
   (["json"], [("json.loads", "json.decode(Any, $0) or \x7b panic(err) \x7d"), ("json.dumps", "json.encode($0)"),
     ("pickle.dumps", "json.encode($0)"), ("pickle.loads", "json.decode(T, $0) or \x7b panic(err) \x7d")]),
   (["time"], [("time.time", "time.now().unix()"), ("time.sleep", "time.sleep($0 * time.second)"),
     ("datetime.datetime.now", "time.now()"), ("datetime.datetime.utcnow", "time.utc()"),
     ("datetime.datetime.strftime", "$0.custom_format($1)"), ("timeit.default_timer", "time.now().unix()"),
     ("calendar.monthrange", "[0, time.days_in_month($1, $0) or \x7b 0 \x7d]")]),
   (["rand"], [("random.random", "rand.f64()"),
     ("random.randint", "rand.int_in_range($0, $1 + 1) or \x7b panic(err) \x7d"),
     ("random.choice", "rand.element($0) or \x7b panic(err) \x7d"), ("uuid.uuid4", "rand.uuid_v4()")]),
   (["log"], [("logging.info", "log.info($0)"), ("logging.warning", "log.warn($0)"), ("logging.error", "log.error($0)"),
     ("logging.debug", "log.debug($0)")]),
   (["encoding.base64"], [("base64.b64encode", "base64.encode($0.bytes())"),
     ("base64.b64decode", "base64.decode($0).bytestr()")]),
   (["crypto.sha256"], [("hashlib.sha256", "sha256.new()")]),
   (["crypto.md5"], [("hashlib.md5", "md5.new()")]),
   (["encoding.csv"], [("csv.reader", "csv.new_reader($0)"), ("csv.writer", "csv.new_writer($0)")]),
   (["iter"], [("itertools.product", "iter.product($*)"), ("itertools.chain", "iter.chain($*)")]),
   (["net.urllib"], [("urllib.parse.urlparse", "urllib.parse($0) or \x7b panic(err) \x7d"),
     ("urllib.parse.quote", "urllib.query_escape($0)")]),
   (["net.http"], [("urllib.request.urlopen", "net.http.get($0)"), ("requests.get", "net.http.get($0)"),
     ("http.client.HTTPConnection", "net.http.get($0)")]),
   (["db.sqlite"], [("sqlite3.connect", "sqlite.connect($0)")]),
   (["crypto.hmac"], [("hmac.new", "hmac.new($0, $1, $2)")]),
   (["math.big"], [("decimal.Decimal", "big.from_string($0)")]),
   (["arrays"], [("statistics.mean", "(arrays.sum($0) or \x7b 0.0 \x7d) / $0.len"),
     ("bisect.bisect_left", "arrays.binary_search($0, $1)"), ("functools.reduce", "arrays.reduce($1, $0)")]),
   (["flag", "os"], [("argparse.ArgumentParser", "flag.new_flag_parser(os.args)")]),
   (["encoding.hex"], [("binascii.hexlify", "hex.encode($0)"),
     ("binascii.unhexlify", "hex.decode($0) or \x7b []u8\x7b\x7d \x7d")]),
   (["compress.zlib"], [("zlib.decompress", "zlib.decompress($0) or \x7b []u8\x7b\x7d \x7d")]),
   (["compress.gzip"], [("gzip.decompress", "gzip.decompress($0) or \x7b []u8\x7b\x7d \x7d")]),
   (["encoding.xml"], [("xml.etree.ElementTree.fromstring", "/* xml.parse_string($0) */ ''"),
     ("ET.fromstring", "/* xml.parse_string($0) */ ''")]),
   (["encoding.binary"], [("struct.pack", "binary.pack($*)"), ("struct.unpack", "binary.unpack($*)")]),
   (["io"], [("io.BytesIO", "io.new_bytes_reader($0)"), ("io.StringIO", "io.new_string_reader($0)")]),
   (["szip"], [("zipfile.ZipFile", "szip.open($0)")]),
   (["archive.tar"], [("tarfile.open", "tar.open($0, $1)")]),
   (["encoding.html"], [("html.escape", "html.escape($0)"), ("html.unescape", "html.unescape($0)")]),
   (["crypto.rand"], [("secrets.token_bytes", "rand.bytes($0 or 32)"),
     ("secrets.token_hex", "rand.bytes($0 or 32).hex()")])]

def calls : List (String × LibraryCall) :=
  ofTemplates templates ++
    [("str.split", either [] "$r.split($0)" "$r.fields()"), ("str.strftime", formattedTime),
     ("os.listdir", either ["os"] "os.ls($0) or \x7b panic(err) \x7d" "os.ls('.') or \x7b panic(err) \x7d"),
     ("sys.exit", either [] "exit($0)" "exit(0)"),
     ("smtplib.SMTP", either ["net.smtp"] ("smtp.Client\x7bserver: $0\x7d") ("smtp.Client\x7bserver: 'localhost'\x7d"))]

def values : List (String × String × String) :=
  [("math.pi", "math", "math.pi"), ("math.e", "math", "math.e"), ("math.tau", "math", "(math.pi * 2.0)"),
   ("math.inf", "math", "math.inf(1)"), ("math.nan", "math", "math.nan()"), ("sys.argv", "os", "os.args"),
   ("sys.stdin", "os", "os.stdin"), ("sys.stdout", "os", "os.stdout"), ("sys.stderr", "os", "os.stderr"),
   ("os.environ", "os", "os.environ()")]

end Polyglot.V.Library
