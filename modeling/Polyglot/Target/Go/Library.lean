import Polyglot.Emit.Template

/-!
# The library of Go

How functions and values of the source's library are written, by dotted name. A method that may belong to a text
goes by the name of the type of texts.
-/
namespace Polyglot.Go.Library

open Emit LibraryCall

def joinTexts : LibraryCall := fun receiver vargs => do
  let sep ← receiver
  using_ "\"strings\""
  return some ("strings.Join(" ++ (← argAt vargs 0) ++ ", " ++ sep ++ ")")

def listFiles : LibraryCall := fun receiver vargs => do
  using_ "\"os\""
  let path ← if vargs.isEmpty then pure "\".\"" else argAt vargs 0
  filled [] ("func() []string \x7b entries, err := os.ReadDir($0); if err != nil \x7b panic(err) \x7d; " ++
    "names := make([]string, len(entries)); for i, entry := range entries \x7b names[i] = entry.Name() \x7d; " ++
    "return names \x7d()") receiver [some path]

def environment : LibraryCall := fun receiver vargs =>
  if vargs.length > 1 then
    filled ["\"os\""] ("func() string \x7b value, ok := os.LookupEnv($0); if ok \x7b return value \x7d; " ++
      "return $1 \x7d()") receiver vargs
  else filled ["\"os\""] "os.Getenv($0)" receiver vargs

def decimal : LibraryCall :=
  filled ["\"math/big\""]
    ("func() *big.Float \x7b v, _, err := big.ParseFloat($0, 10, 0, big.ToNearestEven); " ++
     "if err != nil \x7b panic(err) \x7d; return v \x7d()")

def toJson : LibraryCall :=
  filled ["\"encoding/json\""]
    ("func() string \x7b b, err := json.Marshal($0); if err != nil \x7b panic(err) \x7d; return string(b) " ++
     "\x7d()")

def fromJson : LibraryCall :=
  filled ["\"encoding/json\""]
    ("func() any \x7b var v any; if err := json.Unmarshal([]byte($0), &v); err != nil \x7b panic(err) \x7d; " ++
     "return v \x7d()")

def now : LibraryCall := filled ["\"time\""] "float64(time.Now().UnixNano()) / 1e9"

/-- Calls that are written by one template, by what has to be imported for them. -/
def templates : List (List String × List (String × String)) :=
  [(["\"strings\""], [("str.lower", "strings.ToLower($r)"), ("str.upper", "strings.ToUpper($r)"),
     ("str.capitalize", "(strings.ToUpper($r[:1]) + strings.ToLower($r[1:]))"), ("str.title", "strings.Title($r)"),
     ("str.strip", "strings.TrimSpace($r)"), ("str.find", "strings.Index($r, $0)"),
     ("str.replace", "strings.ReplaceAll($r, $0, $1)"), ("io.StringIO", "strings.NewReader($0)")]),
   (["\"strings\"", "\"unicode\""], [("str.lstrip", "strings.TrimLeftFunc($r, unicode.IsSpace)"),
     ("str.rstrip", "strings.TrimRightFunc($r, unicode.IsSpace)")]),
   (["\"regexp\""], [("str.isalpha", "regexp.MustCompile(`^[A-Za-z]+$`).MatchString($r)"),
     ("str.isdigit", "regexp.MustCompile(`^\\d+$`).MatchString($r)"),
     ("str.isspace", "regexp.MustCompile(`^\\s+$`).MatchString($r)"),
     ("re.search", "regexp.MustCompile($0).FindStringIndex($1) != nil"),
     ("re.match", "regexp.MustCompile(\"^\"+$0).FindStringIndex($1) != nil"),
     ("re.findall", "regexp.MustCompile($0).FindAllString($1, -1)"),
     ("re.sub", "regexp.MustCompile($0).ReplaceAllString($2, $1)"),
     ("re.split", "regexp.MustCompile($0).Split($1, -1)"), ("re.compile", "regexp.MustCompile($0)")]),
   (["\"os\""], [("str.exists", "func() bool \x7b _, err := os.Stat($r); return err == nil \x7d()"),
     ("str.is_dir", "func() bool \x7b info, err := os.Stat($r); return err == nil && info.IsDir() \x7d()"),
     ("str.is_file", "func() bool \x7b info, err := os.Stat($r); return err == nil && !info.IsDir() \x7d()"),
     ("str.read_text", "func() string \x7b b, err := os.ReadFile($r); if err != nil \x7b panic(err) \x7d; return " ++
       "string(b) \x7d()"), ("str.write_text", "os.WriteFile($r, []byte($0), 0644)"),
     ("os.mkdir", "os.Mkdir($0, 0755)"),
     ("os.getcwd", "func() string \x7b cwd, err := os.Getwd(); if err != nil \x7b panic(err) \x7d; return cwd \x7d()"),
     ("os.remove", "os.Remove($0)"),
     ("os.path.exists", "func() bool \x7b _, err := os.Stat($0); return err == nil \x7d()"),
     ("os.path.isdir", "func() bool \x7b info, err := os.Stat($0); return err == nil && info.IsDir() \x7d()"),
     ("os.path.isfile", "func() bool \x7b info, err := os.Stat($0); return err == nil && !info.IsDir() \x7d()"),
     ("shutil.copy", "copyFile($0, $1)"), ("shutil.rmtree", "os.RemoveAll($0)"), ("shutil.move", "os.Rename($0, $1)"),
     ("tempfile.gettempdir", "os.TempDir()"), ("getopt.getopt", "os.Args[1:]")]),
   ([], [("str.strftime", "$r.Format($0)"), ("math.gcd", "gcd($*)"), ("math.factorial", "factorial($*)"),
     ("datetime.datetime.strftime", "$0.Format($1)"), ("collections.OrderedDict", "map[string]string\x7b\x7d"),
     ("collections.defaultdict", "map[string]string\x7b\x7d"), ("collections.deque", "append([]any\x7b\x7d, $0...)"),
     ("collections.Counter", "map[string]int\x7b\x7d"), ("itertools.product", "product($*)"),
     ("itertools.chain", "append($0, $+...)"), ("operator.add", "($0 + $1)"), ("operator.sub", "($0 - $1)"),
     ("operator.mul", "($0 * $1)"), ("operator.truediv", "($0 / $1)"), ("unittest.TestCase", ""),
     ("self.assertEqual", "assertEqual($0, $1)"), ("self.assertTrue", "assertTrue($0)"),
     ("self.assertFalse", "assertFalse(!($0))"), ("abc.ABC", ""), ("abc.abstractmethod", ""),
     ("inspect.isfunction", "true"), ("statistics.mean", "mean($0)"), ("zlib.decompress", "zlibDecompress($0)"),
     ("gzip.decompress", "gzipDecompress($0)"), ("contextlib.closing", "defer $0.Close()"), ("locale.setlocale", ""),
     ("resource.getrlimit", "0"), ("xml.etree.ElementTree.fromstring", "xmlFromString($0)"),
     ("ET.fromstring", "xmlFromString($0)"), ("struct.pack", "structPack($*)"), ("struct.unpack", "structUnpack($*)"),
     ("queue.Queue", "make(chan any)"), ("Queue.put", "$r <- $0"), ("Queue.get", "<- $r"),
     ("tarfile.open", "tarOpen($*)"), ("difflib.SequenceMatcher", "SequenceMatcher\x7b\x7d"),
     ("calendar.monthrange", "monthRange($0, $1)"), ("colorsys.rgb_to_hls", "rgbToHls($*)"),
     ("functools.reduce", "reduce($0, $1)"), ("poplib.POP3", "0"), ("imaplib.IMAP4", "0"),
     ("xmlrpc.client.ServerProxy", "0 /* RPC placeholder for $0 */"), ("concurrent.futures.ThreadPoolExecutor", "0"),
     ("concurrent.futures.ProcessPoolExecutor", "0"), ("ThreadPoolExecutor.submit", "go $0($+)"),
     ("str.appendleft", "append([]any\x7b$0\x7d, $r...)"), ("str.popleft", "$r[0]")]),
   (["\"math\""], [("math.ceil", "math.Ceil($*)"), ("math.floor", "math.Floor($*)"), ("math.pow", "math.Pow($*)"),
     ("math.sqrt", "math.Sqrt($*)"), ("math.log", "math.Log($*)"), ("math.log10", "math.Log10($*)"),
     ("math.sin", "math.Sin($*)"), ("math.cos", "math.Cos($*)"), ("math.tan", "math.Tan($*)"),
     ("math.asin", "math.Asin($*)"), ("math.acos", "math.Acos($*)"), ("math.atan", "math.Atan($*)"),
     ("math.degrees", "(($0) * 180 / math.Pi)"), ("math.radians", "(($0) * math.Pi / 180)"),
     ("math.cosh", "math.Cosh($*)"), ("math.tanh", "math.Tanh($*)"), ("math.erf", "math.Erf($*)"),
     ("math.erfc", "math.Erfc($*)")]),
   (["\"path/filepath\""], [("os.path.join", "filepath.Join($*)"), ("os.path.basename", "filepath.Base($0)"),
     ("os.path.dirname", "filepath.Dir($0)"),
     ("glob.glob", "func() []string \x7b matches, err := filepath.Glob($0); if err != nil \x7b panic(err) \x7d; " ++
       "return matches \x7d()"),
     ("fnmatch.fnmatch", "func() bool \x7b ok, err := filepath.Match($1, $0); if err != nil \x7b return false " ++
       "\x7d; return ok \x7d()")]),
   (["\"time\""], [("time.sleep", "time.Sleep(time.Duration($0) * time.Second)"),
     ("datetime.datetime.now", "time.Now()"), ("datetime.datetime.utcnow", "time.Now().UTC()")]),
   (["\"math/rand\""], [("random.random", "rand.Float64()"), ("random.randint", "rand.Intn(($1)-($0)+1) + ($0)"),
     ("random.choice", "$0[rand.Intn(len($0))]")]),
   (["\"log\""], [("logging.info", "log.Print($0)"), ("logging.warning", "log.Print($0)"),
     ("logging.error", "log.Print($0)"), ("logging.debug", "log.Print($0)")]),
   (["\"encoding/base64\""], [("base64.b64encode", "[]byte(base64.StdEncoding.EncodeToString($0))"),
     ("base64.b64decode", "func() []byte \x7b b, err := base64.StdEncoding.DecodeString($0); if err != nil \x7b " ++
       "panic(err) \x7d; return b \x7d()")]),
   (["\"os/exec\""], [("subprocess.run", "exec.Command($0).Run()"),
     ("subprocess.check_output", "func() []byte \x7b out, err := exec.Command($0).Output(); if err != nil \x7b " ++
       "panic(err) \x7d; return out \x7d()"),
     ("subprocess.call", "func() int \x7b err := exec.Command($0).Run(); if err != nil \x7b return 1 \x7d; return 0 \x7d()")]),
   (["\"crypto/sha256\""], [("hashlib.sha256", "sha256.New()")]),
   (["\"crypto/md5\""], [("hashlib.md5", "md5.New()")]),
   (["\"encoding/hex\""], [("str.hexdigest", "hex.EncodeToString($r.Sum(nil))"),
     ("binascii.hexlify", "[]byte(hex.EncodeToString($0))"),
     ("binascii.unhexlify", "func() []byte \x7b b, err := hex.DecodeString($0); if err != nil \x7b panic(err) " ++
       "\x7d; return b \x7d()")]),
   (["\"encoding/csv\""], [("csv.reader", "csv.NewReader($0)"), ("csv.writer", "csv.NewWriter($0)")]),
   (["\"net/url\""], [
     ("urllib.parse.urlparse", "func() *url.URL \x7b u, err := url.Parse($0); if err != nil \x7b panic(err) \x7d; return u \x7d()"),
     ("urllib.parse.quote", "url.QueryEscape($0)")]),
   (["\"net/http\""], [("urllib.request.urlopen", "http.Get($0)"), ("requests.get", "http.Get($0)"),
     ("http.client.HTTPConnection", "http.Get($0)")]),
   (["\"github.com/google/uuid\""], [("uuid.uuid4", "uuid.New().String()")]),
   (["\"container/heap\""], [("heapq.heappush", "heap.Push(&$0, $1)"), ("heapq.heappop", "heap.Pop(&$0)")]),
   (["\"fmt\"", "\"os\""], [("warnings.warn", "fmt.Fprintln(os.Stderr, $0)")]),
   (["\"runtime\""], [("platform.system", "runtime.GOOS")]),
   (["\"flag\"", "\"os\""], [("argparse.ArgumentParser", "flag.NewFlagSet(os.Args[0], flag.ExitOnError)")]),
   (["\"sort\""], [("bisect.bisect_left", "sort.Search(len($0), func(i int) bool \x7b return $0[i] >= $1 \x7d)")]),
   (["\"fmt\""], [("locale.format_string", "fmt.Sprintf($0, $1)"), ("pprint.pprint", "fmt.Printf(\"%#v\\n\", $0)"),
     ("traceback.print_exc", "fmt.Println(\"Exception occurred\")")]),
   (["\"os/signal\""], [("signal.signal", "signal.Notify($1, $0)")]),
   (["\"bytes\""], [("io.BytesIO", "bytes.NewReader($0)")]),
   (["\"archive/zip\""], [("zipfile.ZipFile", "zip.OpenReader($0)")]),
   (["\"html\""], [("html.escape", "html.EscapeString($0)"), ("html.unescape", "html.UnescapeString($0)")]),
   (["\"crypto/hmac\""], [("hmac.new", "hmac.New($2, $0)")]),
   (["\"database/sql\""], [("sqlite3.connect", "sql.Open(\"sqlite3\", $0)")])]

def calls : List (String × LibraryCall) :=
  ofTemplates templates ++
    [("str.split", either ["\"strings\""] "strings.Split($r, $0)" "strings.Fields($r)"), ("str.join", joinTexts),
     ("os.listdir", listFiles), ("os.environ.get", environment),
     ("sys.exit", either ["\"os\""] "os.Exit($0)" "os.Exit(0)"), ("json.loads", fromJson), ("json.dumps", toJson),
     ("time.time", now), ("pathlib.Path", itself 0), ("copy.copy", itself 0), ("copy.deepcopy", itself 0),
     ("pickle.dumps", toJson), ("pickle.loads", fromJson), ("decimal.Decimal", decimal), ("array.array", itself 1),
     ("timeit.default_timer", now), ("textwrap.fill", itself 0),
     ("secrets.token_bytes", either [] "tokenBytes($0)" "tokenBytes(32)"),
     ("secrets.token_hex", either [] "tokenHex($0)" "tokenHex(32)"),
     ("smtplib.SMTP", either [] "smtpClient($0)" "smtpClient(\"localhost\")"),
     ("threading.Thread", either [] "go $0" "go")]

def values : List (String × String × String) :=
  [("math.pi", "\"math\"", "math.Pi"), ("math.e", "\"math\"", "math.E"), ("math.tau", "\"math\"", "(math.Pi * 2.0)"),
   ("math.inf", "\"math\"", "math.Inf(1)"), ("math.nan", "\"math\"", "math.NaN()"), ("sys.argv", "\"os\"", "os.Args"),
   ("sys.stdin", "\"os\"", "os.Stdin"), ("sys.stdout", "\"os\"", "os.Stdout"), ("sys.stderr", "\"os\"", "os.Stderr"),
   ("os.environ", "\"os\"", "os.Environ()")]

end Polyglot.Go.Library
