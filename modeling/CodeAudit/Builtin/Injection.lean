import CodeAudit.Builtin.Basic
import CodeAudit.Fix.Call
import CodeAudit.Fix.Query

/-!
# Injection
-/
namespace CodeAudit.Builtin

/-- The shape of a SQL statement, whatever its letter case. -/
def sqlVerb : String :=
  r#"(?i:select\s[^"'`]+\sfrom|insert\s+into|update\s+\w+\s+set|delete\s+from)"#

/-- A written pattern once for double and once for single quotes: `f` is given the quote and the
set of all other code points. -/
def inQuotes (f : String → String → String) : String :=
  f "\"" r#"[^"]"# ++ "|" ++ f "'" r"[^']"

/-- A SQL statement between quotes, followed by an operator and a value. -/
def joinedSql : String :=
  inQuotes fun q n =>
    q ++ n ++ r"*\b" ++ sqlVerb ++ r"\b" ++ n ++ "*" ++ q ++ r"\s*(\+\s*[\w$(]|\.\s*[$(]|\.\s+\w)"

/-- A SQL statement in a literal that values are interpolated into. -/
def interpolatedSql : String :=
  (inQuotes fun q n => r"\b[fF]" ++ q ++ n ++ r"*\b" ++ sqlVerb ++ r"\b" ++ n ++ r"*\{")
    ++ r"|`[^`]*\b" ++ sqlVerb ++ r"\b[^`]*\$\{"
    ++ "|" ++ (inQuotes fun q n =>
      q ++ n ++ r"*\b" ++ sqlVerb ++ r"\b" ++ n ++ "*%[sd]" ++ n ++ "*" ++ q ++ r"\s*%")
    ++ "|" ++ (inQuotes fun q n =>
      q ++ n ++ r"*\b" ++ sqlVerb ++ r"\b" ++ n ++ r"*\{[^}]*\}" ++ n ++ "*" ++ q ++ r"\.format\(")
    ++ r#"|"[^"]*\b"# ++ sqlVerb ++ r#"\b[^"]*\$[A-Za-z_]"#

def osSystemCall : Pattern := .read r"\bos\.(system|popen)\s*\("

def subprocessCall : Pattern :=
  .read r"\bsubprocess\.(call|run|Popen|check_output|check_call)\s*\("

def execCall : Pattern := .read r"\b(exec|execSync)\s*\("

def shellTrue : Pattern := .read r"\bshell\s*=\s*True\b"

def joinedVariable : Pattern := .read r"\.\s*(\$\w+(?:\[[^\]]*\]|->\w+)*)"

def evalCall : Pattern := .read r"\beval\s*\("

def documentQueryCall : Pattern :=
  .read r"\.(find|findOne|findOneAndUpdate|findOneAndDelete|updateOne|updateMany|deleteOne|deleteMany|countDocuments)\s*\("

def dynamicStyle : Pattern :=
  .read r"(?i):\s*expression\s*\(|behavior\s*:\s*url\s*\(|-moz-binding\s*:"

/-- The arguments of a command expression: the quoted words of its literals and its operands, in
order. Nothing else may be joined. -/
def commandWords (dots : Bool) : Nat → Text → Option (List Text)
  | 0, _ => none
  | fuel + 1, t => do
    let t := t.dropWhile Text.isSpaceOrTab
    let (words, rest) ←
      if t.head?.any Code.isStringQuote then
        (Code.literalAt? t).map fun l => ((Text.fields l.content).map Text.quote, t.drop l.stop)
      else (Code.operand? dots t).map fun e => ([e], t.drop e.length)
    match rest.dropWhile Text.isSpaceOrTab with
    | [] => some words
    | op :: u =>
      if op == 43 || (dots && op == 46) then (commandWords dots fuel u).map (words ++ ·) else none

/-- The arguments of a command expression, at least two. -/
def commandArgs? (t : Text) : Option (List Text) :=
  match commandWords false (t.length + 1) t with
  | some words => if words.length < 2 then none else some words
  | none => none

def sqlStringConcatenation : Rule where
  id := "sql-string-concatenation"
  category := .injection
  name := "SQL Injection via String Concatenation"
  severity := .critical
  languages := []
  matcher := onLines (.read joinedSql)
  description := "A SQL statement is assembled by concatenating a variable into the query text, so attacker-controlled input can change the query structure."
  recommendation := recommend "Use parameterized queries (prepared statements) and pass values separately from the SQL text."
  fix := some (.firstOf [
    .bindQuery Query.concatenation?,
    .annotate "use a parameterized query and bind this value instead of concatenating it."])

def sqlStringInterpolation : Rule where
  id := "sql-string-interpolation"
  category := .injection
  name := "SQL Injection via String Interpolation"
  severity := .critical
  languages := []
  matcher := onLines (.read interpolatedSql)
  description := "A SQL statement is built with string formatting or interpolation, which splices untrusted values into the query text."
  recommendation := recommend "Replace the formatted SQL with placeholders and pass the values as bound parameters."
  fix := some (.firstOf [
    .bindQuery Query.interpolation?,
    .annotate "use a parameterized query and bind these values instead of formatting them into the SQL."])

/-- A system call of one argument, run without a shell. -/
def runDirectly (c : Call) (_ : Language) : Option Text :=
  match c.args with
  | [a] => (commandArgs? a).map fun words =>
    "subprocess.run([" ++ Text.join ", " words ++ "], check=True)"
  | _ => none

/-- A command expression as a list. -/
def listCommand (arg : Text) (_ : Language) : Option Text :=
  (commandArgs? arg).map fun words => "[" ++ Text.join ", " words ++ "]"

/-- A call that runs a file with a list of arguments. -/
def runFile (c : Call) (_ : Language) : Option Text :=
  match c.args with
  | [] => none
  | a :: rest =>
    match commandArgs? a with
    | some (program :: words) =>
      let name : Text := if Text.startsWith c.name "execSync" then "execFileSync" else "execFile"
      some (name ++ "(" ++ Text.join ", " (program :: ("[" ++ Text.join ", " words ++ "]") :: rest)
        ++ ")")
    | _ => none

def commandInjection : Rule where
  id := "command-injection"
  category := .injection
  name := "OS Command Injection"
  severity := .critical
  languages := []
  matcher := onLinesExcept
    (.read (r#"\bos\.(system|popen)\s*\([^)]*(\+|%|\.format\(|\b[fF]["'])"#
      ++ r"|\bsubprocess\.(call|run|Popen|check_output|check_call)\s*\([^)]*shell\s*=\s*True"
      ++ r"|\b(exec|execSync|spawn|spawnSync)\s*\(\s*([^)]*\+\s*[\w$]|`[^`]*\$\{)"
      ++ r"|\b(shell_exec|system|passthru|exec|popen|proc_open)\s*\([^)]*\$\w"
      ++ r"|Runtime\.getRuntime\(\)\.exec\s*\([^)]*\+"
      ++ r"|\b(system|popen|execl|execlp|execvp)\s*\(\s*[a-z_]\w*\s*[,)]"))
    (.read r"escapeshellarg|escapeshellcmd|shlex\.quote")
  description := "A shell command is built from variable input, allowing an attacker to inject additional commands."
  recommendation := recommend "Invoke the program directly with an argument vector (no shell), or strictly validate and escape every argument."
  fix := some (.firstOf [
    .withNote "the command runs without a shell and user input is passed as a discrete argument."
      (.byLanguage [
          (.python, .chain [
            .replaceCall osSystemCall runDirectly,
            .wrapFirstArg subprocessCall listCommand,
            .replace shellTrue (.read "shell=False")]),
          (.javaScript, .replaceCall execCall runFile),
          (.php, .replaceWith joinedVariable fun group _ => ". escapeshellarg(" ++ group 1 ++ ")")]
        .unchanged),
    .annotate "pass user input as a discrete argument without a shell, or validate it against an allow-list."])

def codeInjection : Rule where
  id := "code-injection"
  category := .injection
  name := "Dynamic Code Evaluation"
  severity := .high
  languages := []
  matcher := onLines
    (.read r#"\beval\s*\(\s*[^)\s]|\bnew\s+Function\s*\(|\bsetTimeout\s*\(\s*["']|\bcreate_function\s*\(|\bassert\s*\(\s*\$"#)
  description := "Text is evaluated as code at runtime; if any part of it is user-controlled this is remote code execution."
  recommendation := recommend "Never evaluate untrusted text. Parse data with a data-only parser such as JSON.parse or ast.literal_eval."
  fix := some (.firstOf [
    .withNote "a data-only parser replaces dynamic evaluation."
      (.byLanguage [
          (.python, .replace evalCall (.read "ast.literal_eval(")),
          (.javaScript, .replace evalCall (.read "JSON.parse("))]
        .unchanged),
    .annotate "remove dynamic evaluation; parse data with a data-only parser instead."])

def xssDomSink : Rule where
  id := "xss-dom-sink"
  category := .injection
  name := "Cross-Site Scripting via DOM Sink"
  severity := .high
  languages := [.javaScript, .html, .php, .general]
  matcher := onLinesExcept
    (.read r"\.(innerHTML|outerHTML)\s*(\+)?=[^=]|\bdocument\.write(ln)?\s*\(|\.insertAdjacentHTML\s*\(|\$\([^)]*\)\.html\s*\(\s*[^)\s]|\bdangerouslySetInnerHTML\b")
    (.read r#"DOMPurify\.sanitize|\.innerHTML\s*=\s*(""|'')\s*;?\s*$"#)
  description := "Untrusted data written into an HTML sink is parsed as markup and can execute script."
  recommendation := recommend "Write text with textContent (or an equivalent text API), or sanitize HTML with a vetted library such as DOMPurify before inserting it."
  fix := some (.firstOf [
    .withNote "content is inserted as text so the browser never parses it as HTML." (.chain [
      .replace (.read r"\.(innerHTML|outerHTML)(\s*\+?=)") (.read r".textContent${2}"),
      .replace (.read r"\bdocument\.write(ln)?\s*\(") (.read "document.body.append("),
      .replace (.read r"\.insertAdjacentHTML\s*\(") (.read ".insertAdjacentText("),
      .replace (.read r"(\$\([^)]*\))\.html\s*\(") (.read r"${1}.text(")]),
    .annotate "sanitize this HTML with DOMPurify.sanitize before rendering it."])

def xssReflectedOutput : Rule where
  id := "xss-reflected-output"
  category := .injection
  name := "Reflected Cross-Site Scripting"
  severity := .high
  languages := [.php, .javaScript, .python, .java, .html, .general]
  matcher := onLinesExcept
    (.read (r"\b(echo|print)\b[^;]*\$_(GET|POST|REQUEST|COOKIE)\["
      ++ r"|<\?=\s*\$_(GET|POST|REQUEST|COOKIE)\["
      ++ r"|\bres\.(send|write|end)\s*\([^)]*\breq\.(query|params|body)"
      ++ r"|\breturn\s+[^#\n]*\brequest\.(args|form|values)"
      ++ r"|\brender_template_string\s*\([^)]*\brequest\."
      ++ r"|getWriter\(\)\.(print|println|write)\s*\([^)]*getParameter"))
    (.read r"htmlspecialchars|htmlentities|\bescape(Html)?\s*\(|encodeForHTML|Encode\.forHtml")
  description := "Request data is written into the response without output encoding."
  recommendation := recommend "HTML-encode untrusted values at output time with the framework's escaping helper, or render them through an auto-escaping template."
  fix := some (.firstOf [
    .withNote "request data is HTML-encoded before it reaches the response." (.chain [
      .replace (.read r"(\$_(?:GET|POST|REQUEST|COOKIE)\[[^\]]*\])")
        (.read r"htmlspecialchars(${1}, ENT_QUOTES, 'UTF-8')"),
      .replace (.read r"(\breq\.(?:query|params|body)(?:\.\w+|\[[^\]]*\])*)")
        (.read r"escapeHtml(${1})"),
      .replace (.read r"(\brequest\.(?:args|form|values)(?:\.get\([^)]*\)|\[[^\]]*\]))")
        (.read r"escape(${1})"),
      .replace (.read r"(\brequest\.getParameter\([^)]*\))") (.read r"Encode.forHtml(${1})")]),
    .annotate "HTML-encode request data before writing it into the response."])

def nosqlInjection : Rule where
  id := "nosql-injection"
  category := .injection
  name := "NoSQL Injection"
  severity := .high
  languages := [.javaScript, .python, .php, .general]
  matcher := onLinesExcept
    (.read r"\.(find|findOne|findOneAndUpdate|findOneAndDelete|updateOne|updateMany|deleteOne|deleteMany|countDocuments)\s*\(\s*(req\.(body|query|params)|\{[^}]*:\s*req\.(body|query|params))|\$where\b")
    (.read r"sanitizeFilter|mongo-sanitize|\bString\(")
  description := "A database query object is taken from the request, so operators such as $ne or $where can be injected."
  recommendation := recommend "Build the query from validated scalar values or strip operator keys with mongoose.sanitizeFilter / express-mongo-sanitize."
  fix := some (.firstOf [
    .withNote "operator keys are stripped from the request-supplied filter."
      (.wrapFirstArg documentQueryCall fun arg _ =>
        if Text.contains arg "req." then some ("mongoose.sanitizeFilter(" ++ arg ++ ")") else none),
    .annotate "avoid $where and build the query from validated scalar values."])

def javascriptUrl : Rule where
  id := "javascript-url"
  category := .injection
  name := "javascript: URL in Markup"
  severity := .medium
  languages := [.html, .javaScript, .php, .general]
  matcher := onLines (.read r#"(?i)\b(href|src|action|formaction)\s*=\s*["']\s*javascript:"#)
  description := "A javascript: URL executes script from an attribute and defeats Content-Security-Policy protections."
  recommendation := recommend "Attach behaviour with addEventListener and keep URL attributes to real http(s) targets."
  fix := some (.withNote "attach the handler with addEventListener instead of a javascript: URL."
    (.replace
      (.read r#"(?i)\b(href|src|action|formaction)\s*=\s*(["'])\s*javascript:[^"']*["']"#)
      (.read r"${1}=${2}#${2}")))

def cssExpression : Rule where
  id := "css-expression"
  category := .injection
  name := "CSS Expression or Binding"
  severity := .medium
  languages := [.css, .html, .general]
  matcher := onLines dynamicStyle
  description := "CSS expression(), behavior and -moz-binding execute script from a stylesheet in legacy browsers."
  recommendation := recommend "Remove the dynamic property and compute the value in script or with static CSS."
  fix := some (.onCode fun line l =>
    if dynamicStyle.matchesIn line then
      note l line.indent "dynamic CSS property removed; compute the value with static CSS or script."
    else line)

def injection : List Rule :=
  [sqlStringConcatenation, sqlStringInterpolation, commandInjection, codeInjection, xssDomSink,
    xssReflectedOutput, nosqlInjection, javascriptUrl, cssExpression]

end CodeAudit.Builtin
