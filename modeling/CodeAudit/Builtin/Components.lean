import CodeAudit.Builtin.Basic
import CodeAudit.Fix.Call

/-!
# Vulnerable and outdated components
-/
namespace CodeAudit.Builtin

def scanFormat : Pattern := .read r#"\bscanf\s*\(\s*"[^"]*""#

def jqueryVersion : Pattern := .read r"(?i)(jquery[-./@]?)(?:[12]|3\.[0-4])(?:\.\d+)*"

def sizeOf (buffer : Text) : Text := "sizeof(" ++ buffer ++ ")"

def boundedRead (c : Call) (_ : Language) : Option Text :=
  match c.args with
  | [a] => some ("fgets(" ++ a ++ ", " ++ sizeOf a ++ ", stdin)")
  | _ => none

def boundedCopy (c : Call) (_ : Language) : Option Text :=
  match c.args with
  | [a, b] => some ("strncpy(" ++ a ++ ", " ++ b ++ ", " ++ sizeOf a ++ " - 1)")
  | _ => none

/-- A bounded concatenation in place of an unbounded one. -/
def boundedAppend (c : Call) (_ : Language) : Option Text :=
  match c.args with
  | [a, b] => some ("strncat(" ++ a ++ ", " ++ b ++ ", " ++ sizeOf a ++ " - strlen(" ++ a ++ ") - 1)")
  | _ => none

def boundedPrint (c : Call) (_ : Language) : Option Text :=
  match c.args with
  | a :: b :: rest =>
    let name : Text := if Text.startsWith c.name "v" then "vsnprintf" else "snprintf"
    some (name ++ "(" ++ Text.join ", " (a :: sizeOf a :: b :: rest) ++ ")")
  | _ => none

def unsafeCFunctions : Rule where
  id := "unsafe-c-functions"
  category := .vulnerableComponents
  name := "Unbounded C String Function"
  severity := .high
  languages := [.c]
  matcher := onLines (.read r#"\b(gets|strcpy|strcat|sprintf|vsprintf)\s*\(|\bscanf\s*\(\s*"[^"]*%s"#)
  description := "gets, strcpy, strcat, sprintf and unbounded %s conversions write past the destination buffer on long input."
  recommendation := recommend "Use the bounded variants (fgets, strncpy/strlcpy, strncat, snprintf) and always pass the destination size."
  fix := some (.withNote "bounded variants replace the unbounded buffer writes." (.chain [
    .replaceCall (.read r"\bgets\s*\(") boundedRead,
    .replaceCall (.read r"\bstrcpy\s*\(") boundedCopy,
    .replaceCall (.read r"\bstrcat\s*\(") boundedAppend,
    .replaceCall (.read r"\b(v?)sprintf\s*\(") boundedPrint,
    .replaceWith scanFormat fun group _ => Text.replaceAll "%s" "%255s" (group 0)]))

def deprecatedMysqlApi : Rule where
  id := "deprecated-mysql-api"
  category := .vulnerableComponents
  name := "Removed mysql_* API"
  severity := .high
  languages := [.php, .general]
  matcher := onLines
    (.read r"\bmysql_(query|connect|pconnect|fetch_\w+|select_db|real_escape_string|escape_string|num_rows|result|close|error)\s*\(")
  description := "The mysql_* extension was removed in PHP 7 and offers no prepared statements."
  recommendation := recommend "Migrate to PDO or mysqli and use prepared statements."
  fix := some (.withNote "mysqli replaces the removed mysql extension; pass the connection and use prepared statements."
    (.replace (.read r"\bmysql_(\w+)\s*\(") (.read r"mysqli_${1}(")))

def outdatedJsLibrary : Rule where
  id := "outdated-js-library"
  category := .vulnerableComponents
  name := "Outdated Front-End Library"
  severity := .medium
  languages := [.html, .javaScript, .php, .general]
  matcher := onLines
    (.read r#"(?i)jquery[-./@]?([12]\.\d+|3\.[0-4])|"jquery"\s*:\s*"[~^]?[12]\.|bootstrap[/@-][23]\.\d+|angular(\.min)?\.js|angularjs/1\."#)
  description := "A front-end library version with published XSS or prototype-pollution advisories is referenced."
  recommendation := recommend "Upgrade to a supported release and track dependencies with a software composition analysis tool."
  fix := some (.firstOf [
    .withNote "the library reference points at a supported release; re-test the page after upgrading."
      (.chain [
        .replaceWith jqueryVersion fun group _ => group 1 ++ "3.7.1",
        .replace (.read r#"("jquery"\s*:\s*"[~^]?)[12](?:\.\d+)*"#) (.read r"${1}3.7.1"),
        .replace (.read r"(?i)(bootstrap[/@-])[23](?:\.\d+)*") (.read r"${1}5.3.3")]),
    .annotate "AngularJS is end-of-life; migrate to a supported framework."])

def insecureTempFile : Rule where
  id := "insecure-temp-file"
  category := .vulnerableComponents
  name := "Insecure Temporary File"
  severity := .medium
  languages := [.python, .c, .general]
  matcher := onLines
    (.read r"\btempfile\.mktemp\s*\(|\bos\.tempnam\s*\(|\b(tmpnam|tempnam|mktemp)\s*\(")
  description := "The temporary file name is chosen before the file is created, leaving a race an attacker can win."
  recommendation := recommend "Create the file atomically with tempfile.mkstemp / NamedTemporaryFile or mkstemp(3)."
  fix := some (.firstOf [
    .withNote "mkstemp creates the file atomically."
      (.replace (.read r"\btempfile\.mktemp\s*\(") (.read "tempfile.mkstemp(")),
    .annotate "create temporary files atomically with mkstemp()."])

/-- The rules on vulnerable and outdated components. -/
def components : List Rule :=
  [unsafeCFunctions, deprecatedMysqlApi, outdatedJsLibrary, insecureTempFile]

end CodeAudit.Builtin
