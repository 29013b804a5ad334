import CodeAudit.Builtin.Basic
import CodeAudit.Fix.Call

/-!
# Broken access control
-/
namespace CodeAudit.Builtin

def fileOpenCall : Pattern :=
  .read r"(?i)\b(open|fopen|file_get_contents|readfile|readFile|readFileSync|createReadStream|sendFile|include|include_once|require_once|new\s+File|FileInputStream|FileReader|Paths\.get)\s*\("

/-- The directory and the variable part of a path expression: a leading literal joined to the
rest, or else the fixed base directory. -/
def splitPath (arg : Text) (dots : Bool) : Text × Text :=
  (go arg).getD (utf8 "BASE_DIR", arg)
where
  /-- A leading literal and what is joined to it. -/
  go (arg : Text) : Option (Text × Text) :=
    if !arg.head?.any Code.isStringQuote then none
    else do
      let lit ← Code.literalAt? arg
      let after := (arg.drop lit.stop).dropWhile Text.isSpaceOrTab
      match after with
      | [] => none
      | op :: u =>
        let rest := Text.trim u
        if (op == 43 || (dots && op == 46)) && !rest.isEmpty then some (arg.take lit.stop, rest)
        else none

/-- A path expression confined to a fixed directory. -/
def confinePath (arg : Text) (l : Language) : Option Text :=
  let (dir, name) := splitPath arg (l == .php)
  match l with
  | .python => some ("os.path.join(" ++ dir ++ ", os.path.basename(" ++ name ++ "))")
  | .javaScript => some ("path.join(" ++ dir ++ ", path.basename(" ++ name ++ "))")
  | .php =>
    let dir := if dir == utf8 "BASE_DIR" then utf8 "BASE_DIR . '/'" else dir
    some (dir ++ " . basename(" ++ name ++ ")")
  | .java => some ("new File(" ++ dir ++ ", new File(" ++ name ++ ").getName()).getPath()")
  | _ => none

def pathTraversal : Rule where
  id := "path-traversal"
  category := .brokenAccessControl
  name := "Path Traversal"
  severity := .high
  languages := []
  matcher := onLinesExcept
    (.read r"(?i)\b(open|fopen|file_get_contents|readfile|readFile|readFileSync|createReadStream|sendFile|include|include_once|require_once|new\s+File|FileInputStream|FileReader|Paths\.get)\s*\(\s*[^)]*(\+\s*[\w$]|\.\s*\$|\$_(GET|POST|REQUEST|COOKIE)|\breq\.(query|params|body)|\brequest\.(args|GET|POST|form|values|getParameter))")
    (.read r#"__dirname\s*\+\s*["'][^"']*["']\s*[,)]|basename\s*\(|path\.normalize|realpath\s*\("#)
  description := "A filesystem path is built from user-controlled input, allowing '../' sequences to reach files outside the intended directory."
  recommendation := recommend "Reduce the user-supplied value to a base name, resolve it under a fixed base directory and reject the request if the resolved path escapes that directory."
  fix := some (.firstOf [
    .withNote "the user-supplied path is reduced to its base name and resolved under a fixed directory."
      (.wrapFirstArg fileOpenCall confinePath),
    .annotate "resolve this path under a fixed base directory and reject '..' segments."])

def insecureDirectObjectReference : Rule where
  id := "insecure-direct-object-reference"
  category := .brokenAccessControl
  name := "Insecure Direct Object Reference"
  severity := .medium
  languages := serverSide
  matcher := onLines
    (.read r"(?i)\b(find_?by_?id|findById|findOne|findByPk|get_object_or_404|getById|objects\.get|find)\s*\(\s*[^)]*\b(req\.(params|query|body)|request\.(args|GET|POST|form|view_args|getParameter)|\$_(GET|POST|REQUEST))")
  description := "A record is fetched directly by a request-supplied identifier without an ownership or permission check."
  recommendation := recommend "Scope the lookup to the authenticated user (for example by adding the owner ID to the query) or check permissions on the loaded record before returning it."
  fix := some (.annotate "verify that the current user owns or may access the requested record before using it.")

def openRedirect : Rule where
  id := "open-redirect"
  category := .brokenAccessControl
  name := "Open Redirect"
  severity := .medium
  languages := serverSide
  matcher := onLinesExcept
    (.read r#"(?i)\b(res\.redirect|redirect|HttpResponseRedirect|sendRedirect)\s*\(\s*[^)]*\b(req\.(query|body|params)|request\.(args|GET|POST|form|values|getParameter))|header\(\s*["']Location:\s*["']?\s*\.\s*\$_(GET|POST|REQUEST)"#)
    (.read r"(?i)is_safe_url|url_has_allowed_host|ALLOWED_REDIRECTS")
  description := "The redirect target comes from the request, so the site can be used to bounce victims to phishing pages."
  recommendation := recommend "Redirect only to relative paths or to targets from a server-side allow-list."
  fix := some (.annotate "redirect only to relative paths or to targets listed in ALLOWED_REDIRECTS.")

def accessControl : List Rule := [pathTraversal, insecureDirectObjectReference, openRedirect]

end CodeAudit.Builtin
