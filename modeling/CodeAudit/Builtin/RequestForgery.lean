import CodeAudit.Builtin.Basic
import CodeAudit.Fix.Call

/-!
# Server-side request forgery
-/
namespace CodeAudit.Builtin

def fetchCall : String :=
  r"\b(requests\.(?:get|post|put|delete|head|patch|request)|urllib\.request\.urlopen|urlopen|httpx\.(?:get|post|stream)|fetch|axios(?:\.(?:get|post|put|delete|request))?|https?\.(?:get|request)|got|file_get_contents|curl_init|new\s+URL|restTemplate\.(?:getForObject|getForEntity|exchange)|URI\.create)\s*\("

/-- An expression that carries request input. -/
def requestSource : String :=
  r"(\breq\.(query|body|params)|\brequest\.(args|GET|POST|form|values|json|getParameter)|\$_(GET|POST|REQUEST)|\b(user|target|remote|callback|webhook)_?[uU]rl\b)"

/-- A statement that refuses a URL whose host is not on the list of allowed hosts. -/
def hostGuard (arg : Text) (l : Language) : Option Text :=
  match l with
  | .python =>
    some ("if urlparse(" ++ arg ++ ").hostname not in ALLOWED_HOSTS: raise ValueError(\"host not allowed\")")
  | .javaScript =>
    some ("if (!ALLOWED_HOSTS.includes(new URL(" ++ arg ++ ").hostname)) throw new Error(\"host not allowed\");")
  | .php =>
    some ("if (!in_array(parse_url(" ++ arg
      ++ utf8 r", PHP_URL_HOST), ALLOWED_HOSTS, true)) { throw new InvalidArgumentException('host not allowed'); }")
  | .java =>
    some ("if (!ALLOWED_HOSTS.contains(URI.create(" ++ arg
      ++ ").getHost())) throw new IllegalArgumentException(\"host not allowed\");")
  | _ => none

def ssrfUserControlledUrl : Rule where
  id := "ssrf-user-controlled-url"
  category := .serverSideRequestForgery
  name := "Request to User-Controlled URL"
  severity := .high
  languages := serverSide
  matcher := onLinesExcept (.read (fetchCall ++ r"[^)]*" ++ requestSource))
    (.read r"(?i)ALLOWED_HOSTS|allow_?list|whitelist")
  description := "The server fetches a URL taken from the request, letting an attacker reach internal services or cloud metadata endpoints."
  recommendation := recommend "Parse the URL, allow only known schemes and hosts, and resolve the host to reject private and link-local addresses before connecting."
  fix := some (.firstOf [
    .withNote "only hosts in ALLOWED_HOSTS may be fetched; also reject private and link-local addresses."
      (.guardCall (.read fetchCall) hostGuard),
    .annotate "validate the URL's scheme and host against an allow-list before fetching it."])

/-- The rules on server-side request forgery. -/
def requestForgery : List Rule := [ssrfUserControlledUrl]

end CodeAudit.Builtin
