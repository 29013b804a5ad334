import CodeAudit.Builtin.Basic
import CodeAudit.Markup.Page
import CodeAudit.Text.Case

/-!
# Security misconfiguration
-/
namespace CodeAudit.Builtin

def debugSwitch : Pattern :=
  .read r#"(?i)\bdebug\s*[:=]\s*(true|1|on)\b|display_errors["']?\s*[,:=]\s*["']?(1|on|true)\b"#

def tlsSwitch : Pattern :=
  .read r#"\bverify\s*=\s*False\b|rejectUnauthorized["']?\s*:\s*false\b|NODE_TLS_REJECT_UNAUTHORIZED["']?\s*\]?\s*=\s*["']?0\b|CURLOPT_SSL_VERIFY(PEER|HOST)\s*,\s*(false|0)\b|check_hostname\s*=\s*False\b|InsecureSkipVerify:\s*true\b"#

/-- Narrows a cross-origin policy to named origins. -/
def nameOrigins : Fix := .chain [
  .replace (.read r#"(Access-Control-Allow-Origin["']?\s*[,:]\s*["']?)\*"#)
    (.read r"${1}https://app.example.com"),
  .replace (.read r"\bcors\(\s*\)") (.read r"cors({ origin: ALLOWED_ORIGINS })"),
  .replace (.read r#"\borigin(["']?\s*:\s*)["']\*["']"#) (.read r"origin${1}ALLOWED_ORIGINS"),
  .replace (.read r"\bCORS\(\s*app\s*\)") (.read "CORS(app, origins=ALLOWED_ORIGINS)"),
  .replace (.read r#"\ballowedOrigins\(\s*"\*"\s*\)"#) (.read "allowedOrigins(ALLOWED_ORIGINS)"),
  .replace (.read r#"@CrossOrigin\s*\(\s*(origins\s*=\s*)?"\*"\s*\)"#)
    (.read r#"@CrossOrigin(origins = "https://app.example.com")"#)]

def headTag : Pattern := .read r"(?i)<head(\s[^>]*)?>"

def expressApp : Pattern := .read r"\b(\w+)\s*=\s*express\(\s*\)"

def helmetWord : Pattern := .read r"\bhelmet\b"

/-- The element that declares a content security policy. -/
def policyElement : Text :=
  r#"<meta http-equiv="Content-Security-Policy" content="default-src 'self'">"#

/-- Whether an element declares a content security policy. -/
def declaresPolicy (tag : Markup.Tag) : Bool :=
  (tag.attr? "http-equiv").any fun v => Text.equalFold v.trim "Content-Security-Policy"

/-- The first line that opens the head of a page without a content security policy, where `metas`
finds the `meta` elements of a page. -/
def missingPolicyBy (metas : Text → List Markup.Tag) (d : Document) (_ : Language) : List Int :=
  match d.lines.findIdx? headTag.matchesIn with
  | none => []
  | some i => if (metas d.text).any declaresPolicy then [] else [(i : Int)]

/-- The first line that opens the head of a page without a content security policy. -/
def missingPolicy : Document → Language → List Int := missingPolicyBy Markup.metas

/-- Puts the policy element after the first head tag: on its line when the line goes on. -/
def insertPolicy : Fix := fun fragment _ => some (go fragment)
where
  /-- The lines with the element inserted. -/
  go : List Text → List Text
    | [] => []
    | line :: rest =>
      match if isNote line then none else headTag.find? line with
      | none => line :: go rest
      | some m =>
        let after := line.drop m.stop
        if (Text.trim after).isEmpty then line :: (line.indent ++ "  " ++ policyElement) :: rest
        else (line.take m.stop ++ policyElement ++ after) :: rest

/-- The first line that creates an application in a document that never names the middleware. -/
def unprotectedApp (d : Document) (l : Language) : List Int :=
  if helmetWord.matchesIn d.text then []
  else
    match d.lines.findIdx? (fun line => !l.isCommentLine line.trim && expressApp.matchesIn line) with
    | none => []
    | some i => [(i : Int)]

def debugModeEnabled : Rule where
  id := "debug-mode-enabled"
  category := .securityMisconfiguration
  name := "Debug Mode Enabled"
  severity := .medium
  languages := []
  matcher := onLines debugSwitch
  description := "Debug mode or error display is switched on, which exposes stack traces, configuration and sometimes an interactive console."
  recommendation := recommend "Disable debug output in production and drive the setting from environment-specific configuration."
  fix := some (.withNote "debug output is disabled; enable it only through development configuration."
    (flipLast debugSwitch))

def tlsVerificationDisabled : Rule where
  id := "tls-verification-disabled"
  category := .securityMisconfiguration
  name := "TLS Certificate Verification Disabled"
  severity := .high
  languages := []
  matcher := onLines
    (.read r#"\bverify\s*=\s*False\b|rejectUnauthorized["']?\s*:\s*false\b|NODE_TLS_REJECT_UNAUTHORIZED["']?\s*\]?\s*=\s*["']?0|CURLOPT_SSL_VERIFY(PEER|HOST)\s*,\s*(false|0)\b|check_hostname\s*=\s*False\b|\bssl\._create_unverified_context\b|\bCERT_NONE\b|InsecureSkipVerify:\s*true\b|NoopHostnameVerifier|ALLOW_ALL_HOSTNAME_VERIFIER"#)
  description := "Certificate or hostname verification is turned off, so any man-in-the-middle can impersonate the remote server."
  recommendation := recommend "Keep verification enabled and trust a private CA explicitly if the server uses one."
  fix := some (.firstOf [
    .withNote "certificate and hostname verification stay enabled." (.chain [
      flipLast tlsSwitch,
      .replace (.read r"\bssl\._create_unverified_context\(") (.read "ssl.create_default_context("),
      .replace (.read r"\bCERT_NONE\b") (.read "CERT_REQUIRED")]),
    .annotate "replace the permissive hostname verifier with the default verifier."])

def corsWildcardOrigin : Rule where
  id := "cors-wildcard-origin"
  category := .securityMisconfiguration
  name := "Permissive CORS Policy"
  severity := .medium
  languages := []
  matcher := onLines
    (.read r#"Access-Control-Allow-Origin["']?\s*[,:]\s*["']?\*|\bcors\(\s*\)|\borigin["']?\s*:\s*["']\*["']|\bCORS\(\s*app\s*\)|\ballowedOrigins\(\s*"\*"\s*\)|@CrossOrigin\s*(\(\s*(origins\s*=\s*)?"\*"\s*\))?\s*$"#)
  description := "Any origin may read responses from this service."
  recommendation := recommend "Allow only the specific origins that need access."
  fix := some (.firstOf [
    .withNote "only origins listed in ALLOWED_ORIGINS may read responses." nameOrigins,
    .annotate "restrict cross-origin access to an explicit list of origins."])

def corsCredentialsWildcard : Rule where
  id := "cors-credentials-wildcard"
  category := .securityMisconfiguration
  name := "CORS Wildcard with Credentials"
  severity := .high
  languages := []
  matcher := onWindows 4
    (.read r#"(?is)(origin["']?\s*[:,=]\s*["']?\*.*credentials["']?\s*[:,=]\s*["']?true|credentials["']?\s*[:,=]\s*["']?true.*origin["']?\s*[:,=]\s*["']?\*)"#)
  description := "A wildcard origin is combined with credentialed requests, letting any site act with the user's cookies."
  recommendation := recommend "Never combine credentials with a wildcard; echo back only origins from an allow-list."
  fix := some (.firstOf [
    .withNote "credentialed CORS is limited to origins in ALLOWED_ORIGINS." nameOrigins,
    .annotate "do not combine a wildcard origin with credentials."])

def missingContentSecurityPolicy : Rule where
  id := "missing-content-security-policy"
  category := .securityMisconfiguration
  name := "Missing Content-Security-Policy"
  severity := .low
  languages := [.html]
  matcher := onDocuments missingPolicy
  description := "The page declares no Content-Security-Policy, so injected script runs without restriction."
  recommendation := recommend "Send a Content-Security-Policy header, or add a meta tag, that limits script sources to trusted origins."
  fix := some (.withNote "a restrictive Content-Security-Policy is declared; widen it only for trusted sources."
    insertPolicy)

def missingSecurityHeaders : Rule where
  id := "missing-security-headers"
  category := .securityMisconfiguration
  name := "Express App Without Security Headers"
  severity := .low
  languages := [.javaScript]
  matcher := onDocuments unprotectedApp
  description := "An Express application is created without helmet or equivalent middleware, so default security headers are missing."
  recommendation := recommend "Register helmet (or set HSTS, X-Content-Type-Options, X-Frame-Options and CSP headers yourself) before any routes."
  fix := some (.withNote "helmet sets the standard security headers for every response."
    (.insertAfter fun line _ => (expressApp.find? line).map fun m =>
      m.groupText line 1 ++ ".use(require(\"helmet\")());"))

def misconfiguration : List Rule :=
  [debugModeEnabled, tlsVerificationDisabled, corsWildcardOrigin, corsCredentialsWildcard,
    missingContentSecurityPolicy, missingSecurityHeaders]

end CodeAudit.Builtin
