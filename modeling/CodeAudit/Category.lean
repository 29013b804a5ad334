import CodeAudit.Severity

/-!
# Categories

The ten categories of the OWASP Top 10 of 2021, numbered from 1. A category is any number; only
the ten have an entry.
-/
namespace CodeAudit

/-- The number of a category. -/
structure Category where
  number : Int
  deriving DecidableEq, Repr, Inhabited

/-- The reference entry of a category. -/
structure CategoryEntry where
  name : Text
  severity : Severity
  description : Text
  prevention : List Text
  deriving DecidableEq, Repr

namespace Category

def brokenAccessControl : Category := ⟨1⟩
def cryptographicFailures : Category := ⟨2⟩
def injection : Category := ⟨3⟩
def insecureDesign : Category := ⟨4⟩
def securityMisconfiguration : Category := ⟨5⟩
def vulnerableComponents : Category := ⟨6⟩
def authenticationFailures : Category := ⟨7⟩
def integrityFailures : Category := ⟨8⟩
def loggingFailures : Category := ⟨9⟩
def serverSideRequestForgery : Category := ⟨10⟩

def entries : List CategoryEntry :=
  [
    { name := "Broken Access Control"
      severity := .critical
      description :=
        "Users can act outside of their intended permissions: reading other users' records, traversing the filesystem or reaching privileged functions."
      prevention := ["Deny by default except for public resources",
        "Enforce record ownership on every object lookup",
        "Resolve file paths against a fixed base directory"] },
    { name := "Cryptographic Failures"
      severity := .high
      description :=
        "Sensitive data is exposed through missing, weak or misused cryptography, including secrets embedded in source."
      prevention := ["Keep secrets out of source and load them from configuration",
        "Use SHA-256 or better for integrity and a slow KDF for passwords",
        "Require TLS for all data in transit"] },
    { name := "Injection"
      severity := .critical
      description :=
        "Untrusted data is sent to an interpreter as part of a command or query: SQL, OS commands, script evaluation or HTML."
      prevention := ["Use parameterized queries",
        "Pass command arguments as a list, never through a shell",
        "Encode output for the context it is rendered in"] },
    { name := "Insecure Design"
      severity := .high
      description :=
        "Missing or ineffective control design, such as trusting request data without validation."
      prevention := ["Validate input against an allow-list at every trust boundary",
        "Bind only the fields a request is allowed to set"] },
    { name := "Security Misconfiguration"
      severity := .high
      description :=
        "Insecure defaults, debug modes, permissive CORS, disabled certificate checks or missing security headers."
      prevention := ["Disable debug features in production",
        "Restrict CORS to known origins",
        "Send a Content-Security-Policy and other security headers"] },
    { name := "Vulnerable and Outdated Components"
      severity := .medium
      description :=
        "Use of unsupported libraries or inherently unsafe APIs with known vulnerabilities."
      prevention := ["Track dependency versions and upgrade regularly",
        "Replace deprecated and unbounded APIs with their safe counterparts"] },
    { name := "Identification and Authentication Failures"
      severity := .high
      description :=
        "Weak credential handling: hardcoded passwords, plaintext comparison, insecure session cookies or unsigned tokens."
      prevention := ["Never hardcode credentials",
        "Compare secrets in constant time against stored hashes",
        "Mark session cookies Secure and HttpOnly"] },
    { name := "Software and Data Integrity Failures"
      severity := .high
      description :=
        "Code or data is trusted without integrity verification: unsafe deserialization, unpinned third-party scripts."
      prevention := ["Deserialize untrusted data only with data-only formats",
        "Pin third-party scripts with Subresource Integrity"] },
    { name := "Security Logging and Monitoring Failures"
      severity := .medium
      description :=
        "Errors are swallowed, leaked to clients or logged together with sensitive data."
      prevention := ["Log failures server-side with enough context to investigate",
        "Return generic error messages to clients",
        "Keep secrets and personal data out of logs"] },
    { name := "Server-Side Request Forgery (SSRF)"
      severity := .high
      description :=
        "The server fetches a URL supplied by the user without validating its destination."
      prevention := ["Validate destination hosts against an allow-list",
        "Block requests to private and link-local address ranges"] }]

def isValid (c : Category) : Bool := 1 ≤ c.number && c.number ≤ 10

def all : List Category := (List.range 10).map fun (i : Nat) => ⟨(i : Int) + 1⟩

/-- The entry of a category, if it is one of the ten. -/
def entry? (c : Category) : Option CategoryEntry :=
  if c.isValid then entries[c.number.toNat - 1]? else none

/-- The name of a category, empty if it is none of the ten. -/
def name (c : Category) : Text := (c.entry?.map (·.name)).getD []

/-- The short identifier of a category, empty if it is none of the ten. -/
def code (c : Category) : Text :=
  if c.isValid then
    "A" ++ (if c.number < 10 then utf8 "0" else []) ++ Text.ofInt c.number ++ ":2021"
  else []

def display (c : Category) : Text :=
  if c.isValid then c.code ++ " " ++ c.name else "Category(" ++ Text.ofInt c.number ++ ")"

end Category
end CodeAudit
