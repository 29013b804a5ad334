import CodeAudit.Builtin.Cryptography
import CodeAudit.Fix.Call

/-!
# Identification and authentication failures
-/
namespace CodeAudit.Builtin

def passwordAssignment : Pattern :=
  .read r#"(?i)\b(\w*(?:password|passwd|pwd))\b(["']?\s*[:=]\s*)(["'])[^"']{3,}["']"#

def equalityTest : Pattern :=
  .read r#"([\w.$>-]+(?:\[[^\]]*\]|\([^()]*\))*)\s*(===|!==|==|!=)\s*([\w.$>-]+(?:\[[^\]]*\]|\([^()]*\))*|"[^"]*"|'[^']*')"#

def equalsCall : Pattern :=
  .read r"(\w[\w.]*(?:\([^()]*\))?)\.equals\(([^()]*(?:\([^()]*\))?)\)"

def passwordWord : Pattern := .read r"(?i)passw(or)?d|pwd"

def cookieSwitch : Pattern :=
  .read r#"(?i)\b(secure|httpOnly|SESSION_COOKIE_SECURE|SESSION_COOKIE_HTTPONLY|session\.cookie_secure|session\.cookie_httponly|setSecure|setHttpOnly)["']?\s*[:=,(]\s*["']?(false|0|off)\b"#

def tokenSwitch : Pattern :=
  .read r#"\bverify\s*=\s*False\b|["']verify_signature["']\s*:\s*False\b|\bignoreExpiration\s*:\s*true\b"#

/-- A comparison of passwords in constant time; other comparisons are kept. -/
def comparePasswords (group : Nat → Text) (l : Language) : Text :=
  let a := group 1
  let op := group 2
  let b := group 3
  if !passwordWord.matchesIn a && !passwordWord.matchesIn b then group 0
  else
    let negated := op == utf8 "!=" || op == utf8 "!=="
    match l with
    | .python =>
      (if negated then utf8 "not " else []) ++ "hmac.compare_digest(" ++ a ++ ", " ++ b ++ ")"
    | .javaScript =>
      (if negated then utf8 "!" else [])
        ++ "crypto.timingSafeEqual(Buffer.from(" ++ a ++ "), Buffer.from(" ++ b ++ "))"
    | .php => (if negated then utf8 "!" else []) ++ "hash_equals(" ++ a ++ ", " ++ b ++ ")"
    | _ => group 0

/-- A call that checks a token's signature. -/
def verifyToken (c : Call) (_ : Language) : Option Text :=
  match c.args with
  | [a] => some ("jwt.verify(" ++ a ++ ", process.env.JWT_SECRET)")
  | _ => none

def hardcodedPassword : Rule where
  id := "hardcoded-password"
  category := .authenticationFailures
  name := "Hardcoded Password"
  severity := .critical
  languages := []
  matcher := onLinesExcept passwordAssignment placeholderValue
  description := "A password literal is embedded in source code, where anyone with repository access can read it."
  recommendation := recommend "Read the credential from the environment or a secret manager at runtime and rotate the exposed password."
  fix := some (.withNote "read this credential from external configuration (environment or secret manager); never commit it."
    (secretToEnv passwordAssignment))

def plaintextPasswordComparison : Rule where
  id := "plaintext-password-comparison"
  category := .authenticationFailures
  name := "Plaintext Password Comparison"
  severity := .medium
  languages := serverSide
  matcher := onLines
    (.read r"(?i)\b\w*(password|passwd|pwd)\w*(\[[^\]]*\])?\s*(===|!==|==|!=)\s*\S|\S\s*(===|!==|==|!=)\s*[\w.$]*(password|passwd|pwd)\w*\b|\.equals\(\s*[\w.]*(password|passwd)|(password|passwd)\w*(\(\))?\.equals\(|strcmp\(\s*\$?\w*(password|passwd)")
  description := "Passwords are compared as plaintext with an ordinary equality operator, which implies they are stored unhashed and leaks timing information."
  recommendation := recommend "Store salted password hashes (bcrypt, scrypt or Argon2) and verify with the library's constant-time check."
  fix := some (.firstOf [
    .withNote "store salted hashes (bcrypt/Argon2) and verify with the library; a constant-time comparison is shown."
      (.byLanguage [(.java, .replace equalsCall
          (.read r"MessageDigest.isEqual(${1}.getBytes(), ${2}.getBytes())"))]
        (.replaceWith equalityTest comparePasswords)),
    .annotate "store salted hashes (bcrypt/Argon2) and verify passwords with the library's constant-time check."])

def insecureCookie : Rule where
  id := "insecure-cookie"
  category := .authenticationFailures
  name := "Session Cookie Without Secure Flags"
  severity := .medium
  languages := []
  matcher := onLines cookieSwitch
  description := "A cookie is issued without the Secure or HttpOnly flag, exposing the session to network sniffing or script access."
  recommendation := recommend "Set Secure, HttpOnly and SameSite on every session cookie."
  fix := some (.withNote "session cookies are marked Secure and HttpOnly; add SameSite as well."
    (flipLast cookieSwitch))

def jwtVerificationDisabled : Rule where
  id := "jwt-verification-disabled"
  category := .authenticationFailures
  name := "JWT Signature Not Verified"
  severity := .high
  languages := []
  matcher := onLines
    (.read r#"(?i)algorithms?["']?\s*[:=]\s*\[?\s*["']none["']|\bjwt\.decode\([^)]*verify\s*=\s*False|["']verify_signature["']\s*:\s*False|\bignoreExpiration\s*:\s*true\b|\bjwt\.decode\(\s*\w+\s*\)"#)
  description := "Tokens are accepted without verifying their signature or expiry, so a forged token authenticates."
  recommendation := recommend "Verify every token with a pinned algorithm and a server-side key, and reject expired tokens."
  fix := some (.withNote "tokens are verified with a pinned algorithm and the server-side key." (.chain [
    .replace (.read r#"(?i)(algorithms?["']?\s*[:=]\s*\[?\s*)(["'])none["']"#)
      (.read r"${1}${2}HS256${2}"),
    flipLast tokenSwitch,
    .byLanguage [(.javaScript, .replaceCall (.read r"\bjwt\.decode\s*\(") verifyToken)]
      .unchanged]))

def authentication : List Rule :=
  [hardcodedPassword, plaintextPasswordComparison, insecureCookie, jwtVerificationDisabled]

end CodeAudit.Builtin
