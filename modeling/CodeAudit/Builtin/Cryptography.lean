import CodeAudit.Builtin.Basic
import CodeAudit.Fix.Secret

/-!
# Cryptographic failures
-/
namespace CodeAudit.Builtin

/-- A secret assigned as a literal: name, operator and opening quote are groups. -/
def secretAssignment : Pattern :=
  .read r#"(?i)\b(\w*(?:secret|api_?key|apikey|access_?key|auth_?token|private_?key|client_?secret|token))\b(["']?\s*[:=]\s*)(["'])[^"'\s]{8,}["']"#

def cloudAccessKeyId : Pattern := .read r"\b(AKIA|ASIA)[0-9A-Z]{16}\b"

def privateKeyHeader : Pattern :=
  .read r"-----BEGIN ((RSA|EC|DSA|OPENSSH|ENCRYPTED) )?PRIVATE KEY-----"

def insecureUrl : Pattern := .read r#"(["'])http://([^"'\s]*)"#

def localUrl : Pattern :=
  .read r"^(localhost|127\.0\.0\.1|0\.0\.0\.0|\[::1\]|www\.w3\.org|schemas\.|example\.(com|org|net))"

/-- Replaces an assigned literal by a lookup in the environment. -/
def secretToEnv (p : Pattern) : Fix := .replaceWith p fun group l =>
  group 1 ++ group 2 ++ envLookup l (envName (group 1))

def hardcodedSecret : Rule where
  id := "hardcoded-secret"
  category := .cryptographicFailures
  name := "Hardcoded Secret or API Key"
  severity := .high
  languages := []
  matcher := onLinesExcept secretAssignment placeholderValue
  description := "A secret, token or API key is embedded as a string literal in source code."
  recommendation := recommend "Load the secret from the environment or a secret manager, and rotate the exposed value."
  fix := some (.withNote "load this secret from external configuration (environment or secret manager); never commit it."
    (secretToEnv secretAssignment))

def cloudAccessKey : Rule where
  id := "cloud-access-key"
  category := .cryptographicFailures
  name := "Cloud Access Key"
  severity := .critical
  languages := []
  matcher := { onLines cloudAccessKeyId with comments := true }
  description := "An AWS access key ID is present in the source."
  recommendation := recommend "Revoke the key immediately and load credentials from the runtime environment or an instance role."
  fix := some (.withNote "cloud credentials must come from the runtime environment; the embedded key was removed."
    (.replace cloudAccessKeyId (.read "REPLACE_WITH_ENV_CREDENTIAL")))

def embeddedPrivateKey : Rule where
  id := "embedded-private-key"
  category := .cryptographicFailures
  name := "Embedded Private Key"
  severity := .critical
  languages := []
  matcher := { onLines privateKeyHeader with comments := true }
  description := "A PEM private key block is embedded in the source."
  recommendation := recommend "Remove the key, rotate it and load key material from a file or secret store outside the repository."
  fix := some (.withNote "load the private key from a secret store; the embedded key header was removed."
    (.replace privateKeyHeader (.read "<private key removed>")))

def weakHash : Rule where
  id := "weak-hash"
  category := .cryptographicFailures
  name := "Weak Hash Algorithm"
  severity := .medium
  languages := []
  matcher := onLines
    (.read r#"(?i)(\bhashlib\.(md5|sha1)\s*\(|\bmd5\s*\(|\bsha1\s*\(|MessageDigest\.getInstance\(\s*"(MD5|SHA-?1)"|createHash\(\s*['"](md5|sha1)['"]|DigestUtils\.(md5|sha1)(Hex)?\s*\()"#)
  description := "MD5 and SHA-1 are broken for collision resistance and far too fast for password storage."
  recommendation := recommend "Use SHA-256 or stronger for integrity checks and a slow password hash (bcrypt, scrypt or Argon2) for credentials."
  fix := some (.withNote "SHA-256 replaces the broken digest; use bcrypt/Argon2 if this hashes passwords."
    (.byLanguage [(.php, .replace (.read r"(?i)\b(md5|sha1)\s*\(") (.read "hash('sha256', "))]
      (.chain [
        .replace (.read r"\bhashlib\.(md5|sha1)\s*\(") (.read "hashlib.sha256("),
        .replace (.read r#"createHash\(\s*(['"])(md5|sha1)['"]"#) (.read r"createHash(${1}sha256${1}"),
        .replace (.read r#"MessageDigest\.getInstance\(\s*"(MD5|SHA-?1)""#)
          (.read r#"MessageDigest.getInstance("SHA-256""#),
        .replace (.read r"DigestUtils\.(md5|sha1)(Hex)?\s*\(") (.read r"DigestUtils.sha256${2}(")])))

def weakCipher : Rule where
  id := "weak-cipher"
  category := .cryptographicFailures
  name := "Weak Cipher or Mode"
  severity := .high
  languages := []
  matcher := onLines
    (.read r#"\b(DES|DESede|TripleDES|RC4|Blowfish)\b|(?i:AES/ECB|\bMODE_ECB\b|\baes-\d+-ecb\b|\bcreateCipher\(|Cipher\.getInstance\(\s*"AES"\s*\))"#)
  description := "A deprecated cipher (DES, 3DES, RC4, Blowfish) or the ECB mode is used; ECB leaks plaintext structure."
  recommendation := recommend "Use AES in an authenticated mode such as GCM with a unique IV per message."
  fix := some (.withNote "AES-GCM with a fresh random IV per message replaces the weak cipher or mode."
    (.chain [
      .replace (.read r"\b(DES|DESede|TripleDES|RC4|Blowfish)\b") (.read "AES"),
      .replace (.read r"(?i)AES/ECB/\w+") (.read "AES/GCM/NoPadding"),
      .replace (.read r#"Cipher\.getInstance\(\s*"AES"\s*\)"#)
        (.read r#"Cipher.getInstance("AES/GCM/NoPadding")"#),
      .replace (.read r"\bMODE_ECB\b") (.read "MODE_GCM"),
      .replace (.read r"(?i)\baes-(\d+)-ecb\b") (.read r"aes-${1}-gcm"),
      .replace (.read r"\bcreateCipher\(") (.read "createCipheriv(")]))

def insecureRandomness : Rule where
  id := "insecure-randomness"
  category := .cryptographicFailures
  name := "Insecure Randomness for Security Values"
  severity := .medium
  languages := []
  matcher := onLines
    (.read r#"(?i)(token|secret|password|passwd|salt|nonce|session|otp|api_?key|csrf|reset_?code)\w*["']?\s*[:=].*(Math\.random\(\)|\brandom\.(random|randint|choice|choices|getrandbits)\(|\b(mt_)?rand\s*\(|new\s+Random\s*\(|\brandom\(\))"#)
  description := "A security-sensitive value is generated with a predictable, non-cryptographic random number generator."
  recommendation := recommend "Generate tokens, salts and nonces with a CSPRNG: crypto.randomBytes, the secrets module, random_int or SecureRandom."
  fix := some (.withNote "a cryptographically secure generator replaces the predictable one."
    (.byLanguage [
        (.javaScript, .replace (.read r"Math\.random\(\)")
          (.read r#"crypto.randomBytes(32).toString("hex")"#)),
        (.python, .chain [
          .replace (.read r"\brandom\.choice\(") (.read "secrets.choice("),
          .replace (.read r"\brandom\.(random|randint|choices|getrandbits)\(")
            (.read r"secrets.SystemRandom().${1}(")]),
        (.php, .chain [
          .replace (.read r"\b(mt_)?rand\(\s*\)") (.read "random_int(0, PHP_INT_MAX)"),
          .replace (.read r"\b(mt_)?rand\(") (.read "random_int(")]),
        (.java, .replace (.read r"\bnew\s+Random\s*\(") (.read "new SecureRandom("))]
      (.annotate "use a cryptographically secure random source (getrandom(2), /dev/urandom or the platform CSPRNG).")))

def cleartextTransport : Rule where
  id := "cleartext-transport"
  category := .cryptographicFailures
  name := "Cleartext HTTP URL"
  severity := .low
  languages := [.javaScript, .python, .php, .java, .c, .html, .general]
  matcher := onLinesExcept (.read r#"["']http://[^"'\s]+["']"#)
    (.read r#"["']http://(localhost|127\.0\.0\.1|0\.0\.0\.0|\[::1\]|www\.w3\.org|schemas\.|example\.(com|org|net))"#)
  description := "A resource is addressed over plain HTTP, exposing data in transit to interception and tampering."
  recommendation := recommend "Use HTTPS for every external endpoint."
  fix := some (.withNote "HTTPS replaces the cleartext URL."
    (.replaceWith insecureUrl fun group _ =>
      if localUrl.matchesIn (group 2) then group 0 else group 1 ++ "https://" ++ group 2))

def cryptography : List Rule :=
  [hardcodedSecret, cloudAccessKey, embeddedPrivateKey, weakHash, weakCipher, insecureRandomness,
    cleartextTransport]

end CodeAudit.Builtin
