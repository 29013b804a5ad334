import CodeAudit.Builtin.Basic

/-!
# Software and data integrity failures
-/
namespace CodeAudit.Builtin

/-- Data-only loaders in place of loaders of native objects. -/
def loadDataOnly : Fix := .chain [
  .replace (.read r"\bc?[pP]ickle\.load(s?)\s*\(") (.read r"json.load${1}("),
  .replace (.read r"\bmarshal\.load(s?)\s*\(") (.read r"json.load${1}("),
  .replace (.read r"\byaml\.load\s*\(([^,()]+(?:\([^()]*\))?)\s*,\s*Loader\s*=\s*[\w.]+\s*\)")
    (.read r"yaml.safe_load(${1})"),
  .replace (.read r"\byaml\.load\s*\(") (.read "yaml.safe_load(")]

def insecureDeserialization : Rule where
  id := "insecure-deserialization"
  category := .integrityFailures
  name := "Insecure Deserialization"
  severity := .high
  languages := []
  matcher := onLinesExcept
    (.read r"\bc?[pP]ickle\.loads?\s*\(|\byaml\.load\s*\(|\bmarshal\.loads?\s*\(|\bshelve\.open\s*\(|\bunserialize\s*\(|\bObjectInputStream\s*\(|\.readObject\s*\(\s*\)|\bXMLDecoder\s*\(|\bBinaryFormatter\b")
    (.read r#"SafeLoader|CSafeLoader|\ballowed_classes["']?\s*=>\s*false"#)
  description := "Untrusted bytes are deserialized with a format that can instantiate arbitrary objects, which commonly leads to code execution."
  recommendation := recommend "Exchange data as JSON (or another data-only format) and validate it against a schema; never deserialize native objects from untrusted sources."
  fix := some (.firstOf [
    .withNote "a data-only parser replaces native object deserialization." (.byLanguage [
        (.python, loadDataOnly),
        (.javaScript, .replace (.read r"\b(?:serialize\.)?unserialize\s*\(") (.read "JSON.parse(")),
        (.php, .replace (.read r"\bunserialize\s*\(") (.read "json_decode(")),
        (.java, .unchanged)]
      (.chain [
        loadDataOnly,
        .replace (.read r"\bserialize\.unserialize\s*\(") (.read "JSON.parse("),
        .replace (.read r"\bunserialize\s*\(") (.read "json_decode(")])),
    .annotate "restrict deserialization with an ObjectInputFilter allow-list or switch to a data-only format."])

def missingSubresourceIntegrity : Rule where
  id := "missing-subresource-integrity"
  category := .integrityFailures
  name := "Third-Party Resource Without Integrity"
  severity := .medium
  languages := [.html, .php, .general]
  matcher := onLinesExcept
    (.read r#"(?i)<script\b[^>]*\bsrc\s*=\s*["']?(https?:)?//|<link\b[^>]*\bhref\s*=\s*["']?(https?:)?//[^"'\s>]*\.css"#)
    (.read r"(?i)\bintegrity\s*=")
  description := "A script or stylesheet is loaded from a third-party host without a Subresource Integrity hash, so a compromised CDN can serve malicious code."
  recommendation := recommend "Add an integrity attribute with the resource's SHA-384 hash and crossorigin=\"anonymous\", or self-host the file."
  fix := some (.withNote "replace the placeholder with the published SHA-384 hash of the exact file version."
    (.replace (.read r"(?i)<(script|link)\b")
      (.read r#"<${1} integrity="sha384-REPLACE_WITH_RESOURCE_HASH" crossorigin="anonymous""#)))

def cssInsecureImport : Rule where
  id := "css-insecure-import"
  category := .integrityFailures
  name := "Stylesheet Imported over HTTP"
  severity := .medium
  languages := [.css, .html, .general]
  matcher := onLines (.read r#"(?i)@import\s+(url\()?\s*["']?http://"#)
  description := "A stylesheet is imported over plain HTTP and can be replaced in transit."
  recommendation := recommend "Import stylesheets over HTTPS or bundle them locally."
  fix := some (.withNote "the stylesheet is imported over HTTPS."
    (.replace (.read r#"(?i)(@import\s+(?:url\()?\s*["']?)http://"#) (.read r"${1}https://")))

def downloadAndExecute : Rule where
  id := "download-and-execute"
  category := .integrityFailures
  name := "Remote Script Piped to Shell"
  severity := .high
  languages := [.general, .python, .php, .javaScript]
  matcher := onLines (.read r"\b(curl|wget)\b[^|#]*\|\s*(sudo\s+)?(ba|z)?sh\b")
  description := "A script is downloaded and executed without any integrity check."
  recommendation := recommend "Download to a file, verify its checksum or signature, and only then execute it."
  fix := some (.annotate "download the script to a file and verify its checksum or signature before running it.")

def integrity : List Rule :=
  [insecureDeserialization, missingSubresourceIntegrity, cssInsecureImport, downloadAndExecute]

end CodeAudit.Builtin
