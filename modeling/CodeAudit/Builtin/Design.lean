import CodeAudit.Builtin.Basic

/-!
# Insecure design
-/
namespace CodeAudit.Builtin

def unvalidatedInput : Rule where
  id := "unvalidated-input"
  category := .insecureDesign
  name := "Missing Input Validation"
  severity := .low
  languages := serverSide
  matcher := onLinesExcept
    (.read r"\breq\.(body|query|params)\.\w+|\brequest\.(args|form|values|GET|POST)(\.get\(|\[)|\$_(GET|POST|REQUEST|COOKIE)\[|\brequest\.getParameter\(")
    (.read r"(?i)(validat|sanitiz|escape|htmlspecialchars|filter_input|filter_var|\bint\(|parseInt|Number\(|isset\(|Integer\.parseInt)")
  description := "Request data is used directly without validating its type, length or format."
  recommendation := recommend "Validate every request value against an allow-list (type, length, format) at the trust boundary before using it."
  fix := some (.annotate "validate type, length and format of this request value against an allow-list before use.")

def massAssignment : Rule where
  id := "mass-assignment"
  category := .insecureDesign
  name := "Mass Assignment"
  severity := .medium
  languages := serverSide
  matcher := onLines
    (.read r"\.(create|update|insert|build|findOneAndUpdate|updateOne|save)\s*\(\s*req\.body\s*\)|\(\s*\*\*request\.(json|form|get_json\(\))\s*\)|->(fill|update|create)\s*\(\s*\$request->all\(\)\s*\)|::create\(\s*\$_POST\s*\)")
  description := "An entire request body is bound to a model, letting clients set fields such as roles or ownership."
  recommendation := recommend "Bind only an explicit allow-list of fields from the request."
  fix := some (.withNote "only the fields in ALLOWED_FIELDS are bound from the request." (.chain [
    .replace (.read r"\(\s*req\.body\s*\)") (.read "(pick(req.body, ALLOWED_FIELDS))"),
    .replace (.read r"\(\s*\*\*request\.(json|form)\s*\)")
      (.read r"(**{k: request.${1}[k] for k in ALLOWED_FIELDS if k in request.${1}})"),
    .replace (.read r"\(\s*\*\*request\.get_json\(\)\s*\)")
      (.read r"(**{k: v for k, v in request.get_json().items() if k in ALLOWED_FIELDS})"),
    .replace (.read r"\$request->all\(\)") (.read "$$request->only(ALLOWED_FIELDS)"),
    .replace (.read r"::create\(\s*\$_POST\s*\)")
      (.read "::create(array_intersect_key($$_POST, array_flip(ALLOWED_FIELDS)))")]))

def design : List Rule := [unvalidatedInput, massAssignment]

end CodeAudit.Builtin
