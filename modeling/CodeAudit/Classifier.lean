import CodeAudit.Language
import CodeAudit.Markup.Token
import CodeAudit.Pattern.Reader

/-!
# Telling the language of a text

Each language has markers, patterns that are typical of it. A marker adds its weight for every
occurrence up to its limit, so that one repeated word cannot decide alone. Markup is scored by its
tags.

* `Classifier.score`, `Classifier.scores`: the score of a language, and of all of them.
* `Classifier.classify`: the language with the best score.
-/
namespace CodeAudit

/-- A pattern that is typical of a language. -/
structure Marker where
  pattern : Pattern
  weight : Nat
  limit : Nat

def Marker.score (m : Marker) (t : Text) : Nat := (m.pattern.findAllUpTo m.limit t).length * m.weight

namespace Classifier

/-- The score below which a text is labelled general, where nothing else is set. -/
def defaultMinScore : Int := 2

def phpMarkers : List Marker := [
  ⟨.read r"<\?php", 10, 1⟩,
  ⟨.read r"(?m)^\s*\$[A-Za-z_]\w*\s*=", 2, 10⟩,
  ⟨.read r"\$_(GET|POST|REQUEST|COOKIE|SERVER|SESSION)\b", 3, 5⟩,
  ⟨.read r"\$[A-Za-z_]\w*->", 2, 5⟩,
  ⟨.read r"(?m)^\s*echo\s", 2, 5⟩,
  ⟨.read r"\b(mysqli?_\w+|htmlspecialchars|isset|array_\w+)\s*\(", 2, 5⟩,
  ⟨.read r"(?m)^\s*(public\s+)?function\s+\w+\s*\(\s*\$", 3, 5⟩]

def pythonMarkers : List Marker := [
  ⟨.read r"(?m)^\s*def\s+\w+\s*\(.*\)\s*(->\s*[\w\[\], .]+)?:\s*$", 4, 5⟩,
  ⟨.read r"(?m)^\s*(import\s+\w+|from\s+[\w.]+\s+import\s)", 3, 5⟩,
  ⟨.read r"(?m)^\s*(if|elif|while|for|with|try|except|else)\b[^{;]*:\s*$", 2, 10⟩,
  ⟨.read r"(?m)^\s*(class\s+\w+(\(.*\))?:|elif\b|except\b)", 3, 5⟩,
  ⟨.read r"\bself\.\w+", 1, 5⟩,
  ⟨.read r"\b(None|True|False)\b", 1, 5⟩,
  ⟨.read r#"__name__\s*==\s*["']__main__["']"#, 5, 1⟩,
  ⟨.read r"(?m)^\s*print\(", 1, 5⟩,
  ⟨.read r#"\bf["'][^"']*\{"#, 2, 3⟩]

def javaMarkers : List Marker := [
  ⟨.read r"\b(public|private|protected)\s+(static\s+)?(final\s+)?(class|interface|enum)\s+\w+", 5, 3⟩,
  ⟨.read r"System\.(out|err)\.print(ln)?\(", 4, 3⟩,
  ⟨.read r"(?m)^\s*import\s+java(x)?\.[\w.]+;", 5, 5⟩,
  ⟨.read r"(?m)^\s*package\s+[\w.]+;", 3, 1⟩,
  ⟨.read r"public\s+static\s+void\s+main\s*\(\s*String", 6, 1⟩,
  ⟨.read r"(?m)^\s*@(Override|Autowired|RestController|GetMapping|PostMapping)\b", 3, 5⟩,
  ⟨.read r"\b(String|int|boolean|long|void)\s+\w+\s*\([^)]*\)\s*(throws\s+\w+\s*)?\{", 2, 5⟩,
  ⟨.read r"\bnew\s+[A-Z]\w*(<[\w<>, ]*>)?\s*\(", 1, 5⟩]

def javaScriptMarkers : List Marker := [
  ⟨.read r"(?m)^\s*(const|let|var)\s+[\w{}\[\], ]+\s*=", 2, 10⟩,
  ⟨.read r"\bfunction\s*\w*\s*\(", 2, 5⟩,
  ⟨.read r"=>", 1, 5⟩,
  ⟨.read r"\bconsole\.(log|error|warn|info)\(", 3, 3⟩,
  ⟨.read r"\b(document|window)\.\w+", 2, 5⟩,
  ⟨.read r#"\brequire\(\s*['"][\w@/.-]+['"]\s*\)"#, 3, 5⟩,
  ⟨.read r#"(?m)^\s*(import\s+.+\s+from\s+['"]|export\s+(default\s+)?(function|const|class))"#, 3, 5⟩,
  ⟨.read r"===|!==", 1, 5⟩,
  ⟨.read r"\b(req|res)\.(body|query|params|send|json|status)\b", 2, 5⟩]

def cMarkers : List Marker := [
  ⟨.read r#"(?m)^\s*#\s*include\s*[<"]"#, 5, 5⟩,
  ⟨.read r"(?m)^\s*#\s*(define|ifdef|ifndef|endif|pragma)\b", 2, 5⟩,
  ⟨.read r"\bint\s+main\s*\(", 5, 1⟩,
  ⟨.read r"\b(printf|fprintf|scanf|malloc|calloc|free|strcpy|strcat|sprintf|gets)\s*\(", 2, 5⟩,
  ⟨.read r"\bstd::\w+", 3, 5⟩,
  ⟨.read r"\b(char|int|void|unsigned|size_t)\s*\*\s*\w+", 2, 5⟩,
  ⟨.read r"\b(cout|cin|cerr)\s*(<<|>>)", 3, 3⟩]

def cssMarkers : List Marker := [
  ⟨.read r"(?m)^\s*[.#]?[A-Za-z][\w-]*(\s*[,>+~]?\s*[.#:]?[\w-]+)*\s*\{\s*$", 2, 10⟩,
  ⟨.read r"(?m)^\s*[a-z-]+\s*:\s*[^;{}]+;\s*$", 1, 15⟩,
  ⟨.read r"@(media|import|font-face|keyframes)\b", 3, 3⟩,
  ⟨.read r"\b(color|margin|padding|font-size|display|background)\s*:", 1, 10⟩]

def markers : Language → List Marker
  | .php => phpMarkers
  | .python => pythonMarkers
  | .java => javaMarkers
  | .javaScript => javaScriptMarkers
  | .c => cMarkers
  | .css => cssMarkers
  | _ => []

def statementEnd : Marker := ⟨.read r"(?m)[;{}]\s*$", 1, 5⟩

/-- Whether statements of the language end in such lines. -/
def hasBraces : Language → Bool
  | .javaScript | .java | .c | .php => true
  | _ => false

/-- The document type declaration of a page. -/
def doctype : Marker := ⟨.read r"(?i)<!doctype\s+html", 10, 1⟩

/-- How many tags of a page count. -/
def tagLimit : Nat := 15

def tagWeight : Nat := 2

/-- The elements that tell a page from other text with angle brackets. -/
def pageElements : List Text :=
  ["html", "head", "body", "title", "meta", "link", "script", "style", "div", "span", "p", "a",
    "img", "form", "input", "button", "table", "tr", "td", "th", "ul", "ol", "li", "h1", "h2", "h3",
    "h4", "nav", "header", "footer", "section", "main", "iframe", "label", "select", "option",
    "textarea", "br", "hr"].map utf8

/-- Whether a token opens one of the elements of a page. -/
def isPageTag : Markup.Token → Bool
  | .start tag => pageElements.contains tag.name
  | _ => false

def pageScore (t : Text) : Nat :=
  if !Text.contains t "<" then 0
  else doctype.score t + min tagLimit ((Markup.tokens t).countP isPageTag) * tagWeight

def score (t : Text) (l : Language) : Nat :=
  if Text.isBlankText t then 0
  else
    match l with
    | .html => pageScore t
    | l =>
      (markers l).foldr (·.score t + ·) 0 + if hasBraces l then statementEnd.score t else 0

def scores (t : Text) : List (Language × Nat) := Language.all.map fun l => (l, score t l)

/-- The first pair with the greatest score, when that is above the one given. -/
def best : Language × Nat → List (Language × Nat) → Language × Nat
  | b, [] => b
  | b, s :: rest => best (if b.2 < s.2 then s else b) rest

/-- The language with the greatest of some scores, the earliest of equals; general when the score is
below the least one asked for. -/
def choose (minScore : Int) (scores : List (Language × Nat)) : Language :=
  let b := best (.general, 0) scores
  if (b.2 : Int) < minScore then .general else b.1

/-- The language of a text: the one with the greatest score. -/
def classify (minScore : Int) (t : Text) : Language := choose minScore (scores t)

/-- The least score that a setting stands for: the default where it is below 1. -/
def minScoreOf (n : Int) : Int := if 0 < n then n else defaultMinScore

end Classifier
end CodeAudit
