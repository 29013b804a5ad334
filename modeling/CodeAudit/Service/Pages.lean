import CodeAudit.Service.Description
import CodeAudit.Service.Message

/-!
# Pages about the service

Below one path stand pages that show the description of the service. The name behind the last slash
of a target says which; without a name the answer points to the first page.

* `Pages.cut?`: the name of the page that a target asks for.
* `Pages.answer`: the answer to a target.
-/
namespace CodeAudit.Pages

/-- Whether a name can stand behind a slash: it does not begin with a question mark, unless it is
nothing but signs. -/
def isName (t : Text) : Bool :=
  t.head? != some 63 || t.all fun b => b == 63 || b == 124 || b == 46

/-- The target cut behind the last slash that a name follows; `front` is what was passed over, last
byte first. -/
def cutFrom : Text → Text → Option (Text × Text)
  | _, [] => none
  | front, b :: t =>
    match cutFrom (b :: front) t with
    | some cut => some cut
    | none => if b == 47 && isName t then some ((b :: front).reverse, t) else none

/-- The part of a target up to its name, and the name. -/
def cut? (target : Text) : Option (Text × Text) :=
  (cutFrom [] target).map fun (front, name) => (front, if name.head? == some 63 then [] else name)

/-- The parts of a path without empty ones and points; two points take the part before them away. -/
def plainParts : List Text → List Text → List Text
  | acc, [] => acc.reverse
  | acc, p :: ps =>
    if p.isEmpty || p == utf8 "." then plainParts acc ps
    else if p == utf8 ".." then plainParts (acc.drop 1) ps
    else plainParts (p :: acc) ps

/-- A path in its plain form. A slash at its end stays. -/
def plainPath (t : Text) : Text :=
  let parts := plainParts [] (Text.splitOn 47 t)
  let path := utf8 "/" ++ Text.join "/" parts
  if Text.endsWith t "/" && !parts.isEmpty then path ++ utf8 "/" else path

/-- The page that a target without a name points to. -/
def firstPage (front : Text) : Text :=
  let url := front ++ "/index.html"
  plainPath (url.takeWhile (· != 63)) ++ url.dropWhile (· != 63)

def escaped (t : Text) : Text := t.flatMap fun b =>
  if b == 38 then utf8 "&amp;"
  else if b == 60 then utf8 "&lt;"
  else if b == 62 then utf8 "&gt;"
  else if b == 34 then utf8 "&#34;"
  else if b == 39 then utf8 "&#39;"
  else [b]

def answer (target : Text) : Response :=
  match cut? target with
  | some (front, []) =>
    ⟨301, [("Content-Type", "text/html; charset=utf-8")],
      "<a href=\"" ++ escaped (firstPage front) ++ "\">Moved Permanently</a>.\n\n", []⟩
  | some (_, name) =>
    if name == utf8 "doc.json" then
      ⟨200, [("Content-Type", "application/json; charset=utf-8")], Description.toJson.indented, []⟩
    else .plain 404 "404 page not found\n"
  | none => .plain 404 "404 page not found\n"

end CodeAudit.Pages
