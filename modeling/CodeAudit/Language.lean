import CodeAudit.Text.Blank
import CodeAudit.Text.Case

/-!
# Languages

The languages of analyzed code, their labels, and their comments. A label that names no known
language is kept as `Language.other`.
-/
namespace CodeAudit

/-- A language of source text, or an unknown label. -/
inductive Language where
  | javaScript
  | python
  | php
  | java
  | c
  | html
  | css
  | general
  | other (label : Text)
  deriving DecidableEq, Repr, Inhabited

namespace Language

def label : Language → Text
  | javaScript => "JavaScript"
  | python => "Python"
  | php => "PHP"
  | java => "Java"
  | c => "C/C++"
  | html => "HTML"
  | css => "CSS"
  | general => "General"
  | other l => l

/-- All known languages, in the order in which ties between them resolve. -/
def all : List Language := [php, python, java, javaScript, c, html, css, general]

def ofLabel (l : Text) : Language := (all.find? (·.label == l)).getD (other l)

/-- The spellings that name a language, in lower case. -/
def spellings : List (String × Language) :=
  [("javascript", javaScript), ("js", javaScript), ("node", javaScript),
    ("typescript", javaScript), ("ts", javaScript), ("python", python), ("py", python),
    ("php", php), ("java", java), ("c/c++", c), ("c", c), ("c++", c), ("cpp", c),
    ("html", html), ("htm", html), ("css", css), ("general", general), ("", general)]

/-- The language a spelling names, up to letter case and surrounding white space. The empty
spelling names the general language. -/
def parse? (t : Text) : Option Language :=
  let t := t.trim.lower
  (spellings.find? (fun s => utf8 s.1 == t)).map (·.2)

def commentOpener : Language → Text
  | python | general => "#"
  | html => "<!--"
  | css => "/*"
  | _ => "//"

def comment (l : Language) (t : Text) : Text :=
  match l with
  | html => "<!-- " ++ t ++ " -->"
  | css => "/* " ++ t ++ " */"
  | _ => l.commentOpener ++ " " ++ t

/-- Whether a line, given without surrounding white space, is a comment or part of one. -/
def isCommentLine (l : Language) (t : Text) : Bool :=
  let opens (s : String) := Text.startsWith t s
  let block := opens "//" || opens "/*" || opens "* " || t == utf8 "*"
  match l with
  | python => opens "#"
  | html => opens "<!--"
  | css => opens "/*" || opens "*"
  | php => block || (opens "#" && !opens "#[")
  | general => opens "//" || opens "#" || opens "/*" || opens "<!--"
  | _ => block

end Language
end CodeAudit
