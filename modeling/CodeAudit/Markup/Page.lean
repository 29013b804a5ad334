import CodeAudit.Markup.Token

/-!
# Pages

Follows the construction of an HTML document far enough to know which `meta` elements it ends up
with: the open elements, where the next piece of markup goes, and what a frame set throws away.
Scripting counts as enabled, so the content of `noscript` is text.

* `metas`: the `meta` elements of the page, in the order in which they are read.
-/
namespace CodeAudit.Markup

/-- The vocabulary an element belongs to. -/
inductive Space where
  | html
  | math
  | svg
  deriving DecidableEq, Repr

/-- An open element. `hosts` marks foreign elements whose content is HTML. -/
structure Node where
  name : String
  space : Space := .html
  hosts : Bool := false
  deriving DecidableEq, Repr

/-- Where the next piece of markup goes. -/
inductive Mode where
  | initial | beforeHtml | beforeHead | inHead | afterHead | inBody | rawText
  | inTable | inCaption | inColumnGroup | inTableBody | inRow | inCell
  | inSelect | inSelectInTable | inTemplate | afterBody
  | inFrameset | afterFrameset | afterAfterBody | afterAfterFrameset | ignoring
  deriving DecidableEq, Repr

/-- A page under construction. -/
structure Page where
  mode : Mode := .initial
  /-- The mode to go back to after raw text. -/
  resume : Mode := .initial
  /-- The open elements, innermost first. -/
  stack : List Node := []
  /-- The modes of the open templates, innermost first. -/
  templates : List Mode := []
  framesetOk : Bool := true
  headSeen : Bool := false
  formSeen : Bool := false
  /-- Whether the next text must not be read raw. -/
  notRaw : Bool := false
  /-- The `meta` elements, latest first, with whether each stands in the body. -/
  found : List (Bool × Tag) := []

/-- The name of a tag as a string, byte by byte. -/
def tagName (t : Text) : String := String.ofList (t.map fun b => Char.ofNat b.toNat)

/-- Whether a text is white space only. -/
def isSpaceText (t : Text) : Bool := t.all isSpace

/-- How far a search for an open element goes. -/
inductive Scope where
  | general
  | listItem
  | button
  | table
  | select
  deriving DecidableEq, Repr

/-- Whether a search of the scope stops at an element. -/
def Scope.stopsAt (s : Scope) (n : Node) : Bool :=
  let own := n.space == .html && match s with
    | .general => false
    | .listItem => ["ol", "ul"].contains n.name
    | .button => n.name == "button"
    | .table => ["html", "table", "template"].contains n.name
    | .select => !(["optgroup", "option"].contains n.name)
  let shared := (s == .general || s == .listItem || s == .button) && match n.space with
    | .html =>
      ["applet", "caption", "html", "table", "td", "th", "marquee", "object", "template"].contains
        n.name
    | .math => ["annotation-xml", "mi", "mn", "mo", "ms", "mtext"].contains n.name
    | .svg => ["desc", "foreignobject", "title"].contains n.name
  own || shared

/-- The open elements outside the innermost one of the given names that is in scope. -/
def outside? (s : Scope) (names : List String) : List Node → Option (List Node)
  | [] => none
  | n :: rest =>
    if n.space == .html && names.contains n.name then some rest
    else if s.stopsAt n then none
    else outside? s names rest

/-- Elements that an unmatched end tag does not look past. -/
def isSpecial (n : Node) : Bool :=
  match n.space with
  | .html =>
    ["address", "applet", "area", "article", "aside", "base", "basefont", "bgsound", "blockquote",
      "body", "br", "button", "caption", "center", "col", "colgroup", "dd", "details", "dir",
      "div", "dl", "dt", "embed", "fieldset", "figcaption", "figure", "footer", "form", "frame",
      "frameset", "h1", "h2", "h3", "h4", "h5", "h6", "head", "header", "hgroup", "hr", "html",
      "iframe", "img", "input", "keygen", "li", "link", "listing", "main", "marquee", "menu",
      "meta", "nav", "noembed", "noframes", "noscript", "object", "ol", "p", "param",
      "plaintext", "pre", "script", "section", "select", "source", "style", "summary", "table",
      "tbody", "td", "template", "textarea", "tfoot", "th", "thead", "title", "tr", "track",
      "ul", "wbr", "xmp"].contains n.name
  | .math => ["mi", "mo", "mn", "ms", "mtext", "annotation-xml"].contains n.name
  | .svg => ["foreignobject", "desc", "title"].contains n.name

/-- A foreign element whose text is formula text. -/
def isFormulaText (n : Node) : Bool :=
  n.space == .math && ["mi", "mo", "mn", "ms", "mtext"].contains n.name

namespace Page

def openElement (p : Page) (n : Node) : Page := { p with stack := n :: p.stack }

def openHtml (p : Page) (name : String) : Page := p.openElement { name := name }

def close (p : Page) : Page := { p with stack := p.stack.drop 1 }

def topName (p : Page) : String := (p.stack.head?.map (·.name)).getD ""

/-- Closes elements up to and including one of the given names, if one is in scope. -/
def closeUntil (p : Page) (s : Scope) (names : List String) : Page :=
  match outside? s names p.stack with
  | some rest => { p with stack := rest }
  | none => p

def inScope (p : Page) (s : Scope) (names : List String) : Bool :=
  (outside? s names p.stack).isSome

/-- Closes elements down to one of the given names. -/
def clearTo (p : Page) (names : List String) : Page :=
  { p with stack := p.stack.dropWhile fun n => !names.contains n.name }

def hasTemplate (p : Page) : Bool := p.stack.any fun n => n.space == .html && n.name == "template"

def go (p : Page) (m : Mode) : Page := { p with mode := m }

def noFrames (p : Page) : Page := { p with framesetOk := false }

/-- Opens an element whose text is raw. -/
def openRaw (p : Page) (name : String) : Page :=
  { p.openHtml name with resume := p.mode, mode := .rawText }

/-- Whether the body is open as the second outermost element. -/
def bodyOpen (p : Page) : Bool := (p.stack.reverse[1]?).any (·.name == "body")

def addMeta (p : Page) (tag : Tag) : Page := { p with found := (p.bodyOpen, tag) :: p.found }

/-- The mode that the open elements call for. -/
def resetMode (p : Page) : Page :=
  { p with mode := choose p.stack }
where
  /-- The mode for a stack of open elements. -/
  choose : List Node → Mode
    | [] => .inBody
    | n :: rest =>
      match n.name with
      | "select" =>
        match rest.find? fun a => a.name == "template" || a.name == "table" with
        | some a => if a.name == "table" then .inSelectInTable else .inSelect
        | none => .inSelect
      | "td" | "th" => .inCell
      | "tr" => .inRow
      | "tbody" | "thead" | "tfoot" => .inTableBody
      | "caption" => .inCaption
      | "colgroup" => .inColumnGroup
      | "table" => .inTable
      | "template" => if n.space == .html then p.templates.headD .inBody else choose rest
      | "head" => .inHead
      | "body" => .inBody
      | "frameset" => .inFrameset
      | "html" => if p.headSeen then .afterHead else .beforeHead
      | _ => choose rest

def closeTemplate (p : Page) : Page :=
  if p.hasTemplate then
    let rest := p.stack.dropWhile fun n => !(n.space == .html && n.name == "template")
    resetMode { p with stack := rest.drop 1, templates := p.templates.drop 1 }
  else p

/-- Replaces the mode of the innermost template. -/
def retemplate (p : Page) (m : Mode) : Page :=
  { p with templates := m :: p.templates.drop 1, mode := m }

/-- A token where it is used up (`true`) or has to be looked at again (`false`). -/
abbrev Outcome := Page × Bool

/-- The token is used up. -/
def used (p : Page) : Outcome := (p, true)

/-- The token is looked at again. -/
def again (p : Page) : Outcome := (p, false)

/-- Start tags that always belong in the head. -/
def isHeadTag (name : String) : Bool :=
  ["base", "basefont", "bgsound", "link", "meta", "noframes", "script", "style", "template",
    "title"].contains name

def startInHead (p : Page) (name : String) (tag : Tag) : Page :=
  match name with
  | "meta" => p.addMeta tag
  | "noscript" | "noframes" | "style" | "script" | "title" => p.openRaw name
  | "template" =>
    if p.stack.any (·.space != .html) then p.go .ignoring
    else
      { p.openHtml "template" with
        framesetOk := false
        mode := .inTemplate
        templates := .inTemplate :: p.templates }
  | _ => p

/-- Closes an element of a list, or of a definition list, before the next one. -/
def closeItem (names : List String) : List Node → Option (List Node)
  | [] => none
  | n :: rest =>
    if names.contains n.name then some rest
    else if ["address", "div", "p"].contains n.name || !isSpecial n then closeItem names rest
    else none

/-- Closes an element by its end tag: everything inside a formatting element that is not special
is closed with it. -/
def closeFormatting (name : String) (stack : List Node) : List Node :=
  match outside? .general [name] stack with
  | none => stack
  | some rest =>
    let inner := stack.take (stack.length - rest.length - 1)
    inner.filter isSpecial ++ rest

/-- Closes the innermost element of the name unless a special element is further in. -/
def closeOther (name : String) : List Node → Option (List Node)
  | [] => none
  | n :: rest =>
    if n.name == name then some rest
    else if isSpecial n then none
    else closeOther name rest

def startInBody (p : Page) (name : String) (tag : Tag) : Outcome :=
  let closeP (p : Page) := p.closeUntil .button ["p"]
  match name with
  | "html" => p.used
  | "body" => (if p.hasTemplate then p else if p.bodyOpen then p.noFrames else p).used
  | "frameset" =>
    if p.framesetOk && p.bodyOpen then
      used { p with
        stack := [{ name := "frameset" }, { name := "html" }]
        found := p.found.filter (!·.1)
        mode := .inFrameset }
    else p.used
  | "address" | "article" | "aside" | "blockquote" | "center" | "details" | "dialog" | "dir"
  | "div" | "dl" | "fieldset" | "figcaption" | "figure" | "footer" | "header" | "hgroup" | "main"
  | "menu" | "nav" | "ol" | "p" | "section" | "summary" | "ul" | "plaintext" =>
    ((closeP p).openHtml name).used
  | "h1" | "h2" | "h3" | "h4" | "h5" | "h6" =>
    let p := closeP p
    let p := if ["h1", "h2", "h3", "h4", "h5", "h6"].contains p.topName then p.close else p
    (p.openHtml name).used
  | "pre" | "listing" => ((closeP p).openHtml name).noFrames.used
  | "form" =>
    if p.formSeen && !p.hasTemplate then p.used
    else used { (closeP p).openHtml name with formSeen := p.formSeen || !p.hasTemplate }
  | "li" =>
    let p := p.noFrames
    let p := match closeItem ["li"] p.stack with
      | some rest => { p with stack := rest }
      | none => p
    ((closeP p).openHtml name).used
  | "dd" | "dt" =>
    let p := p.noFrames
    let p := match closeItem ["dd", "dt"] p.stack with
      | some rest => { p with stack := rest }
      | none => p
    ((closeP p).openHtml name).used
  | "button" => ((p.closeUntil .general ["button"]).openHtml name).noFrames.used
  | "a" => used { p with stack := ⟨"a", .html, false⟩ :: closeFormatting "a" p.stack }
  | "applet" | "marquee" | "object" => (p.openHtml name).noFrames.used
  | "table" => (((closeP p).openHtml name).noFrames.go .inTable).used
  | "area" | "br" | "embed" | "img" | "image" | "keygen" | "wbr" => p.noFrames.used
  | "input" =>
    if (tag.attr? "type").any fun t => lowerAscii t == utf8 "hidden" then p.used
    else p.noFrames.used
  | "param" | "source" | "track" => p.used
  | "hr" => (closeP p).noFrames.used
  | "textarea" => (p.openRaw name).noFrames.used
  | "xmp" => ((closeP p).openRaw name).noFrames.used
  | "iframe" => (p.openRaw name).noFrames.used
  | "noembed" | "noscript" => (p.openRaw name).used
  | "select" => ((p.openHtml name).noFrames.go .inSelect).used
  | "optgroup" | "option" =>
    let p := if p.topName == "option" then p.close else p
    (p.openHtml name).used
  | "math" | "svg" =>
    let space := if name == "math" then Space.math else Space.svg
    (if tag.selfClosing then p else p.openElement ⟨name, space, false⟩).used
  | "caption" | "col" | "colgroup" | "frame" | "head" | "tbody" | "td" | "tfoot" | "th" | "thead"
  | "tr" => p.used
  | _ => if isHeadTag name then (p.startInHead name tag).used else (p.openHtml name).used

def stopInBody (p : Page) (name : String) : Outcome :=
  match name with
  | "body" => (if p.inScope .general ["body"] then p.go .afterBody else p).used
  | "html" => if p.inScope .general ["body"] then (p.go .afterBody).again else p.used
  | "address" | "article" | "aside" | "blockquote" | "button" | "center" | "details" | "dialog"
  | "dir" | "div" | "dl" | "fieldset" | "figcaption" | "figure" | "footer" | "header" | "hgroup"
  | "listing" | "main" | "menu" | "nav" | "ol" | "pre" | "section" | "summary" | "ul"
  | "dd" | "dt" | "applet" | "marquee" | "object" =>
    (p.closeUntil .general [name]).used
  | "form" => used { p.closeUntil .general ["form"] with formSeen := false }
  | "p" => (p.closeUntil .button ["p"]).used
  | "li" => (p.closeUntil .listItem ["li"]).used
  | "h1" | "h2" | "h3" | "h4" | "h5" | "h6" =>
    (p.closeUntil .general ["h1", "h2", "h3", "h4", "h5", "h6"]).used
  | "a" | "b" | "big" | "code" | "em" | "font" | "i" | "nobr" | "s" | "small" | "strike"
  | "strong" | "tt" | "u" => used { p with stack := closeFormatting name p.stack }
  | "br" => p.noFrames.used
  | "template" => p.closeTemplate.used
  | _ =>
    match closeOther name p.stack with
    | some rest => used { p with stack := rest }
    | none => p.used

def inBody (p : Page) : Token → Outcome
  | .text t => (if isSpaceText (t.filter (· != 0)) then p else p.noFrames).used
  | .start tag => p.startInBody (tagName tag.name) tag
  | .stop name => p.stopInBody (tagName name)
  | .comment | .doctype => p.used

def inHead (p : Page) : Token → Outcome
  | .text t => if isSpaceText t then p.used else (p.close.go .afterHead).again
  | .start tag =>
    let name := tagName tag.name
    if name == "html" || name == "head" then p.used
    else if isHeadTag name || name == "noscript" then (p.startInHead name tag).used
    else (p.close.go .afterHead).again
  | .stop name =>
    match tagName name with
    | "head" => (p.close.go .afterHead).used
    | "body" | "html" | "br" => (p.close.go .afterHead).again
    | "template" => p.closeTemplate.used
    | _ => p.used
  | .comment | .doctype => p.used

def afterHead (p : Page) : Token → Outcome
  | .text t => if isSpaceText t then p.used else openBody
  | .start tag =>
    match tagName tag.name with
    | "html" | "head" => p.used
    | "body" => ((p.openHtml "body").noFrames.go .inBody).used
    | "frameset" => ((p.openHtml "frameset").go .inFrameset).used
    | name => if isHeadTag name then (p.startInHead name tag).used else openBody
  | .stop name =>
    match tagName name with
    | "body" | "html" | "br" => openBody
    | "template" => p.closeTemplate.used
    | _ => p.used
  | .comment | .doctype => p.used
where
  /-- Opens the body for what does not belong in front of it. -/
  openBody : Outcome := again { p.openHtml "body" with framesetOk := true, mode := .inBody }

/-- A token in a table but outside its cells. -/
def inTable (p : Page) (token : Token) : Outcome :=
  match token with
  | .start tag =>
    match tagName tag.name with
    | "caption" => (((p.clearTo table).openHtml "caption").go .inCaption).used
    | "colgroup" => (((p.clearTo table).openHtml "colgroup").go .inColumnGroup).used
    | "col" => (((p.clearTo table).openHtml "colgroup").go .inColumnGroup).again
    | "tbody" | "tfoot" | "thead" =>
      (((p.clearTo table).openHtml (tagName tag.name)).go .inTableBody).used
    | "td" | "th" | "tr" => (((p.clearTo table).openHtml "tbody").go .inTableBody).again
    | "table" =>
      match outside? .table ["table"] p.stack with
      | some rest => (resetMode { p with stack := rest }).again
      | none => p.used
    | "style" | "script" | "template" => (p.startInHead (tagName tag.name) tag).used
    | "input" =>
      if (tag.attr? "type").any fun t => lowerAscii t == utf8 "hidden" then p.used
      else p.inBody token
    | "form" => used { p with formSeen := p.formSeen || !p.hasTemplate }
    | "select" => ((p.openHtml "select").noFrames.go .inSelectInTable).used
    | _ => p.inBody token
  | .stop name =>
    match tagName name with
    | "table" =>
      match outside? .table ["table"] p.stack with
      | some rest => (resetMode { p with stack := rest }).used
      | none => p.used
    | "body" | "caption" | "col" | "colgroup" | "html" | "tbody" | "td" | "tfoot" | "th" | "thead"
    | "tr" => p.used
    | "template" => p.closeTemplate.used
    | _ => p.inBody token
  | .text t =>
    if isSpaceText t && ["table", "tbody", "tfoot", "thead", "tr"].contains p.topName then p.used
    else p.inBody token
  | .comment | .doctype => p.used
where
  /-- Where a table's own content ends. -/
  table : List String := ["html", "table", "template"]

/-- Closes elements up to one of the names in the table's scope and goes to a mode, or uses the
token up when there is none. -/
def leave (p : Page) (names : List String) (m : Mode) (outcome : Page → Outcome) : Outcome :=
  match outside? .table names p.stack with
  | some rest => outcome { p with stack := rest, mode := m }
  | none => p.used

def inCaption (p : Page) (token : Token) : Outcome :=
  match token with
  | .start tag =>
    match tagName tag.name with
    | "caption" | "col" | "colgroup" | "tbody" | "td" | "tfoot" | "thead" | "tr" =>
      p.leave ["caption"] .inTable again
    | "select" => ((p.openHtml "select").noFrames.go .inSelectInTable).used
    | _ => p.inBody token
  | .stop name =>
    match tagName name with
    | "caption" => p.leave ["caption"] .inTable used
    | "table" => p.leave ["caption"] .inTable again
    | "body" | "col" | "colgroup" | "html" | "tbody" | "td" | "tfoot" | "th" | "thead" | "tr" =>
      p.used
    | _ => p.inBody token
  | _ => p.inBody token

def inColumnGroup (p : Page) (token : Token) : Outcome :=
  match token with
  | .text t => if isSpaceText t then p.used else other
  | .comment | .doctype => p.used
  | .start tag =>
    match tagName tag.name with
    | "html" | "col" => p.used
    | "template" => (p.startInHead "template" tag).used
    | _ => other
  | .stop name =>
    match tagName name with
    | "colgroup" => if p.topName == "colgroup" then (p.close.go .inTable).used else p.used
    | "col" => p.used
    | "template" => p.closeTemplate.used
    | _ => other
where
  /-- Leaves the columns for what does not belong among them. -/
  other : Outcome := if p.topName == "colgroup" then (p.close.go .inTable).again else p.used

def sections : List String := ["tbody", "thead", "tfoot"]

def inTableBody (p : Page) (token : Token) : Outcome :=
  let context := ["html", "tbody", "tfoot", "thead", "template"]
  match token with
  | .start tag =>
    match tagName tag.name with
    | "tr" => (((p.clearTo context).openHtml "tr").go .inRow).used
    | "td" | "th" => (((p.clearTo context).openHtml "tr").go .inRow).again
    | "caption" | "col" | "colgroup" | "tbody" | "tfoot" | "thead" =>
      p.leave sections .inTable again
    | _ => p.inTable token
  | .stop name =>
    match tagName name with
    | "tbody" | "tfoot" | "thead" =>
      if p.inScope .table [tagName name] then ((p.clearTo context).close.go .inTable).used
      else p.used
    | "table" => p.leave sections .inTable again
    | "body" | "caption" | "col" | "colgroup" | "html" | "td" | "th" | "tr" => p.used
    | _ => p.inTable token
  | _ => p.inTable token

def inRow (p : Page) (token : Token) : Outcome :=
  match token with
  | .start tag =>
    match tagName tag.name with
    | "td" | "th" =>
      (((p.clearTo ["html", "tr", "template"]).openHtml (tagName tag.name)).go .inCell).used
    | "caption" | "col" | "colgroup" | "tbody" | "tfoot" | "thead" | "tr" =>
      p.leave ["tr"] .inTableBody again
    | _ => p.inTable token
  | .stop name =>
    match tagName name with
    | "tr" => p.leave ["tr"] .inTableBody used
    | "table" => p.leave ["tr"] .inTableBody again
    | "tbody" | "tfoot" | "thead" =>
      if p.inScope .table [tagName name] then p.leave ["tr"] .inTableBody again else p.used
    | "body" | "caption" | "col" | "colgroup" | "html" | "td" | "th" => p.used
    | _ => p.inTable token
  | _ => p.inTable token

def inCell (p : Page) (token : Token) : Outcome :=
  match token with
  | .start tag =>
    match tagName tag.name with
    | "caption" | "col" | "colgroup" | "tbody" | "td" | "tfoot" | "th" | "thead" | "tr" =>
      p.leave ["td", "th"] .inRow again
    | "select" => ((p.openHtml "select").noFrames.go .inSelectInTable).used
    | _ => p.inBody token
  | .stop name =>
    match tagName name with
    | "td" | "th" => p.leave [tagName name] .inRow used
    | "body" | "caption" | "col" | "colgroup" | "html" => p.used
    | "table" | "tbody" | "tfoot" | "thead" | "tr" =>
      if p.inScope .table [tagName name] then
        ((p.closeUntil .table ["td", "th"]).go .inRow).again
      else p.used
    | _ => p.inBody token
  | _ => p.inBody token

def closeSelect (p : Page) : Option Page :=
  (outside? .select ["select"] p.stack).map fun rest => resetMode { p with stack := rest }

/-- A token in a selection, where most elements are dropped. -/
def inSelect (p : Page) : Token → Outcome
  | .start tag =>
    match tagName tag.name with
    | "option" => ((if p.topName == "option" then p.close else p).openHtml "option").used
    | "optgroup" =>
      let p := if p.topName == "option" then p.close else p
      let p := if p.topName == "optgroup" then p.close else p
      (p.openHtml "optgroup").used
    | "select" => (p.closeSelect.getD p).used
    | "input" | "keygen" | "textarea" =>
      match p.closeSelect with
      | some p => p.again
      | none => used { p with notRaw := true }
    | "script" | "template" => (p.startInHead (tagName tag.name) tag).used
    | "iframe" | "noembed" | "noframes" | "noscript" | "style" | "title" =>
      used { p with notRaw := true }
    | _ => p.used
  | .stop name =>
    match tagName name with
    | "option" => (if p.topName == "option" then p.close else p).used
    | "optgroup" =>
      let q := if p.topName == "option" then p.close else p
      (if q.topName == "optgroup" then q.close else p).used
    | "select" => (p.closeSelect.getD p).used
    | "template" => p.closeTemplate.used
    | _ => p.used
  | _ => p.used

def inSelectInTable (p : Page) (token : Token) : Outcome :=
  let tableTag (name : String) :=
    ["caption", "table", "tbody", "tfoot", "thead", "tr", "td", "th"].contains name
  let leaveSelect : Outcome :=
    let rest := p.stack.dropWhile fun n => n.name != "select"
    (resetMode (if rest.isEmpty then p else { p with stack := rest.drop 1 })).again
  match token with
  | .start tag => if tableTag (tagName tag.name) then leaveSelect else p.inSelect token
  | .stop name =>
    if tableTag (tagName name) then
      if p.inScope .table [tagName name] then leaveSelect else p.used
    else p.inSelect token
  | _ => p.inSelect token

def inTemplate (p : Page) (token : Token) : Outcome :=
  match token with
  | .start tag =>
    match tagName tag.name with
    | "caption" | "colgroup" | "tbody" | "tfoot" | "thead" => (p.retemplate .inTable).again
    | "col" => (p.retemplate .inColumnGroup).again
    | "tr" => (p.retemplate .inTableBody).again
    | "td" | "th" => (p.retemplate .inRow).again
    | name =>
      if isHeadTag name then (p.startInHead name tag).used else (p.retemplate .inBody).again
  | .stop name => (if tagName name == "template" then p.closeTemplate else p).used
  | _ => p.inBody token

/-- A token in or after a frame set, where almost everything is dropped. -/
def inFrames (p : Page) (after : Bool) : Token → Outcome
  | .start tag =>
    match tagName tag.name with
    | "frameset" => (if after then p else p.openHtml "frameset").used
    | "noframes" => (p.startInHead "noframes" tag).used
    | _ => p.used
  | .stop name =>
    match tagName name with
    | "frameset" =>
      if after || p.topName == "html" then p.used
      else
        let p := p.close
        (if p.topName == "frameset" then p else p.go .afterFrameset).used
    | "html" => (if after then p.go .afterAfterFrameset else p).used
    | _ => p.used
  | _ => p.used

def step (p : Page) (token : Token) : Outcome :=
  match p.mode with
  | .initial =>
    match token with
    | .text t => if isSpaceText t then p.used else (p.go .beforeHtml).again
    | .comment => p.used
    | .doctype => (p.go .beforeHtml).used
    | _ => (p.go .beforeHtml).again
  | .beforeHtml =>
    let openHtmlTag := (p.openHtml "html").go .beforeHead
    match token with
    | .text t => if isSpaceText t then p.used else openHtmlTag.again
    | .start tag => if tagName tag.name == "html" then openHtmlTag.used else openHtmlTag.again
    | .stop name =>
      if ["head", "body", "html", "br"].contains (tagName name) then openHtmlTag.again else p.used
    | .comment | .doctype => p.used
  | .beforeHead =>
    let openHead := { (p.openHtml "head").go .inHead with headSeen := true }
    match token with
    | .text t => if isSpaceText t then p.used else openHead.again
    | .start tag =>
      match tagName tag.name with
      | "head" => openHead.used
      | "html" => p.used
      | _ => openHead.again
    | .stop name =>
      if ["head", "body", "html", "br"].contains (tagName name) then openHead.again else p.used
    | .comment | .doctype => p.used
  | .inHead => p.inHead token
  | .afterHead => p.afterHead token
  | .inBody => p.inBody token
  | .rawText =>
    match token with
    | .text _ => p.used
    | .stop _ => (p.close.go p.resume).used
    | _ => (p.close.go p.resume).again
  | .inTable => p.inTable token
  | .inCaption => p.inCaption token
  | .inColumnGroup => p.inColumnGroup token
  | .inTableBody => p.inTableBody token
  | .inRow => p.inRow token
  | .inCell => p.inCell token
  | .inSelect => p.inSelect token
  | .inSelectInTable => p.inSelectInTable token
  | .inTemplate => p.inTemplate token
  | .afterBody =>
    match token with
    | .text t => if isSpaceText t then p.used else (p.go .inBody).again
    | .start tag => if tagName tag.name == "html" then p.used else (p.go .inBody).again
    | .stop name => if tagName name == "html" then (p.go .afterAfterBody).used
      else (p.go .inBody).again
    | .comment | .doctype => p.used
  | .inFrameset => p.inFrames false token
  | .afterFrameset => p.inFrames true token
  | .afterAfterBody =>
    match token with
    | .text t => if isSpaceText t then p.used else (p.go .inBody).again
    | .comment | .doctype => p.used
    | .start tag => if tagName tag.name == "html" then p.used else (p.go .inBody).again
    | .stop _ => (p.go .inBody).again
  | .afterAfterFrameset =>
    match token with
    | .start tag =>
      (if tagName tag.name == "noframes" then p.startInHead "noframes" tag else p).used
    | _ => p.used
  | .ignoring => p.used

/-- Start tags that end foreign content. -/
def breaksOut (tag : Tag) : Bool :=
  let name := tagName tag.name
  ["b", "big", "blockquote", "body", "br", "center", "code", "dd", "div", "dl", "dt", "em",
    "embed", "h1", "h2", "h3", "h4", "h5", "h6", "head", "hr", "i", "img", "li", "listing",
    "menu", "meta", "nobr", "ol", "p", "pre", "ruby", "s", "small", "span", "strong", "strike",
    "sub", "sup", "table", "tt", "u", "ul", "var"].contains name
    || (name == "font" && tag.attrs.any fun a =>
      [utf8 "color", utf8 "face", utf8 "size"].contains a.1)

/-- Whether content inside the element is HTML again. -/
def isHost (n : Node) : Bool := n.space == .html || n.hosts || isFormulaText n

/-- Whether a foreign element holds HTML. -/
def hostsHtml (space : Space) (name : String) (tag : Tag) : Bool :=
  match space with
  | .svg => ["desc", "foreignobject", "title"].contains name
  | .math => name == "annotation-xml" && (tag.attr? "encoding").any fun t =>
      [utf8 "text/html", utf8 "application/xhtml+xml"].contains (lowerAscii t)
  | .html => false

/-- Whether a token belongs to the foreign content of the innermost element. -/
def isForeign (p : Page) (token : Token) : Bool :=
  match p.stack.head? with
  | none => false
  | some n =>
    if n.space == .html then false
    else match token with
      | .start tag =>
        let name := tagName tag.name
        !((isFormulaText n && name != "mglyph" && name != "malignmark")
          || (n.space == .math && n.name == "annotation-xml" && name == "svg") || n.hosts)
      | .text _ => !(isFormulaText n || n.hosts)
      | _ => true

/-- Closes a foreign element by its end tag; none when an HTML element is further in. -/
def closeForeign (name : String) : List Node → Option (List Node)
  | [] => some []
  | n :: rest =>
    if n.space == .html then none
    else if n.name == name then some rest
    else closeForeign name rest

def foreign (p : Page) (token : Token) : Outcome :=
  match token with
  | .start tag =>
    if breaksOut tag then again { p with stack := p.stack.dropWhile (!isHost ·) }
    else
      let space := (p.stack.head?.map (·.space)).getD .html
      let name := tagName tag.name
      let p := { p with notRaw := true }
      (if tag.selfClosing then p else p.openElement ⟨name, space, hostsHtml space name tag⟩).used
  | .stop name =>
    let name := tagName name
    if p.topName == name then p.close.used
    else match closeForeign name p.stack with
      | some rest => (if rest.isEmpty then p else { p with stack := rest }).used
      | none => p.step token
  | .text t => (if isSpaceText (t.filter (· != 0)) then p else p.noFrames).used
  | _ => p.used

/-- Looks at a token until it is used up. -/
def feed : Nat → Page → Token → Page
  | 0, p, _ => p
  | fuel + 1, p, token =>
    let (p, done) := if p.isForeign token then p.foreign token else p.step token
    if done then p else feed fuel p token

/-- Whether marked sections are read: where the innermost element is foreign. -/
def readsSections (p : Page) : Bool := p.stack.head?.any (·.space != .html)

/-- The page after a piece of markup. -/
def take (p : Page) (token : Token) : Page :=
  feed (3 * p.stack.length + 16) { p with notRaw := false } token

/-- The `meta` elements, in the order in which they were read. -/
def metas (p : Page) : List Tag := p.found.reverse.map (·.2)

def read : Nat → Page → Source → Page
  | 0, p, _ => p
  | fuel + 1, p, s =>
    match s.next p.readsSections with
    | none => p
    | some (token, s) =>
      let p := p.take token
      read fuel p (if p.notRaw then { s with rawTag := [] } else s)

end Page

/-- The `meta` elements of a page, in the order in which they are read. -/
def metas (t : Text) : List Tag := (Page.read (t.length + 1) {} ⟨t, []⟩).metas

end CodeAudit.Markup
