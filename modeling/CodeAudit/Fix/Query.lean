import CodeAudit.Code.Expression
import CodeAudit.Fix.Basic

/-!
# Queries assembled from values

A query is at fault when values are spliced into its text, by joining pieces or by interpolation.
The mended query holds a placeholder for each value, and the values are bound as parameters.

* `Query.concatenation?`: a literal with SQL followed by joined literals and operands.
* `Query.interpolation?`: a literal with SQL and fields inside it or a formatting call after it.
* `Query.bind`: the line with the query replaced, and the parameters with it or after it.
-/
namespace CodeAudit

/-- A located query: its offsets in the line, the quote of its first literal, the text with
placeholders, and the values. -/
structure Query where
  start : Nat
  stop : Nat
  quote : UInt8
  sql : Text
  args : List Text
  deriving DecidableEq, Repr

/-- One joined piece: a literal's content or an operand, with the number of bytes it takes up
together with the operator and the blanks in front of it. -/
inductive JoinStep where
  | content (len : Nat) (text : Text)
  | operand (len : Nat) (expr : Text)
  deriving DecidableEq, Repr

namespace JoinStep

def len : JoinStep → Nat
  | content n _ => n
  | operand n _ => n

/-- What a step adds to the query: a literal's content, or the placeholder of an operand. -/
def sql (placeholder : Text) : JoinStep → Text
  | content _ t => t
  | operand _ _ => placeholder

/-- The operand of a step that is not a literal. -/
def arg? : JoinStep → Option Text
  | content _ _ => none
  | operand _ e => some e

end JoinStep

namespace Query

/-- SQL inside the content of one literal. -/
def statement : Pattern :=
  .read r"(?i)\b(select\s.+\sfrom|insert\s+into|update\s+\w+\s+set|delete\s+from)\b"

def formattedField : Pattern := .read r"\{([^{}]+)\}"
def templateField : Pattern := .read r"\$\{([^{}]+)\}"
def variableField : Pattern := .read r"\{?(\$[A-Za-z_]\w*(?:->\w+|\[[^\]]*\])*)\}?"
def percentVerb : Pattern := .read r"%[sdifr]"
def emptyField : Pattern := .read r"\{[^{}]*\}"

/-- The placeholder of a value. -/
def placeholder : Language → Text
  | .python => "%s"
  | _ => "?"

/-- How many spaces and tabs a text starts with. -/
def blanks (t : Text) : Nat := (t.takeWhile Text.isSpaceOrTab).length

/-- The next joined piece of a text: blanks, an operator, blanks, then a literal or an operand.
Two operators in a row, or an operator before an equals sign, join nothing. -/
def joinStep? (dots : Bool) (t : Text) : Option JoinStep :=
  let p := blanks t
  match t.drop p with
  | [] => none
  | op :: u =>
    if !(op == 43 || (dots && op == 46)) then none
    else if u.head? == some 61 || u.head? == some op then none
    else
      let q := blanks u
      let v := u.drop q
      if v.head?.any Code.isStringQuote then
        (Code.literalAt? v).map fun l => .content (p + 1 + q + l.stop) l.content
      else (Code.operand? dots v).map fun e => .operand (p + 1 + q + e.length) e

/-- The joined pieces at the beginning of a text. -/
def joinSteps (dots : Bool) : Nat → Text → List JoinStep
  | 0, _ => []
  | fuel + 1, t =>
    match joinStep? dots t with
    | none => []
    | some s => s :: joinSteps dots fuel (t.drop s.len)

/-- The query without quotes directly around its placeholders. -/
def unquotePlaceholders (sql placeholder : Text) : Text :=
  Text.replaceAll ([34] ++ placeholder ++ [34]) placeholder
    (Text.replaceAll ([39] ++ placeholder ++ [39]) placeholder sql)

/-- Whether the byte before offset `i` is the mark of a formatted literal. -/
def isFormatted (line : Text) (i : Nat) : Bool :=
  0 < i && ((line.drop (i - 1)).head? == some 102 || (line.drop (i - 1)).head? == some 70)

/-- The query that starts with a literal and goes on with joined pieces, at least one of them an
operand. -/
def joinedAt? (line : Text) (l : Language) (lit : Code.Literal) : Option Query :=
  if lit.quote == 96 || !statement.matchesIn lit.content || isFormatted line lit.start then none
  else
    let steps := joinSteps (l == .php) line.length (line.drop lit.stop)
    let args := steps.filterMap JoinStep.arg?
    if args.isEmpty then none
    else
      let ph := placeholder l
      some {
        start := lit.start
        stop := lit.stop + steps.foldr (·.len + ·) 0
        quote := lit.quote
        sql := unquotePlaceholders (lit.content ++ steps.flatMap (JoinStep.sql ph)) ph
        args := args }

/-- The first query assembled by joining. -/
def concatenation? (line : Text) (l : Language) : Option Query :=
  (Code.literals line).findSome? (joinedAt? line l)

/-- The value of an interpolated field. Outside back quotes, what follows a conversion mark or a
colon is left out, unless the value starts with a dollar sign. -/
def fieldValue (quote : UInt8) (field : Text) : Text :=
  let e := field.trim
  match Text.indexWhere? (fun b => b == 33 || b == 58) e with
  | some (i + 1) => if quote != 96 && e.head? != some 36 then Text.trim (e.take (i + 1)) else e
  | _ => e

/-- The query with the fields a pattern finds in a literal replaced by placeholders. -/
def withFields (p : Pattern) (start : Nat) (lit : Code.Literal) (ph : Text) : Query where
  start := start
  stop := lit.stop
  quote := lit.quote
  sql := p.replaceBy (fun _ => ph) lit.content
  args := (p.findAll lit.content).map fun m => fieldValue lit.quote (m.groupText lit.content 1)

/-- The values after a formatting operator, and the bytes up to their end. -/
def percentArgs? (rest : Text) : Option (List Text × Nat) :=
  let p := blanks rest
  match rest.drop p with
  | 37 :: u =>
    let q := p + 1 + blanks u
    let v := rest.drop q
    if v.head? == some 40 then
      (Code.closingBracket? v).map fun n => (Code.arguments ((v.drop 1).take (n - 1)), q + n + 1)
    else (Code.operand? false v).map fun e => ([e], q + e.length)
  | _ => none

/-- The values of a formatting call, and the bytes up to its end. -/
def formatArgs? (rest : Text) : Option (List Text × Nat) := do
  let call ← Text.cutPrefix? ".format" rest
  if call.head? != some 40 then none
  else
    let n ← Code.closingBracket? call
    some (Code.arguments ((call.drop 1).take (n - 1)), 7 + n + 1)

/-- Whether a formatting operator follows. -/
def hasPercent (rest : Text) : Bool := (rest.drop (blanks rest)).head? == some 37

/-- The query of one literal that values are interpolated into. -/
def interpolatedAt? (line : Text) (l : Language) (lit : Code.Literal) : Option Query := do
  let ph := placeholder l
  let content := lit.content
  let rest := line.drop lit.stop
  if !statement.matchesIn content then none
  else
    let q ←
      if isFormatted line lit.start && formattedField.matchesIn content then
        some (withFields formattedField (lit.start - 1) lit ph)
      else if lit.quote == 96 && templateField.matchesIn content then
        some (withFields templateField lit.start lit ph)
      else if lit.quote == 34 && (l == .php || l == .general) && variableField.matchesIn content then
        some (withFields variableField lit.start lit ph)
      else if percentVerb.matchesIn content && hasPercent rest then
        (percentArgs? rest).map fun (args, n) =>
          { start := lit.start, stop := lit.stop + n, quote := lit.quote
            sql := percentVerb.replaceBy (fun _ => ph) content, args := args }
      else
        (formatArgs? rest).map fun (args, n) =>
          { start := lit.start, stop := lit.stop + n, quote := lit.quote
            sql := emptyField.replaceBy (fun _ => ph) content, args := args }
    if q.args.isEmpty then none
    else some { q with
      sql := unquotePlaceholders q.sql ph
      quote := if q.quote == 96 then 34 else q.quote }

/-- The first query that values are interpolated into. -/
def interpolation? (line : Text) (l : Language) : Option Query :=
  (Code.literals line).findSome? (interpolatedAt? line l)

/-- The quote for a query: the preferred one, or the other kind when the query holds that. -/
def chooseQuote (q : UInt8) (sql : Text) : UInt8 :=
  let q : UInt8 := if q == 96 then 34 else q
  if sql.any (· == q) then (if q == 34 then 39 else 34) else q

def paramsExpr (args : List Text) (l : Language) : Text :=
  let joined := Text.join ", " args
  match l with
  | .python => if args.length = 1 then "(" ++ joined ++ ",)" else "(" ++ joined ++ ")"
  | .java => "new Object[]\x7b" ++ joined ++ "\x7d"
  | _ => "[" ++ joined ++ "]"

def paramLines (args : List Text) (l : Language) : List Text :=
  match l with
  | .javaScript => ["const params = " ++ paramsExpr args l ++ ";"]
  | .php => ["$params = " ++ paramsExpr args l ++ ";"]
  | .java =>
    (args.zipIdx 1).map fun (a, i) => "ps.setObject(" ++ Text.ofInt i ++ ", " ++ a ++ ");"
  | .c => [l.comment ("bind parameters in order: " ++ Text.join ", " args)]
  | _ => ["params = " ++ paramsExpr args l]

def noteText : Language → Text
  | .java => "prepare the statement with connection.prepareStatement(sql) and bind each value; values are bound as query parameters instead of being spliced into the SQL text."
  | _ => "values are bound as query parameters instead of being spliced into the SQL text."

/-- The line up to and including the new literal. -/
def boundHead (line : Text) (q : Query) : Text :=
  let c := chooseQuote q.quote q.sql
  line.take q.start ++ [c] ++ q.sql ++ [c]

/-- The line with the query bound to parameters: as the next argument inside a call, else
declared on the lines after. -/
def bind (line : Text) (q : Query) (l : Language) : List Text :=
  let head := boundHead line q
  let tail := line.drop q.stop
  let before := Text.trimRightBytes Text.isSpaceOrTab (line.take q.start)
  let first := note l line.indent (noteText l)
  if Text.endsWith before "(" && l != .java && l != .c then
    [first, head ++ ", " ++ paramsExpr q.args l ++ tail]
  else first :: (head ++ tail) :: (paramLines q.args l).map (line.indent ++ ·)

end Query

namespace Fix

/-- Binds the first query found in the code lines. -/
def bindQuery (find : Text → Language → Option Query) : Fix := fun fragment l =>
  some (go l fragment)
where
  /-- The lines with the first query bound. -/
  go (l : Language) : List Text → List Text
    | [] => []
    | line :: rest =>
      if isNote line then line :: go l rest
      else
        match find line l with
        | none => line :: go l rest
        | some q => Query.bind line q l ++ rest

end Fix
end CodeAudit
