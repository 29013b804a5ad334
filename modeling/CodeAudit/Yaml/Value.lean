import CodeAudit.Number.Double
import CodeAudit.Text.Base64
import CodeAudit.Word
import CodeAudit.Yaml.Node

/-!
# What YAML scalars mean

A plain scalar without a tag is null, a truth value, a number, a time or a text, by its form. A tag
says what it must be, and a scalar that is nothing of the kind is a fault.

* `Value`, `guess`: the meaning of a plain scalar.
* `Node.kindTag`: the tag of a node in its short form, the written one or the one of its meaning.
* `interpret`: the meaning of a scalar under its tag.
-/
namespace CodeAudit.Yaml

/-- The meaning of a scalar. Of a floating point number only the whole part counts here; it is
absent when the number is none, and out of every range when the number is infinite. -/
inductive Value where
  | null
  | bool (b : Bool)
  | int (n : Int)
  | float (whole : Option Int)
  | time
  | merge
  | text (t : Text)
  deriving DecidableEq, Repr

def Value.tag : Value → Text
  | .null => "!!null"
  | .bool _ => "!!bool"
  | .int _ => "!!int"
  | .float _ => "!!float"
  | .time => "!!timestamp"
  | .merge => "!!merge"
  | .text _ => "!!str"

/-! ## Numbers -/

/-- The value of a digit in any base up to sixteen. -/
def digit? (b : UInt8) : Option Nat := hexValue? b.toNat

/-- The number that digits write in a base. -/
def digits? (base : Nat) (ds : Text) : Option Nat :=
  ds.foldl (fun n b => do
    let n ← n
    let d ← digit? b
    if d < base then some (n * base + d) else none) (some 0)

/-- The number without a sign: hexadecimal, octal and binary numbers have a mark in front, and a
zero in front is a mark of an octal number too. -/
def unsigned? (t : Text) : Option Nat :=
  match t with
  | [] => none
  | 48 :: m :: d :: ds =>
    if m == 120 || m == 88 then digits? 16 (d :: ds)
    else if m == 111 || m == 79 then digits? 8 (d :: ds)
    else if m == 98 || m == 66 then digits? 2 (d :: ds)
    else digits? 8 (m :: d :: ds)
  | 48 :: ds => digits? 8 ds
  | ds => digits? 10 ds

/-- The integer a text writes: a word with a sign, or a natural number of twice the range without
one. -/
def integer? (t : Text) : Option Int :=
  match t with
  | 45 :: ds => ((unsigned? ds).filter (· ≤ 9223372036854775808)).map fun n => -(n : Int)
  | 43 :: ds => ((unsigned? ds).filter (· < 9223372036854775808)).map fun n => (n : Int)
  | ds => ((unsigned? ds).filter (· < 18446744073709551616)).map fun n => (n : Int)

/-- The integer that digits write in a base, with a sign perhaps. -/
def signed? (base : Nat) (t : Text) : Option Int :=
  let (down, ds) : Bool × Text := match t with
    | 45 :: ds => (true, ds)
    | 43 :: ds => (false, ds)
    | ds => (false, ds)
  if ds.isEmpty then none
  else (digits? base ds).bind fun n =>
    let k : Int := if down then -(n : Int) else n
    if fitsWord k then some k else none

/-- The integer a text writes with its sign behind the mark for binary or octal numbers. -/
def marked? : Text → Option Int
  | 48 :: 98 :: ds => signed? 2 ds
  | 48 :: 111 :: ds => signed? 8 ds
  | _ => none

/-- A decimal number, as its sign, its digits without the point and the power of ten they are
worth. -/
structure Decimal where
  negative : Bool
  digits : Nat
  exponent : Int
  deriving DecidableEq, Repr

/-- The decimal number a text writes: digits with at most one point among them and an exponent. -/
def decimal? (t : Text) : Option Decimal := do
  let (negative, t) := match t with
    | 45 :: r => (true, r)
    | 43 :: r => (false, r)
    | r => (false, r)
  let whole := t.takeWhile Text.isDigit
  let t := t.dropWhile Text.isDigit
  let (fraction, t) := match t with
    | 46 :: r => (r.takeWhile Text.isDigit, r.dropWhile Text.isDigit)
    | r => ([], r)
  if whole.isEmpty && fraction.isEmpty then none
  else
    let digits ← Text.toNat? (whole ++ fraction)
    let scale : Int := -(fraction.length : Int)
    match t with
    | [] => some ⟨negative, digits, scale⟩
    | e :: r =>
      if e != 101 && e != 69 then none
      else
        let (down, r) := match r with
          | 45 :: r => (true, r)
          | 43 :: r => (false, r)
          | r => (false, r)
        let n ← if r.isEmpty then none else Text.toNat? r
        some ⟨negative, digits, scale + (if down then -(n : Int) else n)⟩

/-- The first number beyond all doubles. It stands for infinity too. -/
def beyondDoubles : Nat := Nat.pow 2 1024

/-- The whole part of the double nearest to a decimal number; none when it is out of range. -/
def Decimal.whole? (d : Decimal) : Option Int :=
  if d.digits = 0 then some 0
  else
    let magnitude : Int := (Nat.toDigits 10 d.digits).length + d.exponent
    if magnitude > 310 then none
    else if magnitude < 0 then some 0
    else
      let x := if 0 ≤ d.exponent then Double.nearest (d.digits * Nat.pow 10 d.exponent.toNat) 1
        else Double.nearest d.digits (Nat.pow 10 (-d.exponent).toNat)
      let (n, m) := x.toQuotient
      if n / m ≥ beyondDoubles then none else some (if d.negative then -(n / m : Nat) else (n / m : Nat))

/-! ## Times -/

/-- A number of one or two digits and what follows it. -/
def shortNumber? (t : Text) : Option (Nat × Text) :=
  let ds := (t.take 2).takeWhile Text.isDigit
  if ds.isEmpty then none else (Text.toNat? ds).map fun n => (n, t.drop ds.length)

/-- What follows a byte. -/
def expect? (b : UInt8) : Text → Option Text
  | c :: t => if c == b then some t else none
  | [] => none

def daysIn (year month : Nat) : Nat :=
  if month == 2 then (if year % 4 == 0 && (year % 100 != 0 || year % 400 == 0) then 29 else 28)
  else if month == 4 || month == 6 || month == 9 || month == 11 then 30
  else 31

def afterDate? (t : Text) : Option Text := do
  let year ← if (t.takeWhile Text.isDigit).length == 4 then Text.toNat? (t.take 4) else none
  let (month, t) ← shortNumber? (← expect? 45 (t.drop 4))
  let (day, t) ← shortNumber? (← expect? 45 t)
  if 1 ≤ month && month ≤ 12 && 1 ≤ day && day ≤ daysIn year month then some t else none

/-- What follows a time of day, with a fraction of a second perhaps. -/
def afterTime? (t : Text) : Option Text := do
  let (hour, t) ← shortNumber? t
  let (minute, t) ← shortNumber? (← expect? 58 t)
  let (second, t) ← shortNumber? (← expect? 58 t)
  if hour ≥ 24 || minute ≥ 60 || second ≥ 60 then none
  else match t with
    | p :: d :: r =>
      if (p == 46 || p == 44) && Text.isDigit d then some (r.dropWhile Text.isDigit) else some t
    | _ => some t

/-- Whether a text is a time zone: `Z`, or an offset with its sign. -/
def isZone (t : Text) : Bool :=
  match t with
  | [90] => true
  | [s, a, b, 58, c, d] =>
    (s == 43 || s == 45) && [a, b, c, d].all Text.isDigit
      && (Text.toNat? [a, b]).any (· ≤ 24) && (Text.toNat? [c, d]).any (· ≤ 60)
  | _ => false

/-- Whether a text is a time: a date, alone or with a time of day behind a `T` or blanks. -/
def isTime (t : Text) : Bool :=
  match afterDate? t with
  | none => false
  | some [] => true
  | some (b :: r) =>
    if b == 84 || b == 116 then (afterTime? r).any isZone
    else if b == 32 then (afterTime? (r.dropWhile (· == 32))).any List.isEmpty
    else false

/-! ## Meanings -/

/-- The words with a meaning of their own. -/
def word? (t : Text) : Option Value :=
  let among (ws : List String) := ws.any fun w => utf8 w == t
  if among ["", "~", "null", "Null", "NULL"] then some .null
  else if among ["true", "True", "TRUE"] then some (.bool true)
  else if among ["false", "False", "FALSE"] then some (.bool false)
  else if among [".nan", ".NaN", ".NAN"] then some (.float none)
  else if among [".inf", ".Inf", ".INF", "+.inf", "+.Inf", "+.INF"] then some (.float (some beyondDoubles))
  else if among ["-.inf", "-.Inf", "-.INF"] then some (.float (some (-(beyondDoubles : Int))))
  else if among ["<<"] then some .merge
  else none

/-- The meaning of a scalar that begins like a number. Underscores in it do not count. -/
def numeral (mayBeTime : Bool) (t : Text) : Value :=
  let bare := t.filter (· != 95)
  if mayBeTime && isTime t then .time
  else match integer? bare with
    | some n => .int n
    | none =>
      match (decimal? bare).bind Decimal.whole? with
      | some n => .float (some n)
      | none =>
        match marked? bare with
        | some n => .int n
        | none => .text t

/-- Whether every underscore of a text stands between two digits; `behindDigit` says whether the
text follows one. -/
def separatesDigits (behindDigit : Bool) : Text → Bool
  | [] => true
  | 95 :: t => behindDigit && t.head?.any Text.isDigit && separatesDigits false t
  | b :: t => separatesDigits (Text.isDigit b) t

/-- The meaning of a scalar that begins with a point. Underscores may separate digits. -/
def fraction (t : Text) : Value :=
  let number := if separatesDigits false t then decimal? (t.filter (· != 95)) else none
  match number.bind Decimal.whole? with
  | some n => .float (some n)
  | none => .text t

/-- The meaning of a plain scalar, by its form. -/
def guess (mayBeTime : Bool) (t : Text) : Value :=
  match t with
  | [] => .null
  | b :: _ =>
    if b == 43 || b == 45 || Text.isDigit b then (word? t).getD (numeral mayBeTime t)
    else if b == 46 then (word? t).getD (fraction t)
    else if (utf8 "yYnNtTfFoO~").any (· == b) then (word? t).getD (.text t)
    else .text t

def shortTag (t : Text) : Text :=
  match Text.cutPrefix? "tag:yaml.org,2002:" t with
  | some rest => "!!" ++ rest
  | none => t

def Node.kindTag : Node → Text
  | .scalar tag value isPlain _ =>
    if !tag.isEmpty && tag != utf8 "!" then shortTag tag
    else if !isPlain then "!!str"
    else if value == utf8 "<<" then "!!merge"
    else (guess true value).tag
  | .sequence tag _ _ => if !tag.isEmpty && tag != utf8 "!" then shortTag tag else "!!seq"
  | .mapping tag _ _ => if !tag.isEmpty && tag != utf8 "!" then shortTag tag else "!!map"
  | .reference .. => []

/-- The tags that say what a scalar must look like. -/
def formTags : List Text := ["!!str", "!!bool", "!!int", "!!float", "!!null", "!!timestamp"]

/-- The meaning of a scalar under a tag. Under a tag that says nothing about its form it is a
text. -/
def interpret (tag value : Text) : Except Fault Value :=
  if tag == utf8 "!!binary" then
    match Text.fromBase64? value with
    | some t => .ok (.text t)
    | none => .error (.bare "!!binary value contains invalid base64 data")
  else if tag == utf8 "!!str" || !formTags.contains tag then .ok (.text value)
  else
    let v := guess (tag == utf8 "!!timestamp") value
    if tag == v.tag then .ok v
    else match v with
      | .int n =>
        if tag == utf8 "!!float" && n ≤ maxWord then .ok (.float (some n)) else mismatch v
      | _ => mismatch v
where
  /-- A scalar that is not what its tag says. -/
  mismatch (v : Value) : Except Fault Value :=
    .error (.bare (utf8 "cannot decode " ++ v.tag ++ " \x60" ++ value ++ "\x60 as a " ++ tag))

end CodeAudit.Yaml
