import CodeAudit.Duration
import CodeAudit.Number.Literal
import CodeAudit.Text.Quoted

/-!
# Flags

A flag has a long name and may have a letter. Flags and words may be mixed, and the words after `--`
are no flags.

* `Flag.parse`: the values and the words of a list of arguments.
* `Flag.usages`: the lines that describe flags.
-/
namespace CodeAudit

/-- What a flag takes. -/
inductive FlagKind where
  | text
  | int
  | duration
  | switch
  deriving DecidableEq, Repr

/-- A flag. -/
structure Flag where
  name : Text
  letter : Option UInt8 := none
  kind : FlagKind := .text
  usage : Text
  /-- The default as it is shown, blank when it is not. -/
  preset : Text := []
  deriving DecidableEq, Repr

/-- The value of a flag. -/
inductive FlagValue where
  | text (t : Text)
  | int (n : Int)
  | duration (d : Int)
  | switch (b : Bool)
  deriving DecidableEq, Repr

/-- Why a value does not fit a flag. -/
inductive FlagFault where
  | int (f : LiteralFault)
  | duration (e : DurationError)
  | switch
  deriving DecidableEq, Repr

/-- Why arguments cannot be understood. -/
inductive FlagError where
  | malformed (argument : Text)
  | unknown (name : Text)
  | unknownLetter (letter : UInt8) (letters : Text)
  | noValue (argument : Text)
  | noValueForLetter (letter : UInt8) (letters : Text)
  | misfit (flag : Flag) (value : Text) (fault : FlagFault)
  deriving DecidableEq, Repr

/-- The values of flags, the last one first, and the words that are no flags. -/
structure Arguments where
  values : List (Text × FlagValue) := []
  words : List Text := []
  deriving DecidableEq, Repr

namespace Flag

/-- Whether the flag takes no value of its own. -/
def isSwitch (f : Flag) : Bool := f.kind == .switch

def named? (flags : List Flag) (name : Text) : Option Flag := flags.find? (·.name == name)

def lettered? (flags : List Flag) (letter : UInt8) : Option Flag := flags.find? (·.letter == some letter)

/-! ## Values -/

def yes : List Text := ["1", "t", "T", "true", "TRUE", "True"]

def no : List Text := ["0", "f", "F", "false", "FALSE", "False"]

def read (f : Flag) (t : Text) : Except FlagFault FlagValue :=
  match f.kind with
  | .text => .ok (.text t)
  | .int =>
    match Literal.parse t with
    | .ok n => .ok (.int n)
    | .error e => .error (.int e)
  | .duration =>
    match Duration.parse t with
    | .ok d => .ok (.duration d)
    | .error e => .error (.duration e)
  | .switch =>
    if yes.contains t then .ok (.switch true)
    else if no.contains t then .ok (.switch false)
    else .error .switch

def assign (f : Flag) (t : Text) (a : Arguments) : Except FlagError Arguments :=
  match f.read t with
  | .ok v => .ok { a with values := (f.name, v) :: a.values }
  | .error e => .error (.misfit f t e)

/-! ## Arguments -/

/-- A flag whose value is the next argument, and the error if there is none. -/
structure Awaiting where
  flag : Flag
  error : FlagError

def readLong (flags : List Flag) (a : Arguments) (argument : Text) :
    Except FlagError (Arguments × Option Awaiting) :=
  let body := argument.drop 2
  if body.head? == some 45 || body.head? == some 61 then .error (.malformed argument)
  else
    let name := body.takeWhile (· != 61)
    match named? flags name, (body.dropWhile (· != 61)) with
    | none, _ => .error (.unknown name)
    | some f, _ :: value => do return (← f.assign value a, none)
    | some f, [] =>
      if f.isSwitch then do return (← f.assign "true" a, none)
      else .ok (a, some ⟨f, .noValue argument⟩)

/-- Reads the letters behind a dash. A letter that takes a value takes the rest of them, or else the
next argument. -/
def readLetters (flags : List Flag) (a : Arguments) : Text → Except FlagError (Arguments × Option Awaiting)
  | [] => .ok (a, none)
  | c :: more =>
    if Text.startsWith (c :: more) "test." then .ok (a, none)
    else match lettered? flags c with
      | none => .error (.unknownLetter c (c :: more))
      | some f =>
        if more.head? == some 61 && 1 < more.length then do return (← f.assign (more.drop 1) a, none)
        else if f.isSwitch then
          match f.assign "true" a with
          | .error e => .error e
          | .ok a => readLetters flags a more
        else if more.isEmpty then .ok (a, some ⟨f, .noValueForLetter c (c :: more)⟩)
        else do return (← f.assign more a, none)

def isWord (argument : Text) : Bool := argument.head? != some 45 || argument.length == 1

/-- Reads arguments, the first of which may be the value of a flag. -/
def parseFrom (flags : List Flag) : Option Awaiting → Arguments → List Text → Except FlagError Arguments
  | some w, _, [] => .error w.error
  | none, a, [] => .ok a
  | some w, a, s :: rest =>
    match w.flag.assign s a with
    | .error e => .error e
    | .ok a => parseFrom flags none a rest
  | none, a, s :: rest =>
    if isWord s then parseFrom flags none { a with words := a.words ++ [s] } rest
    else if s == utf8 "--" then .ok { a with words := a.words ++ rest }
    else
      match if Text.startsWith s "--" then readLong flags a s else readLetters flags a (s.drop 1) with
      | .error e => .error e
      | .ok (a, w) => parseFrom flags w a rest

def parse (flags : List Flag) (arguments : List Text) : Except FlagError Arguments :=
  parseFrom flags none {} arguments

end Flag

namespace Arguments

def value? (a : Arguments) (name : Text) : Option FlagValue := a.values.lookup name

/-- The text given to a flag, or else a default. -/
def text (a : Arguments) (name preset : Text) : Text :=
  match a.value? name with
  | some (.text t) => t
  | _ => preset

def int? (a : Arguments) (name : Text) : Option Int :=
  match a.value? name with
  | some (.int n) => some n
  | some (.duration d) => some d
  | _ => none

def isOn (a : Arguments) (name : Text) : Bool := a.value? name == some (.switch true)

end Arguments

/-! ## Wording -/

def FlagFault.message (value : Text) : FlagFault → Text
  | .int f => "strconv.ParseInt: parsing " ++ Text.quote value ++ ": " ++ f.message
  | .duration e => e.message
  | .switch => "strconv.ParseBool: parsing " ++ Text.quote value ++ ": invalid syntax"

def quoteLetter (letter : UInt8) : Text :=
  let code := letter.toNat
  [39] ++ (if code == 39 then utf8 "\\'"
    else if code == 34 then [34]
    else Text.quoteRune ⟨code, encodeRune code⟩) ++ [39]

/-- The names of a flag as errors show them. -/
def Flag.title (f : Flag) : Text :=
  match f.letter with
  | some c => "-" ++ [c] ++ ", --" ++ f.name
  | none => "--" ++ f.name

def FlagError.message : FlagError → Text
  | .malformed argument => "bad flag syntax: " ++ argument
  | .unknown name => "unknown flag: --" ++ name
  | .unknownLetter c letters => "unknown shorthand flag: " ++ quoteLetter c ++ " in -" ++ letters
  | .noValue argument => "flag needs an argument: " ++ argument
  | .noValueForLetter c letters => "flag needs an argument: " ++ quoteLetter c ++ " in -" ++ letters
  | .misfit f value fault =>
    "invalid argument " ++ Text.quote value ++ " for " ++ Text.quote f.title ++ " flag: "
      ++ fault.message value

namespace Flag

def valueWord : FlagKind → Text
  | .text => " string"
  | .int => " int"
  | .duration => " duration"
  | .switch => ""

/-- The names of a flag as its description shows them. -/
def heading (f : Flag) : Text :=
  (match f.letter with
    | some c => "  -" ++ [c] ++ ", --" ++ f.name
    | none => "      --" ++ f.name) ++ valueWord f.kind

/-- What a description says about the default. -/
def presetNote (f : Flag) : Text :=
  if f.preset.isEmpty then []
  else match f.kind with
    | .text => " (default " ++ Text.quote f.preset ++ ")"
    | _ => " (default " ++ f.preset ++ ")"

/-- The lines that describe flags, sorted by name, with the descriptions in one column. -/
def usages (flags : List Flag) : Text :=
  let sorted := flags.mergeSort fun f g => Text.le f.name g.name
  let width := sorted.foldl (fun w f => max w f.heading.length) 0
  Text.unlines (sorted.map fun f =>
    f.heading ++ List.replicate (width - f.heading.length + 3) 32 ++ f.usage ++ f.presetNote)

end Flag
end CodeAudit
