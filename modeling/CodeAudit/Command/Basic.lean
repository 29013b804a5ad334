import CodeAudit.Command.Flag
import CodeAudit.Text.Case

/-!
# Commands

A program has global flags and commands, and a command has flags of its own.

* `Program.locate`: the command that arguments name, and the arguments without its name.
* `Program.suggestions`: the commands that may be meant by an unknown name.
* `Command.checkWords`: whether a command takes so many words.
-/
namespace CodeAudit

/-- How many words a command takes. -/
inductive Arity where
  | none
  | atMost (n : Nat)
  | any
  deriving DecidableEq, Repr

/-- A command. -/
structure Command where
  name : Text
  /-- What stands after the name in the usage line. -/
  operands : Text := []
  summary : Text
  /-- The description, where it says more than the summary. -/
  description : Text := []
  examples : Text := []
  flags : List Flag := []
  arity : Arity := .none
  deriving DecidableEq, Repr

/-- A program with commands. -/
structure Program where
  name : Text
  description : Text
  flags : List Flag
  commands : List Command
  deriving DecidableEq, Repr

/-- What is wrong with the words of the arguments. -/
inductive WordError where
  | unknownCommand (word program : Text) (suggestions : List Text)
  | tooMany (most received : Nat)
  deriving DecidableEq, Repr

def WordError.message : WordError → Text
  | .unknownCommand word program suggestions =>
    "unknown command " ++ Text.quote word ++ " for " ++ Text.quote program
      ++ if suggestions.isEmpty then utf8 ""
        else utf8 "\n\nDid you mean this?\n" ++ suggestions.flatMap fun s => utf8 "\t" ++ s ++ [10]
  | .tooMany most received =>
    "accepts at most " ++ Text.ofInt most ++ " arg(s), received " ++ Text.ofInt received

/-! ## Finding the command -/

/-- Whether the argument is a flag whose value is the next argument. An unknown flag counts as
one. -/
def Flag.takesNext (flags : List Flag) (s : Text) : Bool :=
  !(s.any (· == 61)) &&
    ((Text.startsWith s "--" && !((named? flags (s.drop 2)).any isSwitch)) ||
      (Text.startsWith s "-" && s.length == 2 && !((s[1]?.bind (lettered? flags)).any isSwitch)))

/-- The words of arguments, without flags and their values. A flag in front of the last argument, or
of none, ends them. -/
def Flag.wordsOf (flags : List Flag) : List Text → List Text
  | [] => []
  | s :: rest =>
    if s == utf8 "--" then []
    else if takesNext flags s then
      match rest with
      | _ :: v :: rest => wordsOf flags (v :: rest)
      | _ => []
    else if s.isEmpty || Text.startsWith s "-" then wordsOf flags rest
    else s :: wordsOf flags rest

/-- The arguments without the first word that is `word`. -/
def Flag.withoutWord (flags : List Flag) (word : Text) : List Text → List Text
  | [] => []
  | s :: rest =>
    if s == utf8 "--" then s :: rest
    else if takesNext flags s then
      match rest with
      | v :: rest => s :: v :: withoutWord flags word rest
      | [] => [s]
    else if s == word && !Text.startsWith s "-" then rest
    else s :: withoutWord flags word rest

/-! ## Suggestions -/

/-- One row of the table of edit distances: the row above starts with `corner` and goes on with
`above`, and `left` is the last distance of this row. -/
def distanceRow (a : UInt8) : Text → Nat → Nat → List Nat → List Nat
  | b :: t, corner, left, up :: above =>
    let d := if a == b then corner else min (min up left) corner + 1
    d :: distanceRow a t up d above
  | _, _, _, _ => []

/-- The number of bytes to insert, delete or replace between two texts, where equal bytes always
pair. -/
def editDistance (s t : Text) : Nat :=
  let row := s.foldl (fun (row : Nat × List Nat) a =>
    (row.1 + 1, distanceRow a t row.1 (row.1 + 1) row.2)) (0, (List.range t.length).map (· + 1))
  row.2.getLastD row.1

/-- Whether a name may be meant by what was typed: they differ little, or it starts with it, in any
case. -/
def isNear (typed name : Text) : Bool :=
  editDistance typed.lower name.lower ≤ 2 || Text.startsWith name.lower typed.lower

namespace Program

/-- The name of the command that describes others. -/
def helpName : Text := "help"

/-- The commands that may be meant by an unknown name. -/
def suggestions (p : Program) (typed : Text) : List Text :=
  ((p.commands.filter (·.name != helpName)).map Command.name).filter (isNear typed)

/-- The command that the arguments name, if they have a word, and the arguments without the name. -/
def locate (p : Program) (arguments : List Text) : Except WordError (Option Command × List Text) :=
  match Flag.wordsOf p.flags arguments with
  | [] => .ok (none, arguments)
  | word :: _ =>
    match p.commands.find? (·.name == word) with
    | some c => .ok (some c, Flag.withoutWord p.flags word arguments)
    | none => .error (.unknownCommand word p.name (p.suggestions word))

def helpFlag (name : Text) : Flag where
  name := helpName
  letter := some 104
  kind := .switch
  usage := "help for " ++ name

def checkWords (p : Program) (c : Command) (words : List Text) : Except WordError Unit :=
  match c.arity, words with
  | .none, word :: _ => .error (.unknownCommand word (p.name ++ " " ++ c.name) [])
  | .atMost n, words => if n < words.length then .error (.tooMany n words.length) else .ok ()
  | _, _ => .ok ()

/-! ## Descriptions -/

/-- A section of a description, with its title. -/
def titled (title body : Text) : Text := "\n\n" ++ title ++ ":\n" ++ body

def summaryLine (c : Command) : Text :=
  let gap : Text := List.replicate (12 - c.name.length) 32
  "  " ++ c.name ++ gap ++ c.summary

/-- The usage of the program. The help flag is among the flags if it was asked for. -/
def usage (p : Program) (withHelp : Bool) : Text :=
  "Usage:\n  " ++ p.name ++ " [command]"
    ++ titled "Available Commands"
      (Text.unlines ((p.commands.mergeSort fun a b => Text.le a.name b.name).map summaryLine))
    ++ titled "Flags" (Flag.usages (p.flags ++ if withHelp then [helpFlag p.name] else []))
    ++ "\n\nUse \"" ++ p.name ++ " [command] --help\" for more information about a command.\n"

def help (p : Program) : Text := p.description ++ "\n\n" ++ p.usage true

def helpFor (p : Program) (c : Command) : Text :=
  (if c.description.isEmpty then c.summary else c.description)
    ++ "\n\nUsage:\n  " ++ p.name ++ " " ++ c.name ++ c.operands ++ " [flags]"
    ++ (if c.examples.isEmpty then [] else titled "Examples" c.examples)
    ++ titled "Flags" (Flag.usages (c.flags ++ [helpFlag c.name]))
    ++ titled "Global Flags" (Flag.usages p.flags) ++ "\n"

end Program
end CodeAudit
