import CodeAudit.CommandLine
import CodeAudit.Instant
import Std.Time.DateTime.Timestamp

/-!
# The program

Gathers what the arguments name, runs the command line on it, and carries out what it leaves.
-/
namespace CodeAudit

namespace Main

/-- The bytes of a stream up to its end. -/
partial def readAll (stream : IO.FS.Stream) (before : ByteArray) : IO ByteArray := do
  let bytes ← stream.read 65536
  if bytes.isEmpty then return before else readAll stream (before ++ bytes)

/-- The path that a text names. -/
def name (t : Text) : String := (String.fromUTF8? ⟨t.toArray⟩).getD ""

/-- Whether an error says that a folder was read as a file. -/
def saysFolder : IO.Error → Bool
  | .inappropriateType _ code _ => code == 21
  | _ => false

/-- Whether there is a folder at a path: it cannot be read as a file. -/
def isFolder (path : String) : IO Bool := do
  try
    discard (IO.FS.readBinFile path)
    return false
  catch e => return saysFolder e

def parent (path : Text) : Text := path.take (((Text.lastIndexOf? 47 path).map (· + 1)).getD 0)

def look (files : Files) (path : Text) : IO Files := do
  let known (files : Files) (t : Text) : IO Files := do
    if ← isFolder (name t) then return { files with folders := .ofText t :: files.folders } else return files
  let files ← known (← known files path) (parent path)
  try
    return files.put (.ofText path) (← IO.FS.readBinFile (name path)).data.toList
  catch _ => return files

/-- Writes the files that a run has changed. -/
def carryOut (before after : Files) (path : Text) : IO Unit := do
  let p := Path.ofText path
  match after.content? p with
  | none => return
  | some t => if before.content? p != some t then IO.FS.writeBinFile (name path) ⟨t.toArray⟩

/-- The environment, as far as settings look at it. -/
def environment : IO (Text → Text) := do
  let value (v : Text) : IO Text := return utf8 ((← IO.getEnv (name v)).getD "")
  let level ← value Settings.levelVariable
  let addr ← value Settings.addressVariable
  return fun v =>
    if v == Settings.levelVariable then level else if v == Settings.addressVariable then addr else []

def run (given : List Text) : IO UInt32 := do
  let stdin ← if CommandLine.wantsStdin given then readAll (← IO.getStdin) ByteArray.empty
    else pure ByteArray.empty
  let paths := CommandLine.paths given
  let files ← paths.foldlM look {}
  let now ← Std.Time.Timestamp.now
  let outcome := CommandLine.run
    { stdin := stdin.data.toList, files := files, environment := ← environment,
      stamp := (Instant.mk now.toNanosecondsSinceUnixEpoch.val).text, elapsed := Duration.text 0,
      toolchain := "lean4" } given
  (← IO.getStdout).write ⟨outcome.stdout.toArray⟩
  (← IO.getStderr).write ⟨outcome.stderr.toArray⟩
  paths.forM (carryOut files outcome.files)
  match outcome.service with
  | some s =>
    (← IO.getStderr).write ⟨(utf8 "Error: serving: no listener for " ++ s.settings.addr ++ [10]).toArray⟩
    return 1
  | none => return outcome.exit.toUInt32

end Main
end CodeAudit

/-- The program. -/
def main (args : List String) : IO UInt32 := CodeAudit.Main.run (args.map CodeAudit.utf8)
