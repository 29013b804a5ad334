import CodeAudit.Finding
import CodeAudit.Instant

/-!
# The history of analyses

A bounded list of recorded analyses. Recording has two steps: an entry is stamped with an identifier
and the time, and the stamped entry is appended; past the limit the oldest entries leave.

* `Entry.stamp`, `History.append`: the two steps.
* `History.list`, `History.results`, `History.get?`: newest first, and by identifier.
-/
namespace CodeAudit

/-- One recorded analysis. -/
structure Entry where
  id : Text
  createdAt : Instant
  code : Text
  result : Result
  deriving DecidableEq, Repr

/-- The entry for an analysis, named and dated. -/
def Entry.stamp (id : Text) (now : Instant) (code : Text) (result : Result) : Entry :=
  ⟨id, now, code, result⟩

/-- The recorded analyses, oldest first, and how many are kept. -/
structure History where
  limit : Nat
  entries : List Entry
  deriving Repr

namespace History

/-- How many entries are kept when no limit is given. -/
def defaultLimit : Nat := 50

/-- How many entries there is room for under a limit. One below one stands for the default. -/
def room (limit : Int) : Nat := if limit < 1 then defaultLimit else limit.toNat

def empty (limit : Int) : History := ⟨room limit, []⟩

/-- Appends a stamped entry; past the limit the oldest entries leave. -/
def append (h : History) (e : Entry) : History :=
  let all := h.entries ++ [e]
  { h with entries := all.drop (all.length - h.limit) }

def add (h : History) (id : Text) (now : Instant) (code : Text) (result : Result) : Entry × History :=
  let e := Entry.stamp id now code result
  (e, h.append e)

/-- The entries, newest first. -/
def list (h : History) : List Entry := h.entries.reverse

/-- The results, newest first. -/
def results (h : History) : List Result := h.list.map Entry.result

def get? (h : History) (id : Text) : Option Entry := h.entries.find? (·.id == id)

def clear (h : History) : History := { h with entries := [] }

def length (h : History) : Nat := h.entries.length

def notFound : Text := "history entry not found"

end History
end CodeAudit
