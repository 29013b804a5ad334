import CodeAudit.Pattern.Reader

/-!
# Replacing matches

A template is written as text in which `$1` or `${1}` stands for a group of the match and `$$` for
a dollar sign. A group that took no part in the match, or that does not exist, stands for nothing.
-/
namespace CodeAudit

/-- A piece of a replacement template. -/
inductive TemplatePiece where
  | text (b : UInt8)
  | group (n : Nat)
  | nothing
  deriving DecidableEq, Repr

abbrev Template := List TemplatePiece

namespace Template

/-- The group a name between `${` and the closing brace, or after `$`, stands for. -/
def ofName (name : Text) : TemplatePiece :=
  match Text.toNat? name with
  | some n => .group n
  | none => .nothing

/-- Reads a template; `skip` bytes belong to a piece already read. -/
def readFrom : Nat → Text → Template
  | _, [] => []
  | skip + 1, _ :: t => readFrom skip t
  | 0, 36 :: t =>
    match t with
    | 36 :: _ => .text 36 :: readFrom 1 t
    | 123 :: u =>
      let name := u.takeWhile Text.isWordByte
      if name.isEmpty || (u.drop name.length).head? != some 125 then .text 36 :: readFrom 0 t
      else ofName name :: readFrom (name.length + 2) t
    | u =>
      let name := u.takeWhile Text.isWordByte
      if name.isEmpty then .text 36 :: readFrom 0 t
      else ofName name :: readFrom name.length t
  | 0, b :: t => .text b :: readFrom 0 t

/-- The template of a written form. -/
def read (s : String) : Template := readFrom 0 s

/-- The template filled with the groups of a match in `t`. -/
def fill (tpl : Template) (m : Match) (t : Text) : Text :=
  tpl.flatMap fun
    | .text b => [b]
    | .group 0 => m.text t
    | .group (n + 1) => m.groupText t (n + 1)
    | .nothing => []

end Template

namespace Pattern

/-- The text with matches replaced by what `f` gives for each; `last` is the offset up to which
the text is already written. -/
def rebuild (f : Match → Text) (t : Text) : Nat → List Match → Text
  | last, [] => t.drop last
  | last, m :: ms => Text.slice t last m.start ++ f m ++ rebuild f t m.stop ms

/-- The text with every match replaced by what `f` gives for it. -/
def replaceBy (p : Pattern) (f : Match → Text) (t : Text) : Text := rebuild f t 0 (p.findAll t)

/-- The text with every match replaced by the filled template. -/
def replaceAll (p : Pattern) (tpl : Template) (t : Text) : Text := p.replaceBy (tpl.fill · t) t

/-- The text with every match replaced by what `f` gives for the matched text, unless `f` fails
on one of them. -/
def replaceBy? (p : Pattern) (f : Text → Option Text) (t : Text) : Option Text := do
  let ms := p.findAll t
  let ws ← ms.mapM fun m => f (m.text t)
  some (go 0 (ms.zip ws))
where
  /-- Writes the replacements and the text between them, from offset `last` on. -/
  go : Nat → List (Match × Text) → Text
    | last, [] => t.drop last
    | last, (m, w) :: ms => Text.slice t last m.start ++ w ++ go m.stop ms

end Pattern
end CodeAudit
