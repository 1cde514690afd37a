import Stencil.Segment
import Stencil.Text.Bytes

/-!
# Tokens

A token is a segment in the form that the later stages use. A text token holds the text with its openers unescaped. A
tag token holds the body: the content of the tag without its closer and without a strip marker in front of the closer,
which is noted in `strip`.
-/

namespace Stencil

/-- Whether a token is literal text or a tag. -/
inductive TokenKind
  | text
  | tag (kind : TagKind)
  deriving DecidableEq, Repr, Inhabited

/-- The name of a kind, as messages show it. -/
def TokenKind.name : TokenKind → String
  | text => "Text"
  | tag kind => kind.name

/-- A piece of a template: its body, whether a strip marker ends it, and the line it starts on. -/
structure Token where
  kind : TokenKind
  body : String
  strip : Bool
  line : Nat
  deriving DecidableEq, Repr, Inhabited

/-- Right before a closer, removes the blank run that follows the tag. -/
def stripMarker : Char := '-'

namespace Token

/-- The body of a tag with the given content, and whether it ended in a strip marker. The closer is the last bytes of
the content; where it would begin inside a character, that character goes with it. -/
def bodyOf (m : Markup) (kind : TagKind) (content : List Char) : List Char × Bool :=
  let inner := Text.takeBytes (Text.byteSize content - m.closerSize kind) content
  if inner.getLast? == some stripMarker then (inner.dropLast, true) else (inner, false)

/-- The token of a segment. -/
def ofSegment (m : Markup) (s : LocatedSegment) : Token :=
  match s.segment with
  | .text raw => ⟨.text, String.ofList (m.unescapeFrom 0 raw), false, s.line⟩
  | .tag kind content =>
    let (body, strip) := bodyOf m kind content
    ⟨.tag kind, String.ofList body, strip, s.line⟩

/-- The tokens of a text. -/
def scan (m : Markup) (text : String) : Except Unterminated (List Token) :=
  (Segment.scan m text.toList).map fun segments => segments.map (ofSegment m)

/-- All of a token but its line. -/
def content (t : Token) : TokenKind × String × Bool := (t.kind, t.body, t.strip)

theorem ext_content {a b : Token} (hc : a.content = b.content) (hl : a.line = b.line) : a = b := by
  obtain ⟨kind, body, strip, line⟩ := a
  obtain ⟨kind', body', strip', line'⟩ := b
  cases hc
  cases hl
  rfl

end Token

end Stencil
