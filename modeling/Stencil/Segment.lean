import Stencil.Markup
import Stencil.Text.Blank

/-!
# Segments

A template is cut into segments: literal text, and tags. A tag reaches from its opener to the brace that brings the
depth to zero, where the depth starts at the number of left braces in the opener (`balanced`); its content is what
stands between, the closer included. The closer is not looked for: it is the end of the content, as many bytes as it
has.

`scan` gives the segments with the lines they start on, or the tag whose braces never balance.
-/

namespace Stencil

/-- A piece of a template. The content of a tag is all that follows its opener. -/
inductive Segment
  | text (raw : List Char)
  | tag (kind : TagKind) (content : List Char)
  deriving DecidableEq, Repr

/-- A segment and the line it starts on. -/
structure LocatedSegment where
  line : Nat
  segment : Segment
  deriving DecidableEq, Repr

/-- A tag whose braces never balance. -/
structure Unterminated where
  kind : TagKind
  line : Nat
  deriving DecidableEq, Repr

/-- The wording of the failure. -/
def Unterminated.message (u : Unterminated) : String :=
  "unterminated " ++ u.kind.name ++ " tag: braces never balance"

namespace Segment

/-- The source text of a segment. -/
def source (m : Markup) : Segment → List Char
  | text raw => raw
  | tag kind content => m.opener kind ++ content

/-- The shortest start of a text that brings the depth to zero, and what follows it. -/
def balanced : Nat → List Char → Option (List Char × List Char)
  | 0, cs => some ([], cs)
  | _ + 1, [] => none
  | depth + 1, c :: cs =>
    let next := if c == '\x7b' then depth + 2 else if c == '\x7d' then depth else depth + 1
    match balanced next cs with
    | some (content, rest) => some (c :: content, rest)
    | none => none

theorem append_of_balanced {depth : Nat} {cs content rest : List Char} (h : balanced depth cs = some (content, rest)) :
    content ++ rest = cs := by
  induction cs generalizing depth content with
  | nil => cases depth <;> simp_all [balanced]
  | cons c cs ih =>
    cases depth with
    | zero => simp_all [balanced]
    | succ d =>
      simp only [balanced] at h
      split at h
      · next hb =>
        simp only [Option.some.injEq, Prod.mk.injEq] at h
        obtain ⟨rfl, rfl⟩ := h
        simp [ih hb]
      · cases h

/-- Literal text as a list of at most one segment. -/
def literal (line : Nat) (raw : List Char) : List LocatedSegment :=
  if raw.isEmpty then [] else [⟨line, text raw⟩]

/-- The text ends in a backslash. -/
def endsEscaped (cs : List Char) : Bool := cs.getLast? == some '\\'

/-- The segments of a text that starts on the given line; `escaped` says that a backslash stands before it. -/
def scanFrom (m : Markup) (line : Nat) (escaped : Bool) (cs : List Char) : Except Unterminated (List LocatedSegment) :=
  match _hu : m.untilTag 0 escaped cs with
  | (raw, none) => .ok (literal line raw)
  | (raw, some (kind, rest)) =>
    let tagLine := line + Text.lineFeeds raw
    match _hb : balanced (m.depth kind) rest with
    | none => .error ⟨kind, tagLine⟩
    | some (content, rest') => do
      let source := m.opener kind ++ content
      let following ← scanFrom m (tagLine + Text.lineFeeds source) (endsEscaped source) rest'
      .ok (literal line raw ++ ⟨tagLine, tag kind content⟩ :: following)
termination_by cs.length
decreasing_by
  have h₁ := m.length_lt_of_untilTag _hu
  have h₂ := congrArg List.length (append_of_balanced _hb)
  simp only [List.length_append] at h₂
  omega

/-- The segments of a text. -/
def scan (m : Markup) (cs : List Char) : Except Unterminated (List LocatedSegment) := scanFrom m 1 false cs

end Segment

end Stencil
