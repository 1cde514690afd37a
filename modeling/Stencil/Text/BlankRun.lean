import Stencil.Text.Blank

/-!
# The leading blank run

A text that follows a strip marker loses its leading blank run: the blanks before its first line break, and the
whole run of line breaks that starts there. The indentation after that run stays, and a text whose first line break
stands behind something visible loses nothing.

`blankRun_append_afterBlankRun` says that the two parts make up the text.
-/

namespace Stencil.Text

/-- A blank that does not end a line. -/
def isInlineBlank (c : Char) : Bool := isBlank c && !isBreak c

/-- The leading blank run: blanks up to the first line break, and the line breaks there; empty if anything else stands
before the first line break or there is none. -/
def blankRun (cs : List Char) : List Char :=
  match (cs.dropWhile isInlineBlank).takeWhile isBreak with
  | [] => []
  | breaks => cs.takeWhile isInlineBlank ++ breaks

/-- What is left once the leading blank run is gone. -/
def afterBlankRun (cs : List Char) : List Char := cs.drop (blankRun cs).length

/-- The text without its leading blank run, and the number of line feeds removed. -/
def stripBlankRun (text : String) : String × Nat :=
  (String.ofList (afterBlankRun text.toList), lineFeeds (blankRun text.toList))

theorem takeWhile_prefix_dropWhile (p q : Char → Bool) (cs : List Char) :
    cs.takeWhile p ++ (cs.dropWhile p).takeWhile q <+: cs := by
  refine ⟨(cs.dropWhile p).dropWhile q, ?_⟩
  rw [List.append_assoc, List.takeWhile_append_dropWhile, List.takeWhile_append_dropWhile]

theorem blankRun_append_afterBlankRun (cs : List Char) : blankRun cs ++ afterBlankRun cs = cs := by
  have h : blankRun cs <+: cs := by
    unfold blankRun
    split
    · exact List.nil_prefix
    · exact takeWhile_prefix_dropWhile ..
  exact List.prefix_iff_eq_append.mp h

end Stencil.Text
