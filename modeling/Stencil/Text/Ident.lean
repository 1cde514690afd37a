/-!
# Identifiers

An identifier is an ASCII letter or an underscore, and any number of further ASCII letters, digits and underscores.
-/

namespace Stencil.Text

/-- The first character of an identifier. -/
def isIdentStart (c : Char) : Bool := c.isAlpha || c == '_'

/-- A further character of an identifier. -/
def isIdentRest (c : Char) : Bool := c.isAlphanum || c == '_'

/-- The text is an identifier. -/
def isIdent : List Char → Bool
  | [] => false
  | c :: cs => isIdentStart c && cs.all isIdentRest

theorem isIdentRest_of_isIdentStart {c : Char} (h : isIdentStart c = true) : isIdentRest c = true := by
  simp only [isIdentStart, isIdentRest, Char.isAlphanum, Bool.or_eq_true] at h ⊢
  rcases h with h | h
  · exact .inl (.inl h)
  · exact .inr h

end Stencil.Text
