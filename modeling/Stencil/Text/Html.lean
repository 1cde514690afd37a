/-!
# HTML text

Text is made safe to stand in HTML, between tags or in a quoted attribute, by writing an entity for each of the five
characters that have a meaning there.
-/

namespace Stencil.Text

/-- A character as it stands in HTML text. -/
def htmlChar : Char → List Char
  | '&' => ['&', 'a', 'm', 'p', ';']
  | '<' => ['&', 'l', 't', ';']
  | '>' => ['&', 'g', 't', ';']
  | '"' => ['&', 'q', 'u', 'o', 't', ';']
  | '\'' => ['&', '#', '3', '9', ';']
  | c => [c]

/-- The text with entities for the characters that have a meaning in HTML. -/
def html (text : String) : String := String.ofList (text.toList.flatMap htmlChar)

end Stencil.Text
