import Stencil.Text.Blank
import Stencil.Text.Ident

/-!
# Directives

A statement whose whole body, blanks at its ends aside, has one of four forms directs how templates inherit from one
another. `w` is a run of blanks:

* `extends w q name q`, where each `q` is a quote of either kind and `name` holds no quote and is not empty;
* `block w name`, where `name` is an identifier, with a colon in front or not;
* `endblock`, or `endblock w name`;
* `blocksuper` or `block_super`.

`Directive.ofBody?` recognises them; any other statement belongs to the script.
-/

namespace Stencil

/-- A statement that directs inheritance. -/
inductive Directive
  | inherits (name : String)
  | openBlock (name : String)
  | closeBlock
  | superBlock
  deriving DecidableEq, Repr

namespace Directive

/-- A quote of either kind. -/
def isQuote (c : Char) : Bool := c == '"' || c == '\''

/-- What follows a word and the blanks behind it; there is at least one blank. -/
def afterWord? (word : String) (cs : List Char) : Option (List Char) :=
  if word.toList.isPrefixOf cs then
    match cs.drop word.length with
    | c :: rest => if Text.isBlank c then some (rest.dropWhile Text.isBlank) else none
    | [] => none
  else none

/-- The name between quotes that a text consists of. -/
def quotedName? : List Char → Option String
  | q :: rest =>
    let name := rest.takeWhile (!isQuote ·)
    if isQuote q && !name.isEmpty && (rest.dropWhile (!isQuote ·)).length == 1 then some (String.ofList name) else none
  | [] => none

/-- The identifier, with a colon in front or not, that a text consists of. -/
def blockName? (cs : List Char) : Option String :=
  let name := match cs with
    | ':' :: rest => rest
    | cs => cs
  if Text.isIdent name then some (String.ofList name) else none

/-- The directive that a text without blanks at its ends consists of. -/
def ofTrimmed? (cs : List Char) : Option Directive :=
  if cs = "endblock".toList then some closeBlock
  else if cs = "blocksuper".toList ∨ cs = "block_super".toList then some superBlock
  else match afterWord? "extends" cs with
    | some rest => (quotedName? rest).map inherits
    | none => match afterWord? "block" cs with
      | some rest => (blockName? rest).map openBlock
      | none => match afterWord? "endblock" cs with
        | some rest => (blockName? rest).map fun _ => closeBlock
        | none => none

/-- The directive that a statement body consists of. -/
def ofBody? (body : String) : Option Directive := ofTrimmed? (Text.trim body.toList)

end Directive

end Stencil
