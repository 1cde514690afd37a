import Stencil.Text.CaseTable

/-!
# Upper and lower case

`upper` and `lower` are the full case mappings of Unicode: a character may become several, and a capital sigma becomes
the final form at the end of a word. A word ends there when the nearest character before it that is not skipped is a
letter with case and the nearest one after it is not.
-/

namespace Stencil.Text

/-- The image of a code point under the rows of a case map. -/
def mapped? (rows : List (Nat × Nat × Nat × Nat)) (n : Nat) : Option Nat :=
  rows.findSome? fun (first, last, step, image) =>
    if first ≤ n && n ≤ last && (n - first) % step == 0 then some (image + (n - first)) else none

/-- The upper case form of a character. -/
def upperChar (c : Char) : List Char :=
  if c.toNat < 0x80 then [c.toUpper]
  else match mapped? upperRows c.toNat with
    | some n => [Char.ofNat n]
    | none => match upperExpansions.lookup c.toNat with
      | some ns => ns.map Char.ofNat
      | none => [c]

/-- The lower case form of a character other than a capital sigma at the end of a word. -/
def lowerChar (c : Char) : List Char :=
  if c.toNat < 0x80 then [c.toLower]
  else if c.toNat == 0x130 then ['i', Char.ofNat 0x307]
  else match mapped? lowerRows c.toNat with
    | some n => [Char.ofNat n]
    | none => [c]

/-- The first character that is not skipped is a letter with case. -/
def meetsCased (cs : List Char) : Bool :=
  match cs.dropWhile fun c => inRanges caseIgnorable c.toNat with
  | [] => false
  | c :: _ => inRanges cased c.toNat

/-- Lower case, with the characters before the rest given nearest first. -/
def lowerFrom (before : List Char) : List Char → List (List Char)
  | [] => []
  | c :: cs =>
    let image := if c == 'Σ' then [if meetsCased before && !meetsCased cs then 'ς' else 'σ'] else lowerChar c
    image :: lowerFrom (c :: before) cs

/-- The text in upper case. -/
def upper (text : String) : String := String.ofList (text.toList.flatMap upperChar)

/-- The text in lower case. -/
def lower (text : String) : String :=
  if text.contains 'Σ' then String.ofList (lowerFrom [] text.toList).flatten
  else String.ofList (text.toList.flatMap lowerChar)

end Stencil.Text
