import Stencil.Number.Reading
import Stencil.Script.Lexeme
import Stencil.Text.Bytes
import Stencil.Text.Ident

/-!
# Cutting code into lexemes

Code is cut into the longest lexemes from the left. Between them stand blanks, tabs, line breaks and form feeds. `cut`
gives the lexeme at the start of a text with the characters that it takes up, and `lexemes` all lexemes of a piece of
code with their places in bytes.

Where no lexeme starts, the offending character is reported. A string that does not end is reported up to the point
where it cannot go on, and an integer beyond the signed 64-bit integers as a whole.
-/

namespace Stencil.Script

/-- A character that may stand between lexemes. -/
def isGap (c : Char) : Bool := c == ' ' || c == '\t' || c == '\r' || c == '\n' || c == '\x0c'

/-- The lexeme at the start of a text, or the text that is no lexeme. -/
inductive Cut
  | lexeme (l : Lexeme) (taken rest : List Char)
  | stuck (slice : List Char)

/-- The character that stands for itself and a backslash in a string. -/
def unescaped : Char → Char
  | 'n' => '\n'
  | 't' => '\t'
  | 'r' => '\r'
  | '0' => '\x00'
  | c => c

/-- What a string holds after its opening quote. -/
structure StringBody where
  /-- The characters denoted. -/
  value : List Char
  /-- The characters of the code, the closing quote included. -/
  taken : List Char
  rest : List Char

/-- The body of a string that ends in the given quote, or the part of it that is complete. -/
def stringBody (quote : Char) : List Char → Except (List Char) StringBody
  | [] => .error []
  | '\\' :: e :: cs =>
    if e == '\n' then .error []
    else match stringBody quote cs with
      | .ok b => .ok ⟨unescaped e :: b.value, '\\' :: e :: b.taken, b.rest⟩
      | .error slice => .error ('\\' :: e :: slice)
  | c :: cs =>
    if c == quote then .ok ⟨[], [c], cs⟩
    else if c == '\\' then .error []
    else match stringBody quote cs with
      | .ok b => .ok ⟨c :: b.value, c :: b.taken, b.rest⟩
      | .error slice => .error (c :: slice)

/-- The lexeme that a name is, a word of the language or an identifier. -/
def ofName (name : String) : Lexeme :=
  match Symbol.words.lookup name with
  | some s => .symbol s
  | none => .ident name

/-- A number at the start of a text: digits, and digits behind a point if there are any. -/
def cutNumber (cs : List Char) : Cut :=
  let whole := cs.takeWhile Char.isDigit
  let rest := cs.dropWhile Char.isDigit
  let integer :=
    let n := Number.ofDigits whole
    if n < 0x8000000000000000 then .lexeme (.int n) whole rest else .stuck whole
  match rest with
  | '.' :: more =>
    match more.takeWhile Char.isDigit with
    | [] => integer
    | fraction =>
      .lexeme (.float (Number.nearest (Number.ofDigits (whole ++ fraction)) (-fraction.length)))
        (whole ++ '.' :: fraction) (more.dropWhile Char.isDigit)
  | _ => integer

/-- The lexeme at the start of a text that does not start with a gap. -/
def cut : List Char → Cut
  | [] => .stuck []
  | c :: cs =>
    if Text.isIdentStart c then
      let name := c :: cs.takeWhile Text.isIdentRest
      .lexeme (ofName (String.ofList name)) name (cs.dropWhile Text.isIdentRest)
    else if c.isDigit then cutNumber (c :: cs)
    else if c == '"' || c == '\'' then
      match stringBody c cs with
      | .ok b => .lexeme (.string (String.ofList b.value)) (c :: b.taken) b.rest
      | .error slice => .stuck (c :: slice)
    else match Symbol.signs.find? fun sign => sign.1.toList.isPrefixOf (c :: cs) with
      | some (sign, s) => .lexeme (.symbol s) sign.toList ((c :: cs).drop sign.length)
      | none => .stuck [c]

theorem stringBody_append {quote : Char} {cs : List Char} {b : StringBody} (h : stringBody quote cs = .ok b) :
    b.taken ++ b.rest = cs := by
  fun_induction stringBody quote cs generalizing b with
  | case1 => cases h
  | case2 => cases h
  | case3 e cs _ b' hb ih => cases h; simp [ih hb]
  | case4 => cases h
  | case5 => cases h; rfl
  | case6 => cases h
  | case7 c cs _ _ _ b' hb ih => cases h; simp [ih hb]
  | case8 => cases h

theorem cutNumber_append {cs taken rest : List Char} {l : Lexeme} (h : cutNumber cs = .lexeme l taken rest) :
    taken ++ rest = cs := by
  have hw := List.takeWhile_append_dropWhile (p := Char.isDigit) (l := cs)
  have hint : ∀ {t r : List Char} {l : Lexeme}, (if Number.ofDigits (cs.takeWhile Char.isDigit) < 0x8000000000000000 then
      Cut.lexeme (.int (Number.ofDigits (cs.takeWhile Char.isDigit))) (cs.takeWhile Char.isDigit)
        (cs.dropWhile Char.isDigit)
      else .stuck (cs.takeWhile Char.isDigit)) = .lexeme l t r → t ++ r = cs := fun h => by
    split at h
    · cases h; exact hw
    · cases h
  simp only [cutNumber] at h
  split at h
  · next more hm =>
    split at h
    · exact hint h
    · cases h
      rw [List.append_assoc, List.cons_append, List.takeWhile_append_dropWhile, ← hm, hw]
  · exact hint h

theorem cut_append {cs taken rest : List Char} {l : Lexeme} (h : cut cs = .lexeme l taken rest) :
    taken ++ rest = cs := by
  cases cs with
  | nil => cases h
  | cons c cs =>
    simp only [cut] at h
    split at h
    · cases h; simp
    · split at h
      · exact cutNumber_append h
      · split at h
        · split at h
          · next b hb => cases h; simp [stringBody_append hb]
          · cases h
        · split at h
          · next sign s hf =>
            cases h
            have := List.find?_some hf
            simp only [List.isPrefixOf_iff_prefix] at this
            exact List.prefix_iff_eq_append.mp (by simpa using this)
          · cases h

theorem length_lt_of_cut {cs taken rest : List Char} {l : Lexeme} (h : cut cs = .lexeme l taken rest) :
    rest.length < cs.length := by
  have happ := cut_append h
  have hne : taken ≠ [] := by
    rintro rfl
    cases cs with
    | nil => cases h
    | cons c cs =>
      simp only [cut] at h
      split at h
      · cases h
      · split at h
        · next hd =>
          simp only [cutNumber] at h
          repeat' split at h
          all_goals simp_all
        · split at h
          · split at h <;> cases h
          · split at h
            · next sign s hf =>
              have hsign : ∀ entry ∈ Symbol.signs, entry.1.toList ≠ [] := by decide
              exact hsign _ (List.mem_of_find?_eq_some hf) (by injection h)
            · cases h
  have := List.length_pos_iff.mpr hne
  have := congrArg List.length happ
  simp only [List.length_append] at this
  omega

/-- The lexemes of a text that starts at the given byte. -/
def lexemesFrom (offset : Nat) (cs : List Char) : Except SyntaxError (List LocatedLexeme) :=
  match cs with
  | [] => .ok []
  | c :: rest =>
    if isGap c then lexemesFrom (offset + 1) rest
    else match _h : cut (c :: rest) with
      | .stuck slice => .error (.unexpectedText (String.ofList slice) offset)
      | .lexeme l taken rest' => do
        let stop := offset + Text.byteSize taken
        let following ← lexemesFrom stop rest'
        .ok (⟨l, offset, stop⟩ :: following)
termination_by cs.length
decreasing_by
  · simp
  · exact length_lt_of_cut _h

@[simp] theorem lexemesFrom_nil (offset : Nat) : lexemesFrom offset [] = .ok [] := by
  rw [lexemesFrom]

/-- One step: a gap is passed over, and a lexeme comes before those of the rest. -/
theorem lexemesFrom_cons (offset : Nat) (c : Char) (cs : List Char) :
    lexemesFrom offset (c :: cs) =
      if isGap c then lexemesFrom (offset + 1) cs
      else match cut (c :: cs) with
        | .stuck slice => .error (.unexpectedText (String.ofList slice) offset)
        | .lexeme l taken rest =>
          (lexemesFrom (offset + Text.byteSize taken) rest).map (⟨l, offset, offset + Text.byteSize taken⟩ :: ·) := by
  rw [lexemesFrom]
  by_cases hgap : isGap c
  · rw [if_pos hgap, if_pos hgap]
  · rw [if_neg hgap, if_neg hgap]
    split
    · next hcut => rw [hcut]
    · next taken rest hcut =>
      rw [hcut]
      dsimp only
      cases lexemesFrom (offset + Text.byteSize taken) rest <;> rfl

/-- The lexemes of a piece of code. -/
def lexemes (code : String) : Except SyntaxError (List LocatedLexeme) := lexemesFrom 0 code.toList

end Stencil.Script
