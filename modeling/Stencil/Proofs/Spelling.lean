import Mathlib.Data.List.Chain
import Stencil.Script.Grammar

/-!
# Laying out lexemes

A lexeme is spelled in one of its ways (`Spells`), and a text lays out lexemes if it holds their spellings in order,
with any gaps in front of them, between them and behind them (`LaysOut`). Cutting takes the longest lexeme, so that a
spelling without a gap behind it might be prolonged by the next one. That does not happen if the first of the two is
complete in itself, or if the second one begins with a character that prolongs nothing (`Lexeme.MayStandBefore`).

Lexemes of which each may stand before the next are cut from every text that lays them out (`bareLexemes_of_laysOut`).
-/

namespace Stencil.Script

/-! ## Spellings -/

/-- The name can be used as it is: it is an identifier and no word of the language. -/
def IsName (name : String) : Prop := Text.isIdent name.toList = true ∧ Symbol.words.lookup name = none

instance (name : String) : Decidable (IsName name) := inferInstanceAs (Decidable (_ ∧ _))

/-- The text between double quotes that denotes the characters: a backslash stands before each quote and backslash. -/
def escaped : List Char → List Char
  | [] => []
  | c :: cs => if c = '"' ∨ c = '\\' then '\\' :: c :: escaped cs else c :: escaped cs

/-- The ways to write a lexeme. -/
inductive Spells : Lexeme → List Char → Prop
  | symbol {spelling : String} {s : Symbol} :
    (spelling, s) ∈ Symbol.words ++ Symbol.signs → Spells (.symbol s) spelling.toList
  | int {n : Nat} : n < 0x8000000000000000 → Spells (.int n) (Nat.toDigits 10 n)
  | string (s : String) : Spells (.string s) ('"' :: (escaped s.toList ++ ['"']))
  | ident {name : String} : IsName name → Spells (.ident name) name.toList

/-- The text holds the lexemes with gaps around them, which may be empty. -/
inductive LaysOut : List Char → List Lexeme → Prop
  | nil {gap : List Char} : (∀ c ∈ gap, isGap c = true) → LaysOut gap []
  | cons {gap spelling cs : List Char} {l : Lexeme} {ls : List Lexeme} :
    (∀ c ∈ gap, isGap c = true) → Spells l spelling → LaysOut cs ls → LaysOut (gap ++ (spelling ++ cs)) (l :: ls)

/-! ## What may follow a spelling -/

/-- A bracket, or a sign that separates items. -/
def Symbol.isDelimiter : Symbol → Bool
  | .leftParen | .rightParen | .leftBracket | .rightBracket | .leftBrace | .rightBrace | .comma | .colon => true
  | _ => false

/-- Nothing that follows the lexeme prolongs it. -/
def Lexeme.isComplete : Lexeme → Bool
  | .symbol s => s.isDelimiter || s == .dot
  | .string _ => true
  | _ => false

/-- The lexeme prolongs nothing that it follows. -/
def Lexeme.isApart : Lexeme → Bool
  | .symbol s => s.isDelimiter
  | _ => false

/-- The second lexeme may follow the first without a gap. -/
def Lexeme.MayStandBefore (l l' : Lexeme) : Prop := l.isComplete = true ∨ l'.isApart = true

/-- The character may prolong a lexeme that it follows: a name, a number or a sign. -/
def prolongs (c : Char) : Bool := Text.isIdentRest c || c == '.' || c == '='

/-- The text does not begin with a character that prolongs a lexeme. -/
def ProlongsNothing (cs : List Char) : Prop := ∀ c ∈ cs.head?, prolongs c = false

theorem prolongsNothing_cons {c : Char} {cs : List Char} : ProlongsNothing (c :: cs) ↔ prolongs c = false := by
  simp [ProlongsNothing]

theorem isGap_cases {c : Char} (h : isGap c = true) : c = ' ' ∨ c = '\t' ∨ c = '\r' ∨ c = '\n' ∨ c = '\x0c' := by
  simpa only [isGap, Bool.or_eq_true, beq_iff_eq, or_assoc] using h

theorem prolongs_of_isGap {c : Char} (h : isGap c = true) : prolongs c = false := by
  rcases isGap_cases h with rfl | rfl | rfl | rfl | rfl <;> decide

theorem prolongs_of_isIdentRest {c : Char} (h : Text.isIdentRest c = true) : prolongs c = true := by
  simp [prolongs, h]

theorem isIdentRest_of_isDigit {c : Char} (h : c.isDigit = true) : Text.isIdentRest c = true := by
  simp [Text.isIdentRest, Char.isAlphanum, h]

theorem isIdentStart_of_isDigit {c : Char} (h : c.isDigit = true) : Text.isIdentStart c = false := by
  rw [Text.isIdentStart, Bool.or_eq_false_iff, beq_eq_false_iff_ne]
  refine ⟨?_, fun heq => by subst heq; cases h⟩
  have hupper : c.isUpper = decide ('A'.val ≤ c.val ∧ c.val ≤ 'Z'.val) := rfl
  have hlower : c.isLower = (decide ('a'.val ≤ c.val) && decide (c.val ≤ 'z'.val)) := rfl
  have hdigit : c.val ≤ '9'.val := of_decide_eq_true (Bool.and_eq_true_iff.mp h).2
  -- the letters are above the digits
  have habove : ∀ v : UInt32, '9'.val < v → ¬v ≤ c.val := fun v hv =>
    UInt32.not_le.mpr (UInt32.lt_of_le_of_lt hdigit hv)
  refine Bool.or_eq_false_iff.mpr ⟨?_, ?_⟩
  · rw [hupper]
    exact decide_eq_false fun hletter => habove _ (by decide) hletter.1
  · rw [hlower, decide_eq_false (habove _ (by decide)), Bool.false_and]

theorem isGap_of_isIdentRest {c : Char} (h : Text.isIdentRest c = true) : isGap c = false := by
  refine Bool.eq_false_iff.mpr fun hgap => ?_
  cases (prolongs_of_isIdentRest h).symm.trans (prolongs_of_isGap hgap)

theorem exists_cons_of_isIdent {cs : List Char} (h : Text.isIdent cs = true) :
    ∃ c rest, cs = c :: rest ∧ Text.isIdentStart c = true ∧ ∀ c' ∈ rest, Text.isIdentRest c' = true := by
  cases cs with
  | nil => cases h
  | cons c rest =>
    rw [Text.isIdent, Bool.and_eq_true, List.all_eq_true] at h
    exact ⟨c, rest, rfl, h⟩

/-- The first character of a spelling is not a gap, and it prolongs nothing if the lexeme does not. -/
theorem Spells.exists_cons {l : Lexeme} {spelling : List Char} (h : Spells l spelling) :
    ∃ c cs, spelling = c :: cs ∧ isGap c = false ∧ (l.isApart = true → prolongs c = false) := by
  cases h with
  | @symbol spelling s hs =>
    have hall : ∀ entry ∈ Symbol.words ++ Symbol.signs,
        entry.1.toList.head?.any (fun c => !isGap c && (!entry.2.isDelimiter || !prolongs c)) = true := by decide
    obtain ⟨c, hc, hfirst⟩ := (Option.any_eq_true _ _).mp (hall _ hs)
    obtain ⟨cs, hcs⟩ := List.head?_eq_some_iff.mp hc
    simp only [Bool.and_eq_true, Bool.not_eq_true', Bool.or_eq_true] at hfirst
    exact ⟨c, cs, hcs, hfirst.1, fun hdelimiter => hfirst.2.resolve_left (Bool.not_eq_false _ ▸ hdelimiter)⟩
  | @int n hn =>
    obtain ⟨c, cs, hcs⟩ := List.exists_cons_of_ne_nil (Nat.toDigits_ne_nil (n := n) (b := 10))
    have hdigit := Nat.isDigit_of_mem_toDigits (b := 10) (by decide) (by decide) (hcs ▸ List.mem_cons_self)
    exact ⟨c, cs, hcs, isGap_of_isIdentRest (isIdentRest_of_isDigit hdigit), nofun⟩
  | string s => exact ⟨_, _, rfl, by decide, nofun⟩
  | ident hname =>
    obtain ⟨c, cs, hcs, hstart, -⟩ := exists_cons_of_isIdent hname.1
    exact ⟨c, cs, hcs, isGap_of_isIdentRest (Text.isIdentRest_of_isIdentStart hstart), nofun⟩

/-! ## Cutting a spelling -/

section Cut

variable {cs : List Char}

/-- What is taken of a text ends where a character is met that is not wanted. -/
theorem takeWhile_dropWhile_append {p : Char → Bool} {front : List Char} (hfront : ∀ c ∈ front, p c = true)
    (hcs : ∀ c ∈ cs.head?, p c = false) :
    (front ++ cs).takeWhile p = front ∧ (front ++ cs).dropWhile p = cs := by
  rw [List.takeWhile_append_of_pos hfront, List.dropWhile_append_of_pos hfront]
  cases cs with
  | nil => simp
  | cons c cs => simp [hcs c rfl]

theorem cut_name {name : String} (h : Text.isIdent name.toList = true) (hcs : ProlongsNothing cs) :
    cut (name.toList ++ cs) = .lexeme (ofName name) name.toList cs := by
  obtain ⟨c, rest, hname, hstart, hrest⟩ := exists_cons_of_isIdent h
  have hends : ∀ c ∈ cs.head?, Text.isIdentRest c = false := fun c h =>
    Bool.eq_false_iff.mpr fun hrest => nomatch (prolongs_of_isIdentRest hrest).symm.trans (hcs c h)
  obtain ⟨htake, hdrop⟩ := takeWhile_dropWhile_append hrest hends
  rw [hname, List.cons_append, cut, if_pos hstart, htake, hdrop, ← hname]
  dsimp only
  rw [String.ofList_toList]

theorem cut_of_isDigit {c : Char} (h : c.isDigit = true) (cs : List Char) : cut (c :: cs) = cutNumber (c :: cs) := by
  rw [cut, isIdentStart_of_isDigit h, if_neg Bool.false_ne_true, if_pos h]

theorem cut_digits {n : Nat} (hn : n < 0x8000000000000000) (hcs : ProlongsNothing cs) :
    cut (Nat.toDigits 10 n ++ cs) = .lexeme (.int n) (Nat.toDigits 10 n) cs := by
  have hdigits : ∀ c ∈ Nat.toDigits 10 n, c.isDigit = true :=
    fun c h => Nat.isDigit_of_mem_toDigits (by decide) (by decide) h
  have hends : ∀ c ∈ cs.head?, c.isDigit = false := fun c h => Bool.eq_false_iff.mpr fun hdigit =>
    nomatch (prolongs_of_isIdentRest (isIdentRest_of_isDigit hdigit)).symm.trans (hcs c h)
  have hvalue : Number.ofDigits (Nat.toDigits 10 n) = n := Nat.ofDigitChars_toDigits (by decide) (by decide)
  obtain ⟨htake, hdrop⟩ := takeWhile_dropWhile_append hdigits hends
  have hnumber : cutNumber (Nat.toDigits 10 n ++ cs) = .lexeme (.int n) (Nat.toDigits 10 n) cs := by
    rw [cutNumber, htake, hdrop, hvalue, if_pos hn]
    split
    · cases hcs '.' rfl
    · rfl
  obtain ⟨c, front, hfront⟩ := List.exists_cons_of_ne_nil (Nat.toDigits_ne_nil (n := n) (b := 10))
  rw [hfront, List.cons_append] at hnumber ⊢
  rw [cut_of_isDigit (hdigits c (hfront ▸ List.mem_cons_self)), hnumber]

theorem stringBody_escaped (s : List Char) :
    stringBody '"' (escaped s ++ '"' :: cs) = .ok ⟨s, escaped s ++ ['"'], cs⟩ := by
  induction s with
  | nil => rfl
  | cons c s ih =>
    rw [escaped]
    split
    · next hc => rcases hc with rfl | rfl <;> simp [stringBody, ih, unescaped]
    · next hc =>
      obtain ⟨hquote, hslash⟩ := not_or.mp hc
      rw [List.cons_append, stringBody.eq_3 _ _ _ ?_, ih]
      · simp [hquote, hslash]
      · intro e cs' h
        exact fun _ => hslash h

/-- A sign that begins with another one is that one, or adds the equals sign to one that is not complete. -/
theorem signs_prolonged : ∀ entry ∈ Symbol.signs, ∀ longer ∈ Symbol.signs, entry.1.toList <+: longer.1.toList →
    longer = entry ∨ longer.1.toList = entry.1.toList ++ ['='] ∧ (Lexeme.symbol entry.2).isComplete = false := by
  decide

/-- The first sign that a sign begins with is itself. -/
theorem find?_signs_self : ∀ entry ∈ Symbol.signs,
    (Symbol.signs.find? fun sign => sign.1.toList.isPrefixOf entry.1.toList) = some entry := by
  decide

theorem find?_signs {entry : String × Symbol} (hentry : entry ∈ Symbol.signs)
    (hcs : (Lexeme.symbol entry.2).isComplete = true ∨ ProlongsNothing cs) :
    (Symbol.signs.find? fun sign => sign.1.toList.isPrefixOf (entry.1.toList ++ cs)) = some entry := by
  rw [← find?_signs_self entry hentry, ← List.head?_filter, ← List.head?_filter]
  refine congrArg List.head? (List.filter_congr fun sign hsign => ?_)
  rw [Bool.eq_iff_iff, List.isPrefixOf_iff_prefix, List.isPrefixOf_iff_prefix]
  refine ⟨fun h => ?_, fun h => h.trans (List.prefix_append ..)⟩
  rcases List.prefix_or_prefix_of_prefix h (List.prefix_append ..) with hle | hle
  · exact hle
  · rcases signs_prolonged entry hentry sign hsign hle with rfl | ⟨heq, hopen⟩
    · exact List.prefix_rfl
    · rw [heq, List.prefix_append_right_inj] at h
      obtain ⟨rest, rfl⟩ := h
      rcases hcs with hcomplete | hcs
      · cases hcomplete.symm.trans hopen
      · cases hcs '=' rfl

theorem cut_sign {entry : String × Symbol} (hentry : entry ∈ Symbol.signs)
    (hcs : (Lexeme.symbol entry.2).isComplete = true ∨ ProlongsNothing cs) :
    cut (entry.1.toList ++ cs) = .lexeme (.symbol entry.2) entry.1.toList cs := by
  have hall : ∀ entry ∈ Symbol.signs, entry.1.toList.head?.any (fun c =>
      !Text.isIdentStart c && !c.isDigit && !(c == '"' || c == '\'')) = true := by decide
  obtain ⟨c, hc, hfirst⟩ := (Option.any_eq_true _ _).mp (hall entry hentry)
  obtain ⟨front, hfront⟩ := List.head?_eq_some_iff.mp hc
  simp only [Bool.and_eq_true, Bool.not_eq_true'] at hfirst
  obtain ⟨⟨hstart, hdigit⟩, hquote⟩ := hfirst
  have hrest : (entry.1.toList ++ cs).drop entry.1.length = cs := List.drop_left' String.length_toList
  have hfind := find?_signs hentry hcs
  rw [hfront, List.cons_append] at hfind hrest ⊢
  rw [cut, hstart, hdigit, hquote, if_neg Bool.false_ne_true, if_neg Bool.false_ne_true, if_neg Bool.false_ne_true,
    hfind]
  dsimp only
  rw [hrest, hfront]

/-- A spelling that is not prolonged is cut as a whole. -/
theorem cut_of_spells {l : Lexeme} {spelling : List Char} (h : Spells l spelling)
    (hcs : l.isComplete = true ∨ ProlongsNothing cs) : cut (spelling ++ cs) = .lexeme l spelling cs := by
  cases h with
  | @symbol spelling s hs =>
    rcases List.mem_append.mp hs with hword | hsign
    · have hall : ∀ entry ∈ Symbol.words, Text.isIdent entry.1.toList = true ∧
          Symbol.words.lookup entry.1 = some entry.2 ∧ (Lexeme.symbol entry.2).isComplete = false := by decide
      obtain ⟨hident, hlookup, hopen⟩ := hall _ hword
      rw [cut_name hident (hcs.resolve_left (Bool.eq_false_iff.mp hopen)), ofName, hlookup]
    · exact cut_sign hsign hcs
  | int hn => exact cut_digits hn (hcs.resolve_left Bool.false_ne_true)
  | string s =>
    have hbody : stringBody '"' (escaped s.toList ++ ['"'] ++ cs) = .ok ⟨s.toList, escaped s.toList ++ ['"'], cs⟩ := by
      rw [List.append_assoc]
      exact stringBody_escaped s.toList
    rw [List.cons_append, cut, if_neg (by decide), if_neg (by decide), if_pos (by decide), hbody]
    dsimp only
    rw [String.ofList_toList]
  | ident hname => rw [cut_name hname.1 (hcs.resolve_left Bool.false_ne_true), ofName, hname.2]

end Cut

/-! ## Cutting a text -/

/-- Gaps are passed over. -/
theorem lexemesFrom_gap {gap : List Char} (hgap : ∀ c ∈ gap, isGap c = true) (cs : List Char) (offset : Nat) :
    lexemesFrom offset (gap ++ cs) = lexemesFrom (offset + gap.length) cs := by
  induction gap generalizing offset with
  | nil => rfl
  | cons c gap ih =>
    obtain ⟨hc, hgap⟩ := List.forall_mem_cons.mp hgap
    rw [List.cons_append, lexemesFrom_cons, if_pos hc, ih hgap, List.length_cons, Nat.add_assoc, Nat.add_comm 1]

/-- A lexeme at the start of a text comes before the lexemes of the rest. -/
theorem lexemesFrom_of_cut {cs spelling rest : List Char} {l : Lexeme} (hgap : ∀ c ∈ cs.head?, isGap c = false)
    (hcut : cut cs = .lexeme l spelling rest) (offset : Nat) : lexemesFrom offset cs =
      (lexemesFrom (offset + Text.byteSize spelling) rest).map (⟨l, offset, offset + Text.byteSize spelling⟩ :: ·) := by
  cases cs with
  | nil => cases hcut
  | cons c cs =>
    rw [lexemesFrom_cons, hgap c rfl, if_neg Bool.false_ne_true, hcut]

/-- What follows a lexeme in a text that lays out lexemes does not prolong it. -/
theorem LaysOut.prolongsNothing {l : Lexeme} {ls : List Lexeme} {cs : List Char} (h : LaysOut cs ls)
    (hl : ∀ l' ∈ ls.head?, l.MayStandBefore l') : l.isComplete = true ∨ ProlongsNothing cs := by
  have hfront : ∀ {gap behind : List Char}, (∀ c ∈ gap, isGap c = true) →
      (l.isComplete = true ∨ ProlongsNothing behind) → l.isComplete = true ∨ ProlongsNothing (gap ++ behind) := by
    rintro (_ | ⟨c, gap⟩) behind hgap hbehind
    · exact hbehind
    · exact .inr (prolongsNothing_cons.mpr (prolongs_of_isGap (hgap c List.mem_cons_self)))
  cases h with
  | nil hgap =>
    rw [← List.append_nil cs]
    exact hfront hgap (.inr nofun)
  | @cons gap spelling cs l' ls hgap hspells hrest =>
    obtain ⟨c, front, rfl, -, hapart⟩ := hspells.exists_cons
    exact hfront hgap ((hl l' rfl).imp_right fun h => prolongsNothing_cons.mpr (hapart h))

theorem lexemesFrom_of_laysOut {ls : List Lexeme} {cs : List Char} (h : LaysOut cs ls)
    (hls : ls.IsChain Lexeme.MayStandBefore) (offset : Nat) :
    ∃ located, lexemesFrom offset cs = .ok located ∧ located.map LocatedLexeme.lexeme = ls := by
  induction h generalizing offset with
  | @nil gap hgap =>
    refine ⟨[], ?_, rfl⟩
    have := lexemesFrom_gap hgap [] offset
    rw [List.append_nil] at this
    rw [this, lexemesFrom_nil]
  | @cons gap spelling cs l ls hgap hspells hrest ih =>
    obtain ⟨hl, hls⟩ := List.isChain_cons.mp hls
    obtain ⟨located, hlocated, hmap⟩ := ih hls (offset + gap.length + Text.byteSize spelling)
    obtain ⟨c, front, hspelling, hc, -⟩ := hspells.exists_cons
    have hhead : ∀ c ∈ (spelling ++ cs).head?, isGap c = false := by
      rw [hspelling]
      rintro _ ⟨⟩
      exact hc
    have hcut := cut_of_spells hspells (hrest.prolongsNothing hl)
    have hfront := (lexemesFrom_gap hgap _ offset).trans (lexemesFrom_of_cut hhead hcut _)
    rw [hlocated] at hfront
    exact ⟨_, hfront, by rw [List.map_cons, hmap]⟩

/-- Lexemes are cut from every text that lays them out. -/
theorem bareLexemes_of_laysOut {ls : List Lexeme} {code : String} (h : LaysOut code.toList ls)
    (hls : ls.IsChain Lexeme.MayStandBefore) : bareLexemes code = .ok ls := by
  obtain ⟨located, hlocated, rfl⟩ := lexemesFrom_of_laysOut h hls 0
  rw [bareLexemes, lexemes, hlocated]
  rfl

end Stencil.Script
