import Stencil.Proofs.Acceptance
import Stencil.Proofs.Spelling

/-!
# Printing expressions

`Expr.print` writes an expression as lexemes, with every expression in it in parentheses. The grammar makes up the
expression from them (`Expr.Printable.derives`), and any of them may stand before the next (`Expr.Printable.isChain`).
So every text that lays them out is read as the expression (`ofCode_print`).

What can be printed is what code can denote (`Expr.Printable`): a negative integer is the minus sign of an integer, and
a list or a map is written by its items.
-/

namespace Stencil.Script

/-- The lexemes between parentheses. -/
def inParens (ts : List Lexeme) : List Lexeme := .symbol .leftParen :: (ts ++ [.symbol .rightParen])

/-- The symbol of an operator. -/
def UnaryOp.symbol : UnaryOp → Symbol
  | neg => .minus
  | not => .not

/-- The symbol of an operator. -/
def BinaryOp.symbol : BinaryOp → Symbol
  | arithmetic .mul => .star
  | arithmetic .div => .slash
  | arithmetic .rem => .percent
  | arithmetic .add => .plus
  | arithmetic .sub => .minus
  | comparison .eq => .eqEq
  | comparison .ne => .notEq
  | comparison .lt => .lt
  | comparison .le => .ltEq
  | comparison .gt => .gt
  | comparison .ge => .gtEq
  | and => .and
  | or => .or

namespace Expr

/-- The lexeme of a value that code can denote by one. -/
def printValue : Value → List Lexeme
  | .null => [.symbol .nilWord]
  | .bool true => [.symbol .trueWord]
  | .bool false => [.symbol .falseWord]
  | .int n => [.int n.toNat]
  | .float x => [.float x]
  | .string s => [.string s]
  | .list _ | .map _ => []

mutual

/-- The lexemes of an expression, the expressions in it in parentheses and the keys of maps as strings. -/
def print : Expr → List Lexeme
  | literal v => printValue v
  | var name => [.ident name]
  | list items => .symbol .leftBracket :: (printAll items ++ [.symbol .rightBracket])
  | map entries => .symbol .leftBrace :: (printEntries entries ++ [.symbol .rightBrace])
  | member base name => inParens (print base) ++ [.symbol .dot, .ident name]
  | index base place =>
    inParens (print base) ++ .symbol .leftBracket :: (inParens (print place) ++ [.symbol .rightBracket])
  | unary op operand => .symbol op.symbol :: inParens (print operand)
  | binary op left right => inParens (print left) ++ .symbol op.symbol :: inParens (print right)
  | call name args => .ident name :: .symbol .leftParen :: (printAll args ++ [.symbol .rightParen])

/-- The lexemes of expressions, with commas between them. -/
def printAll : List Expr → List Lexeme
  | [] => []
  | [e] => inParens (print e)
  | e :: e' :: es => inParens (print e) ++ .symbol .comma :: printAll (e' :: es)

/-- The lexemes of entries, with commas between them. -/
def printEntries : List (String × Expr) → List Lexeme
  | [] => []
  | [(key, e)] => .string key :: .symbol .colon :: inParens (print e)
  | (key, e) :: entry :: es =>
    .string key :: .symbol .colon :: (inParens (print e) ++ .symbol .comma :: printEntries (entry :: es))

end

/-- The expression can be written as code: its names are no words of the language, and its literals are nil, booleans,
integers of the signed 64-bit range that are not negative, and strings. -/
inductive Printable : Expr → Prop
  | nil : Printable (literal .null)
  | bool (b : Bool) : Printable (literal (.bool b))
  | int {n : Nat} : n < 0x8000000000000000 → Printable (literal (.int n))
  | string (s : String) : Printable (literal (.string s))
  | var {name : String} : IsName name → Printable (var name)
  | list {items : List Expr} : (∀ e ∈ items, Printable e) → Printable (list items)
  | map {entries : List (String × Expr)} : (∀ entry ∈ entries, Printable entry.2) → Printable (map entries)
  | member {base : Expr} {name : String} : Printable base → IsName name → Printable (member base name)
  | index {base place : Expr} : Printable base → Printable place → Printable (index base place)
  | unary {op : UnaryOp} {operand : Expr} : Printable operand → Printable (unary op operand)
  | binary {op : BinaryOp} {left right : Expr} : Printable left → Printable right → Printable (binary op left right)
  | call {name : String} {args : List Expr} : IsName name → (∀ e ∈ args, Printable e) → Printable (call name args)

end Expr

/-! ## The grammar -/

section Grammar

variable {ts : List Lexeme} {e : Expr}

/-- What binds tightest is an expression of every level. -/
theorem Derives.at_level (h : Derives .access ts e) (level : Level) : Derives level ts e := by
  have hsign := Derives.next .sign h
  have hproduct := Derives.next .product hsign
  have hsum := Derives.next .sum hproduct
  have hcomparison := Derives.next .comparison hsum
  have hnot := Derives.next .not hcomparison
  have hand := Derives.next .and hnot
  cases level <;> first | assumption | exact .next .or hand

/-- An expression of any level is one of the loosest level. -/
theorem Derives.loosest {level : Level} (h : Derives level ts e) : Derives .or ts e := by
  have hand (h : Derives .and ts e) := Derives.next .or h
  have hnot (h : Derives .not ts e) := hand (.next .and h)
  have hcomparison (h : Derives .comparison ts e) := hnot (.next .not h)
  have hsum (h : Derives .sum ts e) := hcomparison (.next .comparison h)
  have hproduct (h : Derives .product ts e) := hsum (.next .sum h)
  have hsign (h : Derives .sign ts e) := hproduct (.next .product h)
  cases level
  exacts [h, hand h, hnot h, hcomparison h, hsum h, hproduct h, hsign h, h.of_access]

theorem Derives.inParens (h : Derives .or ts e) : Derives .access (inParens ts) e := .primary (.paren h)

theorem derives_unary (op : UnaryOp) (h : Derives .or ts e) :
    Derives .or (.symbol op.symbol :: Script.inParens ts) (.unary op e) := by
  cases op with
  | neg => exact .loosest (.neg (h.inParens.at_level .sign))
  | not => exact .loosest (.not (h.inParens.at_level .not))

theorem BinaryOp.operator?_symbol (op : BinaryOp) :
    (∃ l : ChainLevel, l.operator? op.symbol = some op) ∨ ∃ c, op = .comparison c ∧ comparison? op.symbol = some c := by
  rcases op with op | op | _ | _
  · cases op <;> first | exact .inl ⟨.sum, rfl⟩ | exact .inl ⟨.product, rfl⟩
  · cases op <;> exact .inr ⟨_, rfl, rfl⟩
  · exact .inl ⟨.and, rfl⟩
  · exact .inl ⟨.or, rfl⟩

theorem derives_binary (op : BinaryOp) {ls rs : List Lexeme} {left right : Expr} (hl : Derives .or ls left)
    (hr : Derives .or rs right) :
    Derives .or (Script.inParens ls ++ .symbol op.symbol :: Script.inParens rs) (.binary op left right) := by
  rcases op.operator?_symbol with ⟨l, h⟩ | ⟨c, rfl, h⟩
  · exact .loosest (.chain (hl.inParens.at_level _) h (hr.inParens.at_level _))
  · exact .loosest (.comparison (hl.inParens.at_level _) h (hr.inParens.at_level _))

theorem items_printAll : ∀ {es : List Expr}, (∀ e ∈ es, Derives .or e.print e) → Items (Expr.printAll es) es
  | [], _ => .nil
  | [e], h => .last (h e List.mem_cons_self).inParens.of_access
  | e :: e' :: es, h => by
    obtain ⟨he, hes⟩ := List.forall_mem_cons.mp h
    exact .cons he.inParens.of_access (items_printAll hes)

theorem entries_printEntries : ∀ {es : List (String × Expr)}, (∀ entry ∈ es, Derives .or entry.2.print entry.2) →
    Entries (Expr.printEntries es) es
  | [], _ => .nil
  | [(key, e)], h => .last (.string key) (h (key, e) List.mem_cons_self).inParens.of_access
  | (key, e) :: entry :: es, h => by
    obtain ⟨he, hes⟩ := List.forall_mem_cons.mp h
    exact .cons (.string key) he.inParens.of_access (entries_printEntries hes)

/-- The lexemes of an expression make it up. -/
theorem Expr.Printable.derives (h : e.Printable) : Derives .or e.print e := by
  induction h with
  | nil => exact .of_access (.primary .nil)
  | bool b =>
    cases b with
    | true => exact .of_access (.primary .true)
    | false => exact .of_access (.primary .false)
  | int _ => exact .of_access (.primary (.int _))
  | string s => exact .of_access (.primary (.string s))
  | var _ => exact .of_access (.primary (.var _))
  | list _ ih => exact .of_access (.primary (.list (items_printAll ih)))
  | map _ ih => exact .of_access (.primary (.map (entries_printEntries ih)))
  | member _ _ ih => exact .of_access (.member _ ih.inParens)
  | index _ _ ihbase ihplace => exact .of_access (.index ihbase.inParens ihplace.inParens.of_access)
  | unary _ ih => exact derives_unary _ ih
  | binary _ _ ihl ihr => exact derives_binary _ ihl ihr
  | call _ _ ih => exact .of_access (.primary (.call _ (items_printAll ih)))

end Grammar

/-! ## The text -/

section Layout

variable {ts us : List Lexeme} {e : Expr}

/-- Lexemes may stand before others if the last one is complete. -/
theorem isChain_append_of_complete (hts : ts.IsChain Lexeme.MayStandBefore) (hus : us.IsChain Lexeme.MayStandBefore)
    (h : ∀ l ∈ ts.getLast?, l.isComplete = true) : (ts ++ us).IsChain Lexeme.MayStandBefore :=
  List.isChain_append.mpr ⟨hts, hus, fun l hl _ _ => .inl (h l hl)⟩

theorem isChain_cons_of_complete {l : Lexeme} (hl : l.isComplete = true) (hts : ts.IsChain Lexeme.MayStandBefore) :
    (l :: ts).IsChain Lexeme.MayStandBefore :=
  List.isChain_cons.mpr ⟨fun _ _ => .inl hl, hts⟩

/-- Brackets can be put around lexemes. -/
theorem isChain_bracketed {l r : Lexeme} (hl : l.isComplete = true) (hr : r.isApart = true)
    (hts : ts.IsChain Lexeme.MayStandBefore) : (l :: (ts ++ [r])).IsChain Lexeme.MayStandBefore := by
  refine isChain_cons_of_complete hl (List.isChain_append.mpr ⟨hts, List.isChain_singleton r, ?_⟩)
  rintro _ _ _ ⟨⟩
  exact .inr hr

theorem isChain_inParens (hts : ts.IsChain Lexeme.MayStandBefore) : (inParens ts).IsChain Lexeme.MayStandBefore :=
  isChain_bracketed rfl rfl hts

/-- Anything may stand behind parentheses. -/
theorem isChain_inParens_append (hts : ts.IsChain Lexeme.MayStandBefore) (hus : us.IsChain Lexeme.MayStandBefore) :
    (inParens ts ++ us).IsChain Lexeme.MayStandBefore := by
  refine isChain_append_of_complete (isChain_inParens hts) hus fun l hl => ?_
  rw [inParens, ← List.cons_append, List.getLast?_append] at hl
  cases hl
  rfl

/-- Anything may stand before parentheses. -/
theorem isChain_cons_inParens (l : Lexeme) (hts : ts.IsChain Lexeme.MayStandBefore) :
    (l :: inParens ts).IsChain Lexeme.MayStandBefore := by
  refine List.isChain_cons.mpr ⟨?_, isChain_inParens hts⟩
  rintro _ ⟨⟩
  exact .inr rfl

theorem isChain_printAll : ∀ {es : List Expr}, (∀ e ∈ es, e.print.IsChain Lexeme.MayStandBefore) →
    (Expr.printAll es).IsChain Lexeme.MayStandBefore
  | [], _ => .nil
  | [e], h => isChain_inParens (h e List.mem_cons_self)
  | e :: e' :: es, h => by
    obtain ⟨he, hes⟩ := List.forall_mem_cons.mp h
    exact isChain_inParens_append he (isChain_cons_of_complete rfl (isChain_printAll hes))

theorem isChain_printEntries : ∀ {es : List (String × Expr)},
    (∀ entry ∈ es, entry.2.print.IsChain Lexeme.MayStandBefore) →
      (Expr.printEntries es).IsChain Lexeme.MayStandBefore
  | [], _ => .nil
  | [(key, e)], h =>
    isChain_cons_of_complete rfl (isChain_cons_of_complete rfl (isChain_inParens (h (key, e) List.mem_cons_self)))
  | (key, e) :: entry :: es, h => by
    obtain ⟨he, hes⟩ := List.forall_mem_cons.mp h
    exact isChain_cons_of_complete rfl (isChain_cons_of_complete rfl
      (isChain_inParens_append he (isChain_cons_of_complete rfl (isChain_printEntries hes))))

/-- Each lexeme of an expression may stand before the next. -/
theorem Expr.Printable.isChain (h : e.Printable) : e.print.IsChain Lexeme.MayStandBefore := by
  induction h with
  | nil | int | string | var => exact List.isChain_singleton _
  | bool b => cases b <;> exact List.isChain_singleton _
  | list _ ih => exact isChain_bracketed rfl rfl (isChain_printAll ih)
  | map _ ih => exact isChain_bracketed rfl rfl (isChain_printEntries ih)
  | member _ _ ih => exact isChain_inParens_append ih (isChain_cons_of_complete rfl (List.isChain_singleton _))
  | index _ _ ihbase ihplace =>
    exact isChain_inParens_append ihbase (isChain_bracketed rfl rfl (isChain_inParens ihplace))
  | unary _ ih => exact isChain_cons_inParens _ ih
  | binary _ _ ihl ihr => exact isChain_inParens_append ihl (isChain_cons_inParens _ ihr)
  | call _ _ ih =>
    refine List.isChain_cons.mpr ⟨?_, isChain_bracketed rfl rfl (isChain_printAll ih)⟩
    rintro _ ⟨⟩
    exact .inr rfl

/-- Every lexeme can be written. -/
def Spellable (ts : List Lexeme) : Prop := ∀ l ∈ ts, ∃ spelling, Spells l spelling

theorem exists_spells_symbol (s : Symbol) : ∃ spelling, Spells (.symbol s) spelling := by
  have hsome : ∃ entry ∈ Symbol.words ++ Symbol.signs, entry.2 = s := by cases s <;> decide
  obtain ⟨⟨spelling, _⟩, hmem, rfl⟩ := hsome
  exact ⟨_, .symbol hmem⟩

theorem spellable_nil : Spellable [] := nofun

theorem spellable_cons {l : Lexeme} : Spellable (l :: ts) ↔ (∃ spelling, Spells l spelling) ∧ Spellable ts :=
  List.forall_mem_cons

theorem spellable_append : Spellable (ts ++ us) ↔ Spellable ts ∧ Spellable us := List.forall_mem_append

theorem spellable_symbol_cons (s : Symbol) : Spellable (.symbol s :: ts) ↔ Spellable ts :=
  spellable_cons.trans (and_iff_right (exists_spells_symbol s))

theorem spellable_inParens : Spellable (inParens ts) ↔ Spellable ts := by
  simp [inParens, spellable_symbol_cons, spellable_append, spellable_nil]

theorem spellable_printAll : ∀ {es : List Expr}, (∀ e ∈ es, Spellable e.print) → Spellable (Expr.printAll es)
  | [], _ => spellable_nil
  | [e], h => spellable_inParens.mpr (h e List.mem_cons_self)
  | e :: e' :: es, h => by
    obtain ⟨he, hes⟩ := List.forall_mem_cons.mp h
    exact spellable_append.mpr ⟨spellable_inParens.mpr he, (spellable_symbol_cons _).mpr (spellable_printAll hes)⟩

theorem spellable_printEntries : ∀ {es : List (String × Expr)}, (∀ entry ∈ es, Spellable entry.2.print) →
    Spellable (Expr.printEntries es)
  | [], _ => spellable_nil
  | [(key, e)], h => by
    rw [Expr.printEntries, spellable_cons, spellable_symbol_cons, spellable_inParens]
    exact ⟨⟨_, .string key⟩, h (key, e) List.mem_cons_self⟩
  | (key, e) :: entry :: es, h => by
    obtain ⟨he, hes⟩ := List.forall_mem_cons.mp h
    rw [Expr.printEntries, spellable_cons, spellable_symbol_cons, spellable_append, spellable_inParens,
      spellable_symbol_cons]
    exact ⟨⟨_, .string key⟩, he, spellable_printEntries hes⟩

theorem Expr.Printable.spellable (h : e.Printable) : Spellable e.print := by
  induction h with
  | nil => exact spellable_cons.mpr ⟨exists_spells_symbol _, spellable_nil⟩
  | bool b => cases b <;> exact spellable_cons.mpr ⟨exists_spells_symbol _, spellable_nil⟩
  | int hn => exact spellable_cons.mpr ⟨⟨_, .int hn⟩, spellable_nil⟩
  | string s => exact spellable_cons.mpr ⟨⟨_, .string s⟩, spellable_nil⟩
  | var hname => exact spellable_cons.mpr ⟨⟨_, .ident hname⟩, spellable_nil⟩
  | list _ ih =>
    rw [print, spellable_symbol_cons, spellable_append, spellable_symbol_cons]
    exact ⟨spellable_printAll ih, spellable_nil⟩
  | map _ ih =>
    rw [print, spellable_symbol_cons, spellable_append, spellable_symbol_cons]
    exact ⟨spellable_printEntries ih, spellable_nil⟩
  | member _ hname ih =>
    rw [print, spellable_append, spellable_inParens, spellable_symbol_cons, spellable_cons]
    exact ⟨ih, ⟨_, .ident hname⟩, spellable_nil⟩
  | index _ _ ihbase ihplace =>
    rw [print, spellable_append, spellable_inParens, spellable_symbol_cons, spellable_append, spellable_inParens,
      spellable_symbol_cons]
    exact ⟨ihbase, ihplace, spellable_nil⟩
  | unary _ ih =>
    rw [print, spellable_symbol_cons, spellable_inParens]
    exact ih
  | binary _ _ ihl ihr =>
    rw [print, spellable_append, spellable_inParens, spellable_symbol_cons, spellable_inParens]
    exact ⟨ihl, ihr⟩
  | call hname _ ih =>
    rw [print, spellable_cons, spellable_symbol_cons, spellable_append, spellable_symbol_cons]
    exact ⟨⟨_, .ident hname⟩, spellable_printAll ih, spellable_nil⟩

theorem Spellable.exists_laysOut (h : Spellable ts) : ∃ code : String, LaysOut code.toList ts := by
  suffices hcs : ∃ cs, LaysOut cs ts by
    obtain ⟨cs, hcs⟩ := hcs
    exact ⟨String.ofList cs, by rwa [String.toList_ofList]⟩
  induction ts with
  | nil => exact ⟨[], .nil nofun⟩
  | cons l ts ih =>
    obtain ⟨⟨spelling, hl⟩, hts⟩ := spellable_cons.mp h
    obtain ⟨cs, hcs⟩ := ih hts
    exact ⟨[] ++ (spelling ++ cs), .cons nofun hl hcs⟩

end Layout

/-- **Code is read as the expression that it was printed from.** An expression that can be printed has texts that lay
out its lexemes, with every expression in it in parentheses. Whichever spellings and gaps are chosen, and whether the
whole is in parentheses or not, reading the text gives the expression back. -/
theorem ofCode_print {e : Expr} (h : e.Printable) :
    (∃ code : String, LaysOut code.toList e.print) ∧
      ∀ code : String, LaysOut code.toList e.print ∨ LaysOut code.toList (inParens e.print) →
        Expr.ofCode code = .ok e := by
  have hread : ∀ {ts : List Lexeme} {code : String}, LaysOut code.toList ts → ts.IsChain Lexeme.MayStandBefore →
      Derives .or ts e → Expr.ofCode code = .ok e := by
    intro ts code hcode hts hd
    rw [Expr.ofCode, bareLexemes_of_laysOut hcode hts, ok_bind]
    exact exprOfLexemes_eq_ok_iff.mpr (.inr hd)
  refine ⟨h.spellable.exists_laysOut, ?_⟩
  rintro code (hcode | hcode)
  · exact hread hcode h.isChain h.derives
  · exact hread hcode (isChain_inParens h.isChain) h.derives.inParens.of_access

/-- The string holds the quote and a line feed, and only the quote is escaped. -/
theorem ofCode_print_string :
    (Expr.binary .or (.literal (.string "\"\n")) (.var "x")).Printable ∧
      LaysOut "(\t\"\\\"\n\") ||(x)".toList
        (Expr.binary .or (.literal (.string "\"\n")) (.var "x")).print ∧
      Expr.ofCode "(\t\"\\\"\n\") ||(x)" = .ok (.binary .or (.literal (.string "\"\n")) (.var "x")) := by
  have hprintable : (Expr.binary .or (.literal (.string "\"\n")) (.var "x")).Printable :=
    .binary (.string _) (.var (by decide))
  have hlays : LaysOut "(\t\"\\\"\n\") ||(x)".toList
      (Expr.binary .or (.literal (.string "\"\n")) (.var "x")).print := by
    have hopen : Spells (.symbol .leftParen) "(".toList := .symbol (by decide)
    have hclose : Spells (.symbol .rightParen) ")".toList := .symbol (by decide)
    have hor : Spells (.symbol .or) "||".toList := .symbol (by decide)
    have hname : Spells (.ident "x") "x".toList := .ident (by decide)
    have htext : "(\t\"\\\"\n\") ||(x)".toList = [] ++ ("(".toList ++ (['\t'] ++
        ('"' :: (escaped "\"\n".toList ++ ['"']) ++ ([] ++ (")".toList ++ ([' '] ++ ("||".toList ++ ([] ++
          ("(".toList ++ ([] ++ ("x".toList ++ ([] ++ (")".toList ++ []))))))))))))) := by decide +kernel
    rw [htext]
    exact .cons nofun hopen <| .cons (List.forall_mem_singleton.mpr rfl) (.string "\"\n") <|
      .cons nofun hclose <| .cons (List.forall_mem_singleton.mpr rfl) hor <|
      .cons nofun hopen <| .cons nofun hname <| .cons nofun hclose (.nil nofun)
  exact ⟨hprintable, hlays, (ofCode_print hprintable).2 _ (.inl hlays)⟩

end Stencil.Script
