import Stencil.Proofs.Parsing

/-!
# Which code is read

The reader of expressions and of statements accepts exactly the lexemes that the grammar of `Proofs/Derivation` gives an
expression or a statement, and it gives that one (`ofCode_eq_ok_iff_grammar`). What an expression is made of comes from
`spells_of_expression` and `Derives.reads`; here the parts of a statement are put together from expressions.
-/

namespace Stencil.Script

/-! ## The parts of a statement -/

theorem wholeExpression_eq_ok_iff {ts : List Lexeme} {e : Expr} : wholeExpression ts = .ok e ↔ Derives .or ts e := by
  constructor
  · intro h
    obtain ⟨⟨e', rest, hlt⟩, hread, h⟩ := bind_eq_ok_iff.mp h
    obtain ⟨_, hfinish, h⟩ := bind_eq_ok_iff.mp h
    cases h
    obtain ⟨front, hfront, hd⟩ := spells_of_expression.1 _ _ _ hread
    dsimp only at hfinish hfront hd
    rw [eq_nil_of_expectFinish hfinish, List.append_nil] at hfront
    rw [hfront]
    exact hd
  · intro h
    obtain ⟨hlt, hread⟩ := h.reads_all
    rw [wholeExpression, hread]
    rfl

/-- What a whole expression is made into comes from an expression. -/
theorem map_wholeExpression_eq_ok_iff {α : Type} {ts : List Lexeme} {f : Expr → α} {a : α} :
    (wholeExpression ts).map f = .ok a ↔ ∃ e, Derives .or ts e ∧ f e = a := by
  rcases hread : wholeExpression ts with fault | e
  · refine ⟨nofun, fun ⟨e, hd, _⟩ => ?_⟩
    rw [wholeExpression_eq_ok_iff.mpr hd] at hread
    cases hread
  · have hd := wholeExpression_eq_ok_iff.mp hread
    constructor
    · intro h
      cases h
      exact ⟨e, hd, rfl⟩
    · rintro ⟨e', hd', rfl⟩
      rw [wholeExpression_eq_ok_iff.mpr hd'] at hread
      cases hread
      rfl

theorem Extras.endsBefore {ts : List Lexeme} {extra : List (String × Expr)} (h : Extras ts extra) :
    Level.or.EndsBefore ts := by
  cases h with
  | nil => exact .nil
  | cons => exact .of_joins?_eq_none rfl

theorem Extras.reads {ts : List Lexeme} {extra : List (String × Expr)} (h : Extras ts extra) :
    Gives (extras ts) extra [] := by
  induction h with
  | nil =>
    refine ⟨Nat.lt_succ_self _, ?_⟩
    rw [extras]
    rfl
  | @cons key name ts rest e entries hk hd hrest ih =>
    obtain ⟨hlt, hread⟩ := hd.reads hrest.endsBefore
    obtain ⟨hlt', hothers⟩ := ih
    refine ⟨Nat.succ_pos _, ?_⟩
    rw [extras, eat?_cons]
    dsimp only
    rw [expectKey_cons hk, ok_bind]
    dsimp only
    rw [expect_cons, ok_bind]
    dsimp only
    rw [hread, ok_bind]
    dsimp only
    rw [hothers]
    rfl

theorem Derives.of_access {ts : List Lexeme} {e : Expr} (h : Derives .access ts e) : Derives .or ts e :=
  .next .or <| .next .and <| .next .not <| .next .comparison <| .next .sum <| .next .product <| .next .sign h

/-- An expression does not go on with the sign of an assignment. -/
theorem not_derives_assign (name : String) (rest : List Lexeme) (e : Expr) :
    ¬ Derives .or (.ident name :: .symbol .assign :: rest) e := by
  intro h
  have hends : Level.or.EndsBefore (.symbol .assign :: rest) := .of_joins?_eq_none rfl
  obtain ⟨_, hread⟩ := h.reads_all
  have hvar : Derives .or [.ident name] (.var name) := .of_access (.primary (.var name))
  obtain ⟨_, hread'⟩ := hvar.reads hends
  cases hread.symm.trans hread'

/-- Lexemes that make up an expression are not read as any other statement. -/
theorem ofLexemes_of_derives {ts : List Lexeme} {e : Expr} (h : Derives .or ts e) :
    Statement.ofLexemes ts = (wholeExpression ts).map .eval := by
  obtain ⟨t, rest, rfl, ht⟩ := h.exists_cons
  have hbegins : ∀ s, t = .symbol s → s.begins? ≠ none := by
    intro s hs hnone
    obtain ⟨l, hl, _⟩ := ht s hs
    rw [hnone] at hl
    cases hl
  refine Statement.ofLexemes.eq_9 _ nofun ?_ ?_ ?_ ?_ ?_ ?_ ?_
  case refine_7 =>
    rintro name rest ⟨⟩
    exact not_derives_assign name rest e h
  all_goals
    rintro rest ⟨⟩
    exact hbegins _ rfl rfl

theorem IsStatement.ofLexemes {ts : List Lexeme} {s : Statement} (h : IsStatement ts s) :
    Statement.ofLexemes ts = .ok s := by
  cases h with
  | empty | otherwise | close => rfl
  | ifThen hd | elseIf hd | assign name hd => exact map_wholeExpression_eq_ok_iff.mpr ⟨_, hd, rfl⟩
  | elseIfWords hd =>
    rw [Statement.ofLexemes, eat?_cons]
    exact map_wholeExpression_eq_ok_iff.mpr ⟨_, hd, rfl⟩
  | @loopItem ts e x hd =>
    have hvars : loopVars (.ident x :: .symbol .inWord :: ts) = .ok (.item x, .symbol .inWord :: ts) := rfl
    rw [Statement.ofLexemes, hvars, ok_bind]
    dsimp only
    rw [expect_cons, ok_bind]
    exact map_wholeExpression_eq_ok_iff.mpr ⟨_, hd, rfl⟩
  | @loopPair ts e k x hd =>
    have hvars : loopVars (.ident k :: .symbol .comma :: .ident x :: .symbol .inWord :: ts) =
      .ok (.pair k x, .symbol .inWord :: ts) := rfl
    rw [Statement.ofLexemes, hvars, ok_bind]
    dsimp only
    rw [expect_cons, ok_bind]
    exact map_wholeExpression_eq_ok_iff.mpr ⟨_, hd, rfl⟩
  | includes hd hds =>
    obtain ⟨hlt, hname⟩ := hd.reads hds.endsBefore
    obtain ⟨hlt', hextra⟩ := hds.reads
    rw [Statement.ofLexemes, hname, ok_bind]
    dsimp only
    rw [hextra]
    rfl
  | eval hd =>
    rw [ofLexemes_of_derives hd]
    exact map_wholeExpression_eq_ok_iff.mpr ⟨_, hd, rfl⟩

/-- The lexemes are nothing, which stands for nil, or they make up the expression. -/
def IsExpression (ts : List Lexeme) (e : Expr) : Prop := ts = [] ∧ e = .literal .null ∨ Derives .or ts e

theorem exprOfLexemes_eq_ok_iff {ts : List Lexeme} {e : Expr} : Expr.ofLexemes ts = .ok e ↔ IsExpression ts e := by
  cases ts with
  | nil =>
    constructor
    · intro h
      cases h
      exact .inl ⟨rfl, rfl⟩
    · rintro (⟨_, rfl⟩ | hd)
      · rfl
      · obtain ⟨t, rest, he, _⟩ := hd.exists_cons
        cases he
  | cons t rest =>
    show wholeExpression (t :: rest) = .ok e ↔ _
    rw [wholeExpression_eq_ok_iff]
    exact ⟨.inr, fun h => h.elim (fun hnil => nomatch hnil.1) id⟩

end Stencil.Script
