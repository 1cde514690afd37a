import Stencil.Script.Grammar

/-!
# The grammar as derivations

`Derives` says which lexemes make up an expression, by rules that know nothing of how they are read. An expression of a
level is one of the next level, or is made up by an operator of its own: `or`, `and`, sums and products have an
expression of the same level in front of the operator, so that chains group to the left; `not` and the minus sign have
one behind it; a comparison has none on either side. Members and items are taken of any access. The lexemes in
parentheses, brackets and braces are those of `Primary`, `Items` and `Entries`; an expression in parentheses is just
that expression. `IsStatement` says which lexemes make up a statement.

Two facts about single lexemes are all that reading has to look at: by which lexemes an expression begins
(`Derives.exists_cons`), and which symbols go on with one (`Symbol.joins?`).
-/

namespace Stencil.Script

/-! ## Expressions -/

/-- The second level is the one next to the first, and binds more tightly. -/
inductive Level.Next : Level → Level → Prop
  | or : Next .or .and
  | and : Next .and .not
  | not : Next .not .comparison
  | comparison : Next .comparison .sum
  | sum : Next .sum .product
  | product : Next .product .sign
  | sign : Next .sign .access

/-- A name or a string is the key of an entry. -/
inductive IsKey : Lexeme → String → Prop
  | ident (name : String) : IsKey (.ident name) name
  | string (s : String) : IsKey (.string s) s

mutual

/-- The lexemes make up an expression of the level. -/
inductive Derives : Level → List Lexeme → Expr → Prop
  | next {level tighter : Level} {ts : List Lexeme} {e : Expr} :
    level.Next tighter → Derives tighter ts e → Derives level ts e
  | chain {l : ChainLevel} {ls rs : List Lexeme} {left right : Expr} {s : Symbol} {op : BinaryOp} :
    Derives l.level ls left → l.operator? s = some op → Derives l.operand rs right →
      Derives l.level (ls ++ .symbol s :: rs) (.binary op left right)
  | not {ts : List Lexeme} {e : Expr} : Derives .not ts e → Derives .not (.symbol .not :: ts) (.unary .not e)
  | comparison {ls rs : List Lexeme} {left right : Expr} {s : Symbol} {op : Comparison} :
    Derives .sum ls left → comparison? s = some op → Derives .sum rs right →
      Derives .comparison (ls ++ .symbol s :: rs) (.binary (.comparison op) left right)
  | neg {ts : List Lexeme} {e : Expr} : Derives .sign ts e → Derives .sign (.symbol .minus :: ts) (.unary .neg e)
  | member {ts : List Lexeme} {e : Expr} (name : String) :
    Derives .access ts e → Derives .access (ts ++ [.symbol .dot, .ident name]) (.member e name)
  | index {ts ps : List Lexeme} {e place : Expr} : Derives .access ts e → Derives .or ps place →
      Derives .access (ts ++ .symbol .leftBracket :: (ps ++ [.symbol .rightBracket])) (.index e place)
  | primary {ts : List Lexeme} {e : Expr} : Primary ts e → Derives .access ts e

/-- The lexemes make up an expression that is no operator's and no access. -/
inductive Primary : List Lexeme → Expr → Prop
  | nil : Primary [.symbol .nilWord] (.literal .null)
  | true : Primary [.symbol .trueWord] (.literal (.bool true))
  | false : Primary [.symbol .falseWord] (.literal (.bool false))
  | int (n : Nat) : Primary [.int n] (.literal (.int n))
  | float {x : Float} : x.isFinite = Bool.true → Primary [.float x] (.literal (.float x))
  | string (s : String) : Primary [.string s] (.literal (.string s))
  | var (name : String) : Primary [.ident name] (.var name)
  | call {ts : List Lexeme} {args : List Expr} (name : String) :
    Items ts args → Primary (.ident name :: .symbol .leftParen :: (ts ++ [.symbol .rightParen])) (.call name args)
  | paren {ts : List Lexeme} {e : Expr} :
    Derives .or ts e → Primary (.symbol .leftParen :: (ts ++ [.symbol .rightParen])) e
  | list {ts : List Lexeme} {items : List Expr} :
    Items ts items → Primary (.symbol .leftBracket :: (ts ++ [.symbol .rightBracket])) (.list items)
  | map {ts : List Lexeme} {entries : List (String × Expr)} :
    Entries ts entries → Primary (.symbol .leftBrace :: (ts ++ [.symbol .rightBrace])) (.map entries)

/-- The lexemes make up expressions with commas between them; a comma may stand behind the last one. -/
inductive Items : List Lexeme → List Expr → Prop
  | nil : Items [] []
  | last {ts : List Lexeme} {e : Expr} : Derives .or ts e → Items ts [e]
  | cons {ts rest : List Lexeme} {e : Expr} {items : List Expr} :
    Derives .or ts e → Items rest items → Items (ts ++ .symbol .comma :: rest) (e :: items)

/-- The lexemes make up entries with commas between them; a comma may stand behind the last one. -/
inductive Entries : List Lexeme → List (String × Expr) → Prop
  | nil : Entries [] []
  | last {key : Lexeme} {name : String} {ts : List Lexeme} {e : Expr} :
    IsKey key name → Derives .or ts e → Entries (key :: .symbol .colon :: ts) [(name, e)]
  | cons {key : Lexeme} {name : String} {ts rest : List Lexeme} {e : Expr} {entries : List (String × Expr)} :
    IsKey key name → Derives .or ts e → Entries rest entries →
      Entries (key :: .symbol .colon :: (ts ++ .symbol .comma :: rest)) ((name, e) :: entries)

end

/-! ## Statements -/

/-- The lexemes make up entries, each of them behind a comma. -/
inductive Extras : List Lexeme → List (String × Expr) → Prop
  | nil : Extras [] []
  | cons {key : Lexeme} {name : String} {ts rest : List Lexeme} {e : Expr} {entries : List (String × Expr)} :
    IsKey key name → Derives .or ts e → Extras rest entries →
      Extras (.symbol .comma :: key :: .symbol .colon :: (ts ++ rest)) ((name, e) :: entries)

/-- The lexemes make up a statement. -/
inductive IsStatement : List Lexeme → Statement → Prop
  | empty : IsStatement [] .empty
  | ifThen {ts : List Lexeme} {e : Expr} : Derives .or ts e → IsStatement (.symbol .ifWord :: ts) (.ifThen e)
  | elseIf {ts : List Lexeme} {e : Expr} : Derives .or ts e → IsStatement (.symbol .elsifWord :: ts) (.elseIf e)
  | elseIfWords {ts : List Lexeme} {e : Expr} :
    Derives .or ts e → IsStatement (.symbol .elseWord :: .symbol .ifWord :: ts) (.elseIf e)
  | otherwise : IsStatement [.symbol .elseWord] .otherwise
  | close : IsStatement [.symbol .endWord] .close
  | loopItem {ts : List Lexeme} {e : Expr} (x : String) :
    Derives .or ts e → IsStatement (.symbol .forWord :: .ident x :: .symbol .inWord :: ts) (.loop (.item x) e)
  | loopPair {ts : List Lexeme} {e : Expr} (k x : String) : Derives .or ts e →
      IsStatement (.symbol .forWord :: .ident k :: .symbol .comma :: .ident x :: .symbol .inWord :: ts)
        (.loop (.pair k x) e)
  | includes {ts es : List Lexeme} {name : Expr} {extra : List (String × Expr)} :
    Derives .or ts name → Extras es extra → IsStatement (.symbol .includeWord :: (ts ++ es)) (.includes name extra)
  | assign {ts : List Lexeme} {e : Expr} (name : String) :
    Derives .or ts e → IsStatement (.ident name :: .symbol .assign :: ts) (.assign name e)
  | eval {ts : List Lexeme} {e : Expr} : Derives .or ts e → IsStatement ts (.eval e)

/-! ## Single lexemes -/

namespace Symbol

/-- The level of the expressions that begin with a symbol. -/
def begins? : Symbol → Option Level
  | .not => some .not
  | .minus => some .sign
  | .nilWord | .trueWord | .falseWord | .leftParen | .leftBracket | .leftBrace => some .access
  | _ => none

/-- The level of the expressions that go on with a symbol. -/
def joins? : Symbol → Option Level
  | .or => some .or
  | .and => some .and
  | .eqEq | .notEq | .lt | .ltEq | .gt | .gtEq => some .comparison
  | .plus | .minus => some .sum
  | .star | .slash | .percent => some .product
  | .dot | .leftBracket | .leftParen => some .access
  | _ => none

theorem joins?_of_operator? {l : ChainLevel} {s : Symbol} {op : BinaryOp} (h : l.operator? s = some op) :
    s.joins? = some l.level := by
  cases l <;> cases s <;> simp_all [ChainLevel.operator?, joins?, ChainLevel.level]

theorem joins?_of_comparison? {s : Symbol} {op : Comparison} (h : comparison? s = some op) :
    s.joins? = some .comparison := by
  cases s <;> simp_all [Script.comparison?, joins?]

end Symbol

theorem Level.Next.rank_eq {level tighter : Level} (h : level.Next tighter) : level.rank = tighter.rank + 1 := by
  cases h <;> rfl

theorem Level.access_rank_le (level : Level) : Level.access.rank ≤ level.rank := by cases level <;> decide

/-- The lexeme may begin an expression of the level. -/
def Lexeme.MayBegin (level : Level) (t : Lexeme) : Prop :=
  ∀ s, t = .symbol s → ∃ l, s.begins? = some l ∧ l.rank ≤ level.rank

theorem Primary.exists_cons {ts : List Lexeme} {e : Expr} (h : Primary ts e) (level : Level) :
    ∃ t rest, ts = t :: rest ∧ t.MayBegin level := by
  cases h <;> refine ⟨_, _, rfl, ?_⟩ <;> intro s hs <;> cases hs <;> exact ⟨.access, rfl, level.access_rank_le⟩

/-- An expression is not empty, and it begins with a lexeme that may begin it. -/
theorem Derives.exists_cons : ∀ {level : Level} {ts : List Lexeme} {e : Expr}, Derives level ts e →
    ∃ t rest, ts = t :: rest ∧ t.MayBegin level
  | _, _, _, .next hn h => by
    obtain ⟨t, rest, rfl, ht⟩ := h.exists_cons
    refine ⟨t, rest, rfl, fun s hs => ?_⟩
    obtain ⟨l, hl, hle⟩ := ht s hs
    exact ⟨l, hl, by rw [hn.rank_eq]; omega⟩
  | _, _, _, .chain h _ _ => by
    obtain ⟨t, rest, rfl, ht⟩ := h.exists_cons
    exact ⟨t, _, rfl, ht⟩
  | _, _, _, .not _ => by
    refine ⟨_, _, rfl, fun s hs => ?_⟩
    cases hs
    exact ⟨.not, rfl, Nat.le_refl _⟩
  | _, _, _, .comparison h _ _ => by
    obtain ⟨t, rest, rfl, ht⟩ := h.exists_cons
    refine ⟨t, _, rfl, fun s hs => ?_⟩
    obtain ⟨l, hl, hle⟩ := ht s hs
    exact ⟨l, hl, Nat.le_succ_of_le hle⟩
  | _, _, _, .neg _ => by
    refine ⟨_, _, rfl, fun s hs => ?_⟩
    cases hs
    exact ⟨.sign, rfl, Nat.le_refl _⟩
  | _, _, _, .member _ h => by
    obtain ⟨t, rest, rfl, ht⟩ := h.exists_cons
    exact ⟨t, _, rfl, ht⟩
  | _, _, _, .index h _ => by
    obtain ⟨t, rest, rfl, ht⟩ := h.exists_cons
    exact ⟨t, _, rfl, ht⟩
  | _, _, _, .primary h => h.exists_cons _

end Stencil.Script
