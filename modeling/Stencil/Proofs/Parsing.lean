import Stencil.Proofs.Derivation
import Stencil.Proofs.Outcome

/-!
# Reading is deriving

What the rules of `Script/Grammar` read is derived by the grammar of `Proofs/Derivation`, and the other way round.

`spells_of_expression`: if a rule reads something, a start of the lexemes derives it, and the rule leaves what follows
that start. The proof is by the recursion of the rules. The two loops, over the operators of a chain and over accesses,
start from an expression that is already read: what they read turns every derivation of that expression into one of the
longer expression (`Parsed.Extends`).

`Derives.gives`: the lexemes of a derivation are read as what they derive, whatever follows them. The proof is by
recursion on derivations, in which a chain stands under its last operator. So the left operand is followed by the rest
of the chain, and reading has to go on from it (`Level.Proceeds`). Only the last operand has to end where the derivation
ends (`Level.Pauses`). Where the whole expression ends (`Level.EndsBefore`), reading stops with it (`Derives.reads`).
-/

namespace Stencil.Script

/-! ## The next lexeme -/

section Next

variable {s : Symbol} {t : Lexeme} {ts rest : List Lexeme}

@[simp] theorem eat?_cons (s : Symbol) (rest : List Lexeme) :
    eat? s (.symbol s :: rest) = some ⟨rest, Nat.lt_succ_self _⟩ := if_pos rfl

theorem eat?_eq_none (h : t ≠ .symbol s) (rest : List Lexeme) : eat? s (t :: rest) = none := by
  cases t with
  | symbol s' =>
    refine if_neg ?_
    rintro rfl
    exact h rfl
  | int | float | string | ident => rfl

theorem eq_cons_of_eat? {hlt : rest.length < ts.length} (h : eat? s ts = some ⟨rest, hlt⟩) :
    ts = .symbol s :: rest := by
  unfold eat? at h
  split at h
  · split at h
    · next hs =>
      cases h
      rw [hs]
    · cases h
  · cases h

theorem eq_cons_of_expect {u : Unit} {hlt : rest.length < ts.length} (h : expect s ts = .ok ⟨u, rest, hlt⟩) :
    ts = .symbol s :: rest := by
  unfold expect at h
  split at h
  · next he =>
    cases h
    exact eq_cons_of_eat? he
  · cases h

theorem expect_cons (s : Symbol) (rest : List Lexeme) :
    expect s (.symbol s :: rest) = .ok ⟨(), rest, Nat.lt_succ_self _⟩ := by
  unfold expect
  rw [eat?_cons]

theorem eq_cons_of_expectName {name : String} {hlt : rest.length < ts.length}
    (h : expectName ts = .ok ⟨name, rest, hlt⟩) : ts = .ident name :: rest := by
  unfold expectName at h
  split at h
  · cases h
    rfl
  · cases h

theorem exists_of_expectKey {name : String} {hlt : rest.length < ts.length} (h : expectKey ts = .ok ⟨name, rest, hlt⟩) :
    ∃ key, ts = key :: rest ∧ IsKey key name := by
  unfold expectKey at h
  split at h
  · cases h
    exact ⟨_, rfl, .ident _⟩
  · cases h
    exact ⟨_, rfl, .string _⟩
  · cases h

theorem expectKey_cons {key : Lexeme} {name : String} (h : IsKey key name) (rest : List Lexeme) :
    expectKey (key :: rest) = .ok ⟨name, rest, Nat.lt_succ_self _⟩ := by
  cases h <;> rfl

theorem exists_of_leading? {l : ChainLevel} {op : BinaryOp} {hlt : rest.length < ts.length}
    (h : l.leading? ts = some (op, ⟨rest, hlt⟩)) : ∃ s, ts = .symbol s :: rest ∧ l.operator? s = some op := by
  unfold ChainLevel.leading? at h
  split at h
  · next s rest =>
    obtain ⟨op', ho, h⟩ := Option.map_eq_some_iff.mp h
    cases h
    exact ⟨s, rfl, ho⟩
  · cases h

theorem exists_of_leadingComparison? {op : Comparison} {hlt : rest.length < ts.length}
    (h : leadingComparison? ts = some (op, ⟨rest, hlt⟩)) : ∃ s, ts = .symbol s :: rest ∧ comparison? s = some op := by
  unfold leadingComparison? at h
  split at h
  · next s rest =>
    obtain ⟨op', ho, h⟩ := Option.map_eq_some_iff.mp h
    cases h
    exact ⟨s, rfl, ho⟩
  · cases h

theorem eq_nil_of_expectFinish {u : Unit} (h : expectFinish ts = .ok u) : ts = [] := by
  cases ts with
  | nil => rfl
  | cons => cases h

end Next

theorem ChainLevel.next (l : ChainLevel) : l.level.Next l.operand := by cases l <;> constructor

/-! ## What is read is derived -/

/-- What was read stands for a start of the lexemes, and the rest follows it. -/
def Parsed.Spells {α : Type} {n : Nat} (p : Parsed α n) (P : List Lexeme → α → Prop) (ts : List Lexeme) : Prop :=
  ∃ front, ts = front ++ p.rest ∧ P front p.value

/-- Behind an expression of the level of a chain, what was read makes it a longer one. -/
def Parsed.Extends {n : Nat} (p : Parsed Expr n) (level : Level) (e : Expr) (ts : List Lexeme) : Prop :=
  p.Spells (fun front e' => ∀ before, Derives level before e → Derives level (before ++ front) e') ts

/-- What was read stands for a start of the lexemes that ends in a closing symbol. -/
def Parsed.SpellsClosed {α : Type} {n : Nat} (p : Parsed α n) (P : List Lexeme → α → Prop) (close : Symbol)
    (ts : List Lexeme) : Prop :=
  ∃ inner, ts = inner ++ .symbol close :: p.rest ∧ P inner p.value

section Spells

variable {α β : Type} {n k : Nat} {p : Parsed α n} {q : Parsed β k} {P : List Lexeme → α → Prop}
  {Q : List Lexeme → β → Prop} {ts rest : List Lexeme}

theorem Parsed.Spells.imp {P' : List Lexeme → α → Prop} (h : p.Spells P ts)
    (himp : ∀ front, P front p.value → P' front p.value) : p.Spells P' ts := by
  obtain ⟨front, hfront, hp⟩ := h
  exact ⟨front, hfront, himp front hp⟩

/-- A lexeme goes in front of what was read. -/
theorem Parsed.Spells.cons {t : Lexeme} (h : p.Spells P rest) (hts : ts = t :: rest) (hrest : q.rest = p.rest)
    (hq : ∀ front, P front p.value → Q (t :: front) q.value) : q.Spells Q ts := by
  obtain ⟨front, hfront, hp⟩ := h
  exact ⟨t :: front, by rw [hts, hrest, hfront, List.cons_append], hq front hp⟩

/-- An expression and what makes it a longer one. -/
theorem Parsed.Spells.extended {level : Level} {p : Parsed Expr n} {q : Parsed Expr k} (h : p.Spells (Derives level) ts)
    (hq : q.Extends level p.value p.rest) : q.Spells (Derives level) ts := by
  obtain ⟨front, hfront, hd⟩ := h
  obtain ⟨more, hmore, hext⟩ := hq
  exact ⟨front ++ more, by rw [hfront, hmore, List.append_assoc], hext front hd⟩

/-- What ends in a closing symbol is enclosed. -/
theorem Parsed.SpellsClosed.enclosed {close : Symbol} (h : p.SpellsClosed P close rest) (opens : List Lexeme)
    (hts : ts = opens ++ rest) (hrest : q.rest = p.rest)
    (hq : ∀ inner, P inner p.value → Q (opens ++ (inner ++ [.symbol close])) q.value) : q.Spells Q ts := by
  obtain ⟨inner, hinner, hp⟩ := h
  refine ⟨opens ++ (inner ++ [.symbol close]), ?_, hq inner hp⟩
  rw [hts, hinner, hrest]
  simp

end Spells

theorem spells_of_expression :
    (∀ level ts p, expression level ts = .ok p → p.Spells (Derives level) ts) ∧
      (∀ base ts p, accesses base ts = .ok p → p.Extends .access base ts) ∧
      (∀ ts p, primary ts = .ok p → p.Spells Primary ts) ∧
      (∀ ts p, entries ts = .ok p → p.SpellsClosed Entries .rightBrace ts) ∧
      (∀ close ts p, items close ts = .ok p → p.SpellsClosed Items close ts) ∧
      (∀ l ts p, chained l ts = .ok p → p.Spells (Derives l.level) ts) ∧
      ∀ l left ts p, chain l left ts = .ok p → p.Extends l.level left ts := by
  apply expression.mutual_induct
  -- expressions, from the loosest level to the tightest
  case case1 | case2 | case6 | case7 =>
    intro ts ih p h
    rw [expression] at h
    exact ih p h
  case case3 =>
    intro ts rest hlt he ih p h
    rw [expression, he] at h
    obtain ⟨operand, hp, h⟩ := bind_eq_ok_iff.mp h
    cases h
    exact (ih _ hp).cons (eq_cons_of_eat? he) rfl fun _ => .not
  case case4 =>
    intro ts he ih p h
    rw [expression, he] at h
    exact (ih p h).imp fun _ => .next .not
  case case5 =>
    intro ts ihLeft ihRight p h
    rw [expression] at h
    obtain ⟨⟨left, rest, hlt⟩, hleft, h⟩ := bind_eq_ok_iff.mp h
    obtain ⟨ls, hls, hdl⟩ := ihLeft _ hleft
    dsimp only at h hls hdl
    split at h
    · cases h
      exact ⟨ls, hls, .next .comparison hdl⟩
    · next op rest' hlt' hop =>
      obtain ⟨⟨right, tail, hlt₂⟩, hright, h⟩ := bind_eq_ok_iff.mp h
      obtain ⟨rs, hrs, hdr⟩ := ihRight rest hlt rest' hlt' _ hright
      obtain ⟨s, hs, hcomp⟩ := exists_of_leadingComparison? hop
      dsimp only at h hs hrs hdr
      split at h
      · cases h
      · cases h
        refine ⟨ls ++ .symbol s :: rs, ?_, .comparison hdl hcomp hdr⟩
        dsimp only
        rw [hls, hs, hrs, List.append_assoc, List.cons_append]
  case case8 =>
    intro ts rest hlt he ih p h
    rw [expression, he] at h
    obtain ⟨operand, hp, h⟩ := bind_eq_ok_iff.mp h
    cases h
    exact (ih _ hp).cons (eq_cons_of_eat? he) rfl fun _ => .neg
  case case9 =>
    intro ts he ih p h
    rw [expression, he] at h
    exact (ih p h).imp fun _ => .next .sign
  case case10 =>
    intro ts ihPrimary ihAccesses p h
    rw [expression] at h
    obtain ⟨⟨base, rest, hlt⟩, hbase, h⟩ := bind_eq_ok_iff.mp h
    obtain ⟨⟨e, tail, hlt'⟩, he, h⟩ := bind_eq_ok_iff.mp h
    cases h
    exact ((ihPrimary _ hbase).imp fun _ => .primary).extended (ihAccesses base rest hlt _ he)
  -- members and items
  case case11 =>
    intro base ts rest hlt hdot ih p h
    rw [accesses, hdot] at h
    obtain ⟨⟨name, rest', hlt'⟩, hname, h⟩ := bind_eq_ok_iff.mp h
    obtain ⟨⟨e, tail, hlt₂⟩, he, h⟩ := bind_eq_ok_iff.mp h
    cases h
    obtain ⟨more, hmore, hext⟩ := ih name rest' hlt' _ he
    have hstart := eq_cons_of_expectName hname
    dsimp only at hmore hext hstart
    refine ⟨.symbol .dot :: .ident name :: more, ?_, fun before hb => ?_⟩
    · dsimp only
      rw [eq_cons_of_eat? hdot, hstart, hmore]
      rfl
    · have hlonger := hext _ (.member name hb)
      rwa [List.append_assoc] at hlonger
  case case12 =>
    intro base ts hdot rest hlt hbracket ihPlace ihMore p h
    rw [accesses, hdot, hbracket] at h
    obtain ⟨⟨place, rest₁, hlt₁⟩, hplace, h⟩ := bind_eq_ok_iff.mp h
    obtain ⟨⟨_, rest₂, hlt₂⟩, hclose, h⟩ := bind_eq_ok_iff.mp h
    obtain ⟨⟨e, tail, hlt₃⟩, he, h⟩ := bind_eq_ok_iff.mp h
    cases h
    obtain ⟨ps, hps, hd⟩ := ihPlace _ hplace
    obtain ⟨more, hmore, hext⟩ := ihMore place rest₁ hlt₁ rest₂ hlt₂ _ he
    have hbehind := eq_cons_of_expect hclose
    dsimp only at hps hd hmore hext hbehind
    refine ⟨.symbol .leftBracket :: (ps ++ .symbol .rightBracket :: more), ?_, fun before hb => ?_⟩
    · dsimp only
      rw [eq_cons_of_eat? hbracket, hps, hbehind, hmore]
      simp
    · have hlonger := hext _ (.index hb hd)
      simpa using hlonger
  case case13 =>
    intro base ts hdot hbracket p h
    rw [accesses, hdot, hbracket] at h
    cases h
    refine ⟨[], rfl, fun before hb => ?_⟩
    rwa [List.append_nil]
  -- primary expressions
  case case14 =>
    intro p h
    rw [primary] at h
    cases h
  case case15 =>
    intro rest p h
    rw [primary] at h
    cases h
    exact ⟨[_], rfl, .nil⟩
  case case16 =>
    intro rest p h
    rw [primary] at h
    cases h
    exact ⟨[_], rfl, .true⟩
  case case17 =>
    intro rest p h
    rw [primary] at h
    cases h
    exact ⟨[_], rfl, .false⟩
  case case18 =>
    intro n rest p h
    rw [primary] at h
    cases h
    exact ⟨[_], rfl, .int n⟩
  case case19 =>
    intro x rest hx p h
    rw [primary, if_pos hx] at h
    cases h
    exact ⟨[_], rfl, .float hx⟩
  case case20 =>
    intro x rest hx p h
    rw [primary, if_neg hx] at h
    cases h
  case case21 =>
    intro s rest p h
    rw [primary] at h
    cases h
    exact ⟨[_], rfl, .string s⟩
  case case22 =>
    intro name rest he p h
    rw [primary, he] at h
    cases h
    exact ⟨[_], rfl, .var name⟩
  case case23 =>
    intro name rest inner hlt he ih p h
    rw [primary, he] at h
    obtain ⟨args, hargs, h⟩ := bind_eq_ok_iff.mp h
    cases h
    refine (ih _ hargs).enclosed [.ident name, .symbol .leftParen] ?_ rfl fun _ => .call name
    rw [eq_cons_of_eat? he]
    rfl
  case case24 =>
    intro rest ih p h
    rw [primary] at h
    obtain ⟨⟨e, rest', hlt⟩, he, h⟩ := bind_eq_ok_iff.mp h
    obtain ⟨⟨_, tail, hlt'⟩, hclose, h⟩ := bind_eq_ok_iff.mp h
    cases h
    obtain ⟨ts, hts, hd⟩ := ih _ he
    have hbehind := eq_cons_of_expect hclose
    dsimp only at hts hd hbehind
    refine ⟨.symbol .leftParen :: (ts ++ [.symbol .rightParen]), ?_, .paren hd⟩
    dsimp only
    rw [hts, hbehind]
    simp
  case case25 =>
    intro rest ih p h
    rw [primary] at h
    obtain ⟨members, hmembers, h⟩ := bind_eq_ok_iff.mp h
    cases h
    exact (ih _ hmembers).enclosed [.symbol .leftBracket] rfl rfl fun _ => .list
  case case26 =>
    intro rest ih p h
    rw [primary] at h
    obtain ⟨members, hmembers, h⟩ := bind_eq_ok_iff.mp h
    cases h
    exact (ih _ hmembers).enclosed [.symbol .leftBrace] rfl rfl fun _ => .map
  case case27 =>
    intro l rest h1 h2 h3 h4 h5 h6 h7 h8 h9 h10 p h
    rw [primary] at h
    · cases h
    all_goals assumption
  -- what stands between commas, up to the closing symbol
  case case28 =>
    intro ts rest hlt he p h
    rw [entries, he] at h
    cases h
    exact ⟨[], eq_cons_of_eat? he, .nil⟩
  case case29 =>
    intro ts he ihValue ihOthers p h
    rw [entries, he] at h
    obtain ⟨⟨name, rest₁, hlt₁⟩, hkey, h⟩ := bind_eq_ok_iff.mp h
    obtain ⟨⟨_, rest₂, hlt₂⟩, hcolon, h⟩ := bind_eq_ok_iff.mp h
    obtain ⟨⟨value, rest₃, hlt₃⟩, hvalue, h⟩ := bind_eq_ok_iff.mp h
    obtain ⟨key, hts, hk⟩ := exists_of_expectKey hkey
    obtain ⟨vs, hvs, hd⟩ := ihValue rest₁ hlt₁ rest₂ hlt₂ _ hvalue
    have hbehind := eq_cons_of_expect hcolon
    dsimp only at h hts hk hvs hd hbehind
    have hstart : ts = key :: .symbol .colon :: (vs ++ rest₃) := by rw [hts, hbehind, hvs]
    split at h
    · obtain ⟨⟨_, tail, hlt₄⟩, hclose, h⟩ := bind_eq_ok_iff.mp h
      cases h
      refine ⟨key :: .symbol .colon :: vs, ?_, .last hk hd⟩
      dsimp only
      rw [hstart, eq_cons_of_expect hclose]
      rfl
    · next rest₄ hlt₄ hcomma =>
      obtain ⟨⟨others, tail, hlt₅⟩, hothers, h⟩ := bind_eq_ok_iff.mp h
      cases h
      obtain ⟨inner, hinner, hds⟩ := ihOthers rest₁ hlt₁ rest₂ hlt₂ rest₃ hlt₃ rest₄ hlt₄ _ hothers
      have hnext := eq_cons_of_eat? hcomma
      dsimp only at hinner hds hnext
      refine ⟨key :: .symbol .colon :: (vs ++ .symbol .comma :: inner), ?_, .cons hk hd hds⟩
      dsimp only
      rw [hstart, hnext, hinner]
      simp
  case case30 =>
    intro close ts rest hlt he p h
    rw [items, he] at h
    cases h
    exact ⟨[], eq_cons_of_eat? he, .nil⟩
  case case31 =>
    intro close ts he ihItem ihOthers p h
    rw [items, he] at h
    obtain ⟨⟨item, rest, hlt⟩, hitem, h⟩ := bind_eq_ok_iff.mp h
    obtain ⟨vs, hvs, hd⟩ := ihItem _ hitem
    dsimp only at h hvs hd
    split at h
    · obtain ⟨⟨_, tail, hlt'⟩, hclose, h⟩ := bind_eq_ok_iff.mp h
      cases h
      refine ⟨vs, ?_, .last hd⟩
      dsimp only
      rw [hvs, eq_cons_of_expect hclose]
    · next rest' hlt' hcomma =>
      obtain ⟨⟨others, tail, hlt₂⟩, hothers, h⟩ := bind_eq_ok_iff.mp h
      cases h
      obtain ⟨inner, hinner, hds⟩ := ihOthers rest hlt rest' hlt' _ hothers
      have hnext := eq_cons_of_eat? hcomma
      dsimp only at hinner hds hnext
      refine ⟨vs ++ .symbol .comma :: inner, ?_, .cons hd hds⟩
      dsimp only
      rw [hvs, hnext, hinner]
      simp
  -- chains of operators
  case case32 =>
    intro l ts ihFirst ihMore p h
    rw [chained] at h
    obtain ⟨⟨first, rest, hlt⟩, hfirst, h⟩ := bind_eq_ok_iff.mp h
    obtain ⟨⟨e, tail, hlt'⟩, he, h⟩ := bind_eq_ok_iff.mp h
    cases h
    exact ((ihFirst _ hfirst).imp fun _ => .next l.next).extended (ihMore first rest hlt _ he)
  case case33 =>
    intro l left ts hnone p h
    rw [chain, hnone] at h
    cases h
    refine ⟨[], rfl, fun before hb => ?_⟩
    rwa [List.append_nil]
  case case34 =>
    intro l left ts op rest hlt hop ihRight ihMore p h
    rw [chain, hop] at h
    obtain ⟨⟨right, rest', hlt'⟩, hright, h⟩ := bind_eq_ok_iff.mp h
    obtain ⟨⟨e, tail, hlt₂⟩, he, h⟩ := bind_eq_ok_iff.mp h
    cases h
    obtain ⟨rs, hrs, hdr⟩ := ihRight _ hright
    obtain ⟨more, hmore, hext⟩ := ihMore right rest' hlt' _ he
    obtain ⟨s, hs, hso⟩ := exists_of_leading? hop
    dsimp only at hrs hdr hmore hext hs
    refine ⟨.symbol s :: (rs ++ more), ?_, fun before hb => ?_⟩
    · dsimp only
      rw [hs, hrs, hmore, List.cons_append, List.append_assoc]
    · have hlonger := hext _ (.chain hb hso hdr)
      simpa using hlonger

/-! ## What is derived is read -/

/-- The rule reads the value and leaves the rest. -/
def Gives {α : Type} {n : Nat} (r : Reading α n) (a : α) (rest : List Lexeme) : Prop := ∃ h, r = .ok ⟨a, rest, h⟩

/-- An expression of the level ends before the lexemes: none of its operators, and no tighter one, goes on with it. -/
def Level.EndsBefore (level : Level) (rest : List Lexeme) : Prop :=
  ∀ s tail l, rest = .symbol s :: tail → s.joins? = some l → level.rank < l.rank

/-- The last operand of an expression of the level ends before the lexemes. -/
def Level.Pauses : Level → List Lexeme → Prop
  | .or, rest => Level.and.EndsBefore rest
  | .and, rest => Level.not.EndsBefore rest
  | .sum, rest => Level.product.EndsBefore rest
  | .product, rest => Level.sign.EndsBefore rest
  | .access, rest => eat? .leftParen rest = none
  | level, rest => level.EndsBefore rest

/-- From an expression of the level, reading goes on to another one. -/
def Level.Proceeds : Level → Expr → List Lexeme → Expr → List Lexeme → Prop
  | .or, e, ts, e', rest => Gives (chain .or e ts) e' rest
  | .and, e, ts, e', rest => Gives (chain .and e ts) e' rest
  | .sum, e, ts, e', rest => Gives (chain .sum e ts) e' rest
  | .product, e, ts, e', rest => Gives (chain .product e ts) e' rest
  | .access, e, ts, e', rest => Gives (accesses e ts) e' rest
  | _, e, ts, e', rest => e' = e ∧ rest = ts

theorem ChainLevel.pauses_iff (l : ChainLevel) (rest : List Lexeme) :
    l.level.Pauses rest ↔ l.operand.EndsBefore rest := by cases l <;> exact Iff.rfl

theorem ChainLevel.proceeds_iff (l : ChainLevel) (e e' : Expr) (ts rest : List Lexeme) :
    l.level.Proceeds e ts e' rest ↔ Gives (chain l e ts) e' rest := by cases l <;> exact Iff.rfl

theorem expression_level (l : ChainLevel) (ts : List Lexeme) : expression l.level ts = chained l ts := by
  cases l <;> exact expression.eq_def _ _

namespace Level.EndsBefore

variable {level tighter : Level} {rest : List Lexeme}

theorem nil : level.EndsBefore [] := nofun

theorem of_joins? {s : Symbol} {l : Level} (hs : s.joins? = some l) (hlt : level.rank < l.rank) :
    level.EndsBefore (.symbol s :: rest) := by
  intro s' tail l' he hs'
  cases he
  rw [hs] at hs'
  cases hs'
  exact hlt

theorem of_joins?_eq_none {s : Symbol} (hs : s.joins? = none) : level.EndsBefore (.symbol s :: rest) := by
  intro s' tail l' he hs'
  cases he
  rw [hs] at hs'
  cases hs'

theorem mono (h : level.EndsBefore rest) (hle : tighter.rank ≤ level.rank) : tighter.EndsBefore rest :=
  fun s tail l he hs => Nat.lt_of_le_of_lt hle (h s tail l he hs)

theorem next (h : level.EndsBefore rest) (hn : level.Next tighter) : tighter.EndsBefore rest :=
  h.mono (by rw [hn.rank_eq]; exact Nat.le_succ _)

theorem eat?_eq_none (h : level.EndsBefore rest) {s : Symbol} {l : Level} (hs : s.joins? = some l)
    (hle : l.rank ≤ level.rank) : eat? s rest = none := by
  rcases he : eat? s rest with _ | ⟨tail, hlt⟩
  · rfl
  · have hlt := h s tail l (eq_cons_of_eat? he) hs
    omega

theorem leading?_eq_none {l : ChainLevel} (h : l.level.EndsBefore rest) : l.leading? rest = none := by
  rcases he : l.leading? rest with _ | ⟨op, tail, hlt⟩
  · rfl
  · obtain ⟨s, hs, ho⟩ := exists_of_leading? he
    exact absurd (h s tail _ hs (Symbol.joins?_of_operator? ho)) (Nat.lt_irrefl _)

theorem leadingComparison?_eq_none (h : Level.comparison.EndsBefore rest) : leadingComparison? rest = none := by
  rcases he : leadingComparison? rest with _ | ⟨op, tail, hlt⟩
  · rfl
  · obtain ⟨s, hs, ho⟩ := exists_of_leadingComparison? he
    exact absurd (h s tail _ hs (Symbol.joins?_of_comparison? ho)) (Nat.lt_irrefl _)

theorem accesses (h : Level.access.EndsBefore rest) (e : Expr) : Gives (accesses e rest) e rest := by
  refine ⟨Nat.lt_succ_self _, ?_⟩
  rw [Script.accesses, h.eat?_eq_none (s := .dot) rfl (Nat.le_refl _),
    h.eat?_eq_none (s := .leftBracket) rfl (Nat.le_refl _)]

theorem chain {l : ChainLevel} (h : l.level.EndsBefore rest) (e : Expr) : Gives (chain l e rest) e rest := by
  refine ⟨Nat.lt_succ_self _, ?_⟩
  rw [Script.chain, h.leading?_eq_none]

theorem pauses (h : level.EndsBefore rest) : level.Pauses rest := by
  cases level with
  | or => exact h.next .or
  | and => exact h.next .and
  | sum => exact h.next .sum
  | product => exact h.next .product
  | access => exact h.eat?_eq_none (s := .leftParen) rfl (Nat.le_refl _)
  | not | comparison | sign => exact h

theorem proceeds (h : level.EndsBefore rest) (e : Expr) : level.Proceeds e rest e rest := by
  cases level with
  | or => exact h.chain (l := .or) e
  | and => exact h.chain (l := .and) e
  | sum => exact h.chain (l := .sum) e
  | product => exact h.chain (l := .product) e
  | access => exact h.accesses e
  | not | comparison | sign => exact ⟨rfl, rfl⟩

end Level.EndsBefore

/-- No expression of the level begins with a symbol that only begins looser ones. -/
theorem Derives.eat?_eq_none {level : Level} {ts : List Lexeme} {e : Expr} (h : Derives level ts e) {s : Symbol}
    (hs : ∀ l, s.begins? = some l → level.rank < l.rank) (rest : List Lexeme) : eat? s (ts ++ rest) = none := by
  obtain ⟨t, tail, rfl, ht⟩ := h.exists_cons
  refine Script.eat?_eq_none ?_ _
  rintro rfl
  obtain ⟨l, hl, hle⟩ := ht s rfl
  have hlt := hs l hl
  omega

/-! ### One rule after another -/

section Rules

variable {l : ChainLevel} {s : Symbol} {ts rest rest' : List Lexeme} {e e' : Expr}

theorem leading?_cons {op : BinaryOp} (h : l.operator? s = some op) (rest : List Lexeme) :
    l.leading? (.symbol s :: rest) = some (op, ⟨rest, Nat.lt_succ_self _⟩) := by
  simp only [ChainLevel.leading?, h, Option.map_some]

theorem leadingComparison?_cons {op : Comparison} (h : comparison? s = some op) (rest : List Lexeme) :
    leadingComparison? (.symbol s :: rest) = some (op, ⟨rest, Nat.lt_succ_self _⟩) := by
  simp only [leadingComparison?, h, Option.map_some]

theorem gives_of_chain (hfirst : Gives (expression l.operand ts) e rest) (hmore : Gives (chain l e rest) e' rest') :
    Gives (expression l.level ts) e' rest' := by
  obtain ⟨hlt, hfirst⟩ := hfirst
  obtain ⟨hlt', hmore⟩ := hmore
  refine ⟨by omega, ?_⟩
  rw [expression_level, chained, hfirst, ok_bind]
  dsimp only
  rw [hmore]
  rfl

theorem chain_cons {op : BinaryOp} {left right : Expr} (hs : l.operator? s = some op)
    (hright : Gives (expression l.operand ts) right rest)
    (hmore : Gives (chain l (.binary op left right) rest) e' rest') :
    Gives (chain l left (.symbol s :: ts)) e' rest' := by
  obtain ⟨hlt, hright⟩ := hright
  obtain ⟨hlt', hmore⟩ := hmore
  refine ⟨by rw [List.length_cons]; omega, ?_⟩
  rw [chain, leading?_cons hs]
  dsimp only
  rw [hright, ok_bind]
  dsimp only
  rw [hmore]
  rfl

theorem accesses_member {name : String} (hmore : Gives (accesses (.member e name) rest) e' rest') :
    Gives (accesses e (.symbol .dot :: .ident name :: rest)) e' rest' := by
  obtain ⟨hlt, hmore⟩ := hmore
  refine ⟨by simp only [List.length_cons]; omega, ?_⟩
  rw [accesses, eat?_cons]
  dsimp only
  rw [expectName, ok_bind]
  dsimp only
  rw [hmore]
  rfl

theorem accesses_index {place : Expr} (hplace : Gives (expression .or ts) place (.symbol .rightBracket :: rest))
    (hmore : Gives (accesses (.index e place) rest) e' rest') :
    Gives (accesses e (.symbol .leftBracket :: ts)) e' rest' := by
  obtain ⟨hlt, hplace⟩ := hplace
  obtain ⟨hlt', hmore⟩ := hmore
  rw [List.length_cons] at hlt
  refine ⟨by rw [List.length_cons]; omega, ?_⟩
  rw [accesses, eat?_eq_none (s := .dot) (t := .symbol .leftBracket) nofun, eat?_cons]
  dsimp only
  rw [hplace, ok_bind]
  dsimp only
  rw [expect_cons, ok_bind]
  dsimp only
  rw [hmore]
  rfl

theorem gives_of_primary (hbase : Gives (primary ts) e rest) (hmore : Gives (accesses e rest) e' rest') :
    Gives (expression .access ts) e' rest' := by
  obtain ⟨hlt, hbase⟩ := hbase
  obtain ⟨hlt', hmore⟩ := hmore
  refine ⟨by omega, ?_⟩
  rw [expression, hbase, ok_bind]
  dsimp only
  rw [hmore]
  rfl

theorem closes {close : Symbol} (h : close = .rightParen ∨ close = .rightBracket) :
    close.begins? = none ∧ close.joins? = none ∧ Lexeme.symbol close ≠ .symbol .comma := by
  rcases h with rfl | rfl <;> exact ⟨rfl, rfl, nofun⟩

theorem IsKey.ne_symbol {key : Lexeme} {name : String} (h : IsKey key name) (s : Symbol) : key ≠ .symbol s := by
  cases h <;> exact nofun

end Rules

mutual

/-- The lexemes of an expression are read as that expression, wherever its last operand ends. -/
theorem Derives.gives : ∀ {level : Level} {ts : List Lexeme} {e e' : Expr} {rest rest' : List Lexeme},
    Derives level ts e → level.Pauses rest → level.Proceeds e rest e' rest' →
      Gives (expression level (ts ++ rest)) e' rest'
  | _, _, e, _, _, _, .next .or h, hp, hc =>
    gives_of_chain (l := .or) (h.gives (Level.EndsBefore.pauses hp) (Level.EndsBefore.proceeds hp e)) hc
  | _, _, e, _, _, _, .next .and h, hp, hc =>
    gives_of_chain (l := .and) (h.gives (Level.EndsBefore.pauses hp) (Level.EndsBefore.proceeds hp e)) hc
  | _, _, e, _, _, _, .next .sum h, hp, hc =>
    gives_of_chain (l := .sum) (h.gives (Level.EndsBefore.pauses hp) (Level.EndsBefore.proceeds hp e)) hc
  | _, _, e, _, _, _, .next .product h, hp, hc =>
    gives_of_chain (l := .product) (h.gives (Level.EndsBefore.pauses hp) (Level.EndsBefore.proceeds hp e)) hc
  | _, ts, e, _, rest, _, .next .not h, hp, ⟨rfl, rfl⟩ => by
    have hends : Level.comparison.EndsBefore rest := Level.EndsBefore.next hp .not
    rw [expression, h.eat?_eq_none (by rintro l ⟨⟩; decide)]
    exact h.gives hends.pauses (hends.proceeds e)
  | _, _, e, _, rest, _, .next .comparison h, hp, ⟨rfl, rfl⟩ => by
    have hends : Level.comparison.EndsBefore rest := hp
    obtain ⟨hlt, hread⟩ := h.gives (hends.next .comparison).pauses ((hends.next .comparison).proceeds e)
    refine ⟨hlt, ?_⟩
    rw [expression, hread, ok_bind]
    dsimp only
    rw [hends.leadingComparison?_eq_none]
  | _, _, e, _, rest, _, .next .sign h, hp, ⟨rfl, rfl⟩ => by
    have hends : Level.access.EndsBefore rest := Level.EndsBefore.next hp .sign
    rw [expression, h.eat?_eq_none (by rintro l ⟨⟩; decide)]
    exact h.gives hends.pauses (hends.proceeds e)
  | _, _, _, _, rest, _, @Derives.chain l ls rs left right s op hl hs hr, hp, hc => by
    have hends := (l.pauses_iff rest).mp hp
    have hmore := (l.proceeds_iff ..).mp hc
    have hchain := chain_cons hs (hr.gives hends.pauses (hends.proceeds right)) hmore
    have hjoin : l.operand.EndsBefore (.symbol s :: (rs ++ rest)) :=
      .of_joins? (Symbol.joins?_of_operator? hs) l.rank_operand_lt
    rw [List.append_assoc, List.cons_append]
    exact hl.gives ((l.pauses_iff _).mpr hjoin) ((l.proceeds_iff ..).mpr hchain)
  | _, _, _, _, rest, _, @Derives.not ts e h, hp, ⟨rfl, rfl⟩ => by
    obtain ⟨hlt, hread⟩ := h.gives hp ⟨rfl, rfl⟩
    rw [List.cons_append]
    refine ⟨Nat.lt_succ_of_lt hlt, ?_⟩
    rw [expression, eat?_cons]
    dsimp only
    rw [hread]
    rfl
  | _, _, _, _, rest, _, @Derives.comparison ls rs left right s op hl hs hr, hp, ⟨rfl, rfl⟩ => by
    have hends : Level.comparison.EndsBefore rest := hp
    have hjoin : Level.sum.EndsBefore (.symbol s :: (rs ++ rest)) :=
      .of_joins? (Symbol.joins?_of_comparison? hs) (by decide)
    obtain ⟨hlt, hleft⟩ := hl.gives hjoin.pauses (hjoin.proceeds left)
    obtain ⟨hlt', hright⟩ := hr.gives (hends.next .comparison).pauses ((hends.next .comparison).proceeds right)
    rw [List.append_assoc, List.cons_append]
    rw [List.length_cons] at hlt
    refine ⟨by omega, ?_⟩
    rw [expression, hleft, ok_bind]
    dsimp only
    rw [leadingComparison?_cons hs]
    dsimp only
    rw [hright, ok_bind]
    dsimp only
    rw [hends.leadingComparison?_eq_none]
    rfl
  | _, _, _, _, rest, _, @Derives.neg ts e h, hp, ⟨rfl, rfl⟩ => by
    obtain ⟨hlt, hread⟩ := h.gives hp ⟨rfl, rfl⟩
    rw [List.cons_append]
    refine ⟨Nat.lt_succ_of_lt hlt, ?_⟩
    rw [expression, eat?_cons]
    dsimp only
    rw [hread]
    rfl
  | _, _, _, _, rest, _, @Derives.member ts e name h, hp, hc => by
    rw [List.append_assoc]
    exact h.gives (Script.eat?_eq_none (s := .leftParen) (t := .symbol .dot) nofun _) (accesses_member hc)
  | _, _, _, _, rest, _, @Derives.index ts ps e place h hplace, hp, hc => by
    have hends : Level.or.EndsBefore (.symbol .rightBracket :: rest) := .of_joins?_eq_none rfl
    have hread := hplace.gives hends.pauses (hends.proceeds place)
    rw [List.append_assoc, List.cons_append, List.append_assoc, List.singleton_append]
    exact h.gives (Script.eat?_eq_none (s := .leftParen) (t := .symbol .leftBracket) nofun _) (accesses_index hread hc)
  | _, _, _, _, _, _, .primary h, hp, hc => gives_of_primary (h.gives hp) hc

theorem Primary.gives : ∀ {ts : List Lexeme} {e : Expr} {rest : List Lexeme},
    Primary ts e → eat? .leftParen rest = none → Gives (primary (ts ++ rest)) e rest
  | _, _, _, .nil, _ => ⟨_, primary.eq_2 _⟩
  | _, _, _, .true, _ => ⟨_, primary.eq_3 _⟩
  | _, _, _, .false, _ => ⟨_, primary.eq_4 _⟩
  | _, _, _, .int n, _ => ⟨_, primary.eq_5 _ _⟩
  | _, _, rest, @Primary.float x hx, _ => by
    rw [List.singleton_append]
    refine ⟨Nat.lt_succ_self _, ?_⟩
    rw [primary, if_pos hx]
  | _, _, _, .string s, _ => ⟨_, primary.eq_7 _ _⟩
  | _, _, rest, .var name, hp => by
    rw [List.singleton_append]
    refine ⟨Nat.lt_succ_self _, ?_⟩
    rw [primary, hp]
  | _, _, rest, @Primary.call ts args name h, _ => by
    obtain ⟨hlt, hread⟩ := h.gives rest (.inl rfl)
    rw [List.cons_append, List.cons_append, List.append_assoc, List.singleton_append]
    refine ⟨by simp only [List.length_cons]; omega, ?_⟩
    rw [primary, eat?_cons]
    dsimp only
    rw [hread]
    rfl
  | _, _, rest, @Primary.paren ts e h, _ => by
    have hends : Level.or.EndsBefore (.symbol .rightParen :: rest) := .of_joins?_eq_none rfl
    obtain ⟨hlt, hread⟩ := h.gives hends.pauses (hends.proceeds e)
    rw [List.cons_append, List.append_assoc, List.singleton_append]
    rw [List.length_cons] at hlt
    refine ⟨by rw [List.length_cons]; omega, ?_⟩
    rw [primary, hread, ok_bind]
    dsimp only
    rw [expect_cons]
    rfl
  | _, _, rest, @Primary.list ts items h, _ => by
    obtain ⟨hlt, hread⟩ := h.gives rest (.inr rfl)
    rw [List.cons_append, List.append_assoc, List.singleton_append]
    refine ⟨Nat.lt_succ_of_lt hlt, ?_⟩
    rw [primary, hread]
    rfl
  | _, _, rest, @Primary.map ts entries h, _ => by
    obtain ⟨hlt, hread⟩ := h.gives rest
    rw [List.cons_append, List.append_assoc, List.singleton_append]
    refine ⟨Nat.lt_succ_of_lt hlt, ?_⟩
    rw [primary, hread]
    rfl

theorem Items.gives : ∀ {close : Symbol} {ts : List Lexeme} {es : List Expr} (rest : List Lexeme), Items ts es →
    close = .rightParen ∨ close = .rightBracket → Gives (items close (ts ++ .symbol close :: rest)) es rest
  | _, _, _, _, .nil, _ => by
    rw [List.nil_append]
    refine ⟨Nat.lt_succ_self _, ?_⟩
    rw [items, eat?_cons]
  | close, _, _, rest, @Items.last ts e h, hclose => by
    obtain ⟨hbegins, hjoins, hcomma⟩ := closes hclose
    have hends : Level.or.EndsBefore (.symbol close :: rest) := .of_joins?_eq_none hjoins
    obtain ⟨hlt, hread⟩ := h.gives hends.pauses (hends.proceeds e)
    rw [List.length_cons] at hlt
    refine ⟨by omega, ?_⟩
    rw [items, h.eat?_eq_none (by rw [hbegins]; exact nofun)]
    dsimp only
    rw [hread, ok_bind]
    dsimp only
    rw [eat?_eq_none hcomma]
    dsimp only
    rw [expect_cons]
    rfl
  | close, _, _, rest, @Items.cons ts more e es h hmore, hclose => by
    obtain ⟨hbegins, _, _⟩ := closes hclose
    have hends : Level.or.EndsBefore (.symbol .comma :: (more ++ .symbol close :: rest)) := .of_joins?_eq_none rfl
    obtain ⟨hlt, hread⟩ := h.gives hends.pauses (hends.proceeds e)
    obtain ⟨hlt', hothers⟩ := hmore.gives rest hclose
    rw [List.append_assoc, List.cons_append]
    rw [List.length_cons] at hlt
    refine ⟨by omega, ?_⟩
    rw [items, h.eat?_eq_none (by rw [hbegins]; exact nofun)]
    dsimp only
    rw [hread, ok_bind]
    dsimp only
    rw [eat?_cons]
    dsimp only
    rw [hothers]
    rfl

theorem Entries.gives : ∀ {ts : List Lexeme} {es : List (String × Expr)} (rest : List Lexeme), Entries ts es →
    Gives (entries (ts ++ .symbol .rightBrace :: rest)) es rest
  | _, _, _, .nil => by
    rw [List.nil_append]
    refine ⟨Nat.lt_succ_self _, ?_⟩
    rw [entries, eat?_cons]
  | _, _, rest, @Entries.last key name ts e hk h => by
    have hends : Level.or.EndsBefore (.symbol .rightBrace :: rest) := .of_joins?_eq_none rfl
    obtain ⟨hlt, hread⟩ := h.gives hends.pauses (hends.proceeds e)
    rw [List.cons_append, List.cons_append]
    rw [List.length_cons] at hlt
    refine ⟨by simp only [List.length_cons]; omega, ?_⟩
    rw [entries, eat?_eq_none (hk.ne_symbol _)]
    dsimp only
    rw [expectKey_cons hk, ok_bind]
    dsimp only
    rw [expect_cons, ok_bind]
    dsimp only
    rw [hread, ok_bind]
    dsimp only
    rw [eat?_eq_none (s := .comma) (t := .symbol .rightBrace) nofun]
    dsimp only
    rw [expect_cons]
    rfl
  | _, _, rest, @Entries.cons key name ts more e es hk h hmore => by
    have hends : Level.or.EndsBefore (.symbol .comma :: (more ++ .symbol .rightBrace :: rest)) := .of_joins?_eq_none rfl
    obtain ⟨hlt, hread⟩ := h.gives hends.pauses (hends.proceeds e)
    obtain ⟨hlt', hothers⟩ := hmore.gives rest
    rw [List.cons_append, List.cons_append, List.append_assoc, List.cons_append]
    rw [List.length_cons] at hlt
    refine ⟨by simp only [List.length_cons]; omega, ?_⟩
    rw [entries, eat?_eq_none (hk.ne_symbol _)]
    dsimp only
    rw [expectKey_cons hk, ok_bind]
    dsimp only
    rw [expect_cons, ok_bind]
    dsimp only
    rw [hread, ok_bind]
    dsimp only
    rw [eat?_cons]
    dsimp only
    rw [hothers]
    rfl

end

/-- The lexemes of an expression are read as that expression, wherever it ends. -/
theorem Derives.reads {level : Level} {ts rest : List Lexeme} {e : Expr} (h : Derives level ts e)
    (hends : level.EndsBefore rest) : Gives (expression level (ts ++ rest)) e rest :=
  h.gives hends.pauses (hends.proceeds e)

/-- The lexemes of an expression alone are read to their end. -/
theorem Derives.reads_all {level : Level} {ts : List Lexeme} {e : Expr} (h : Derives level ts e) :
    Gives (expression level ts) e [] := by
  have hread := h.reads .nil
  rwa [List.append_nil] at hread

end Stencil.Script
