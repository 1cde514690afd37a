import Stencil.Code
import Stencil.Proofs.Outcome

/-!
# How instructions nest

`Nests` is the grammar of nested instructions. A condition is followed by its body, by any number of alternatives with a
condition of their own, by at most one alternative without, and by an `end`; a loop is followed by its body and an
`end`. Blank lines and empty statements leave nothing behind. `Branches` is what belongs to a condition.

`ofInstructions_eq_ok_iff` says that the code that is read from a list of instructions is exactly the one that the
grammar gives them, so there is no more than one.
-/

namespace Stencil

open Script (Expr LoopVars Statement)

namespace Code

/-! ## The grammar -/

/-- A condition with its body and, if it has one, its alternative and the place of what opens that. -/
def choice (place : Nat) (test : Expr) (body : Code) (alternative : Option (Nat × Code)) (next : Code) : Code :=
  match alternative with
  | none => ifThen place test body next
  | some (elsePlace, code) => ifElse place test body elsePlace code next

mutual

/-- The instructions nest as the code. -/
inductive Nests : List Placed → Code → Prop
  | done : Nests [] done
  | blank {l : Placed} {ls : List Placed} {next : Code} : l.read = .ok .blank → Nests ls next → Nests (l :: ls) next
  | empty {l : Placed} {ls : List Placed} {next : Code} :
    l.read = .ok (.statement .empty) → Nests ls next → Nests (l :: ls) next
  | literal {l : Placed} {ls : List Placed} {next : Code} {text : String} :
    l.read = .ok (.literal text) → Nests ls next → Nests (l :: ls) (literal l.2 text next)
  | emit {l : Placed} {ls : List Placed} {next : Code} {e : Expr} {escaped : Bool} :
    l.read = .ok (.emit e escaped) → Nests ls next → Nests (l :: ls) (emit l.2 e escaped next)
  | assign {l : Placed} {ls : List Placed} {next : Code} {name : String} {e : Expr} :
    l.read = .ok (.statement (.assign name e)) → Nests ls next → Nests (l :: ls) (assign l.2 name e next)
  | includes {l : Placed} {ls : List Placed} {next : Code} {name : Expr} {extra : List (String × Expr)} :
    l.read = .ok (.statement (.includes name extra)) → Nests ls next → Nests (l :: ls) (includes l.2 name extra next)
  | eval {l : Placed} {ls : List Placed} {next : Code} {e : Expr} :
    l.read = .ok (.statement (.eval e)) → Nests ls next → Nests (l :: ls) (eval l.2 e next)
  | ifThen {l : Placed} {bs ls : List Placed} {body next : Code} {test : Expr} {alternative : Option (Nat × Code)} :
    l.read = .ok (.statement (.ifThen test)) → NestsBranches bs body alternative → Nests ls next →
      Nests (l :: (bs ++ ls)) (choice l.2 test body alternative next)
  | loop {l e : Placed} {bs ls : List Placed} {body next : Code} {vars : LoopVars} {iterable : Expr} :
    l.read = .ok (.statement (.loop vars iterable)) → Nests bs body → e.read = .ok (.statement .close) →
      Nests ls next → Nests (l :: (bs ++ e :: ls)) (loop l.2 vars iterable body e.2 next)

/-- The instructions behind a condition, up to the `end` that closes it, are its body and its alternative. -/
inductive NestsBranches : List Placed → Code → Option (Nat × Code) → Prop
  | close {e : Placed} {bs : List Placed} {body : Code} :
    Nests bs body → e.read = .ok (.statement .close) → NestsBranches (bs ++ [e]) body none
  | otherwise {d e : Placed} {bs as : List Placed} {body alternative : Code} :
    Nests bs body → d.read = .ok (.statement .otherwise) → Nests as alternative → e.read = .ok (.statement .close) →
      NestsBranches (bs ++ d :: (as ++ [e])) body (some (d.2, alternative))
  | elseIf {d : Placed} {bs as : List Placed} {body body' : Code} {test : Expr} {alternative : Option (Nat × Code)} :
    Nests bs body → d.read = .ok (.statement (.elseIf test)) → NestsBranches as body' alternative →
      NestsBranches (bs ++ d :: as) body (some (d.2, choice d.2 test body' alternative done))

end

/-! ## Pieces -/

/-- The statement that divides or closes. -/
def Divider.statement : Divider → Statement
  | close => .close
  | otherwise => .otherwise
  | elseIf test => .elseIf test

/-- What stops a piece: the end of the list, or an instruction that divides or closes, with what follows it. -/
inductive Stops : List Placed → Option (Placed × Divider × List Placed) → Prop
  | ended : Stops [] none
  | divided {source : Placed} {d : Divider} (rest : List Placed) :
    source.read = .ok (.statement d.statement) → Stops (source :: rest) (some (source, d, rest))

/-- The code of a piece. -/
def Piece.code {bound : Nat} : Piece bound → Code
  | ended code => code
  | divided code .. => code

/-- What stops a piece. -/
def Piece.stop {bound : Nat} : Piece bound → Option (Placed × Divider × List Placed)
  | ended _ => none
  | divided _ source d rest _ => some (source, d, rest)

/-- The code of the piece is what a start of the instructions nests as, and behind that start the piece stops. -/
def Piece.Spells {bound : Nat} (p : Piece bound) (ls : List Placed) : Prop :=
  ∃ front tail, ls = front ++ tail ∧ Nests front p.code ∧ Stops tail p.stop

/-- The branches are what a start of the instructions nests as. -/
def Branches.Spells {bound : Nat} (b : Branches bound) (ls : List Placed) : Prop :=
  ∃ front, ls = front ++ b.rest ∧ NestsBranches front b.body b.alternative

section Pieces

variable {bound larger : Nat}

@[simp] theorem Piece.code_after (make : Code → Code) (h : bound ≤ larger) (p : Piece bound) :
    (p.after make h).code = make p.code := by cases p <;> rfl

@[simp] theorem Piece.stop_after (make : Code → Code) (h : bound ≤ larger) (p : Piece bound) :
    (p.after make h).stop = p.stop := by cases p <;> rfl

theorem Piece.eq_ended {p : Piece bound} (h : p.stop = none) : p = ended p.code := by
  cases p with
  | ended => rfl
  | divided => cases h

theorem Piece.exists_eq_divided {p : Piece bound} {source : Placed} {d : Divider} {rest : List Placed}
    (h : p.stop = some (source, d, rest)) : ∃ shorter, p = divided p.code source d rest shorter := by
  cases p with
  | ended => cases h
  | divided _ _ _ _ shorter => cases h; exact ⟨shorter, rfl⟩

theorem conditional_eq_choice (place : Nat) (test : Expr) (b : Branches bound) (next : Code) :
    conditional place test b next = choice place test b.body b.alternative next := by
  unfold conditional choice
  split <;> simp_all

/-- A piece with one more instruction in front of it. -/
theorem Piece.Spells.cons {l : Placed} {rest : List Placed} {p : Piece rest.length} {make : Code → Code}
    {h : rest.length ≤ (l :: rest).length} (hp : p.Spells rest)
    (hm : ∀ ls next, Nests ls next → Nests (l :: ls) (make next)) : (p.after make h).Spells (l :: rest) := by
  obtain ⟨front, tail, rfl, hn, hs⟩ := hp
  refine ⟨l :: front, tail, rfl, ?_, ?_⟩
  · rw [Piece.code_after]
    exact hm _ _ hn
  · rw [Piece.stop_after]
    exact hs

end Pieces

/-! ## What is read follows the grammar -/

theorem spells_of_piece :
    (∀ ls p, piece ls = .ok p → p.Spells ls) ∧ ∀ opener ls b, branches opener ls = .ok b → b.Spells ls := by
  apply piece.mutual_induct
  case case1 =>
    intro p h
    rw [piece] at h
    cases h
    exact ⟨[], [], rfl, .done, .ended⟩
  case case2 =>
    intro l rest ihRest ihBranches ihBehind ihEnd p h
    rw [piece] at h
    obtain ⟨r, hr, h⟩ := bind_eq_ok_iff.mp h
    have hnext {make : Code → Code} (hm : ∀ ls next, Nests ls next → Nests (l :: ls) (make next))
        (h : (do return (← piece rest).after make (Nat.le_succ rest.length)) = .ok p) : p.Spells (l :: rest) := by
      obtain ⟨q, hq, rfl⟩ := bind_pure_eq_ok_iff.mp h
      exact Piece.Spells.cons (ihRest q hq) hm
    cases r with
    | blank => exact hnext (fun _ _ => .blank hr) h
    | literal => exact hnext (fun _ _ => .literal hr) h
    | emit => exact hnext (fun _ _ => .emit hr) h
    | statement s =>
      cases s with
      | empty => exact hnext (fun _ _ => .empty hr) h
      | assign => exact hnext (fun _ _ => .assign hr) h
      | includes => exact hnext (fun _ _ => .includes hr) h
      | eval => exact hnext (fun _ _ => .eval hr) h
      -- a divider or an `end` is left to what was opened before
      | close | otherwise | elseIf =>
        cases h
        exact ⟨[], l :: rest, rfl, .done, .divided rest hr⟩
      | ifThen test =>
        obtain ⟨b, hb, h⟩ := bind_eq_ok_iff.mp h
        obtain ⟨q, hq, rfl⟩ := bind_pure_eq_ok_iff.mp h
        obtain ⟨bs, he, hbs⟩ := ihBranches b hb
        obtain ⟨front, tail, he', hn, hs⟩ := ihBehind b q hq
        refine ⟨l :: (bs ++ front), tail, ?_, ?_, ?_⟩
        · rw [he, he', List.cons_append, List.append_assoc]
        · rw [Piece.code_after, conditional_eq_choice]
          exact .ifThen hr hbs hn
        · rw [Piece.stop_after]
          exact hs
      | loop vars iterable =>
        obtain ⟨q, hq, h⟩ := bind_eq_ok_iff.mp h
        obtain ⟨bs, tail, rfl, hbs, hstop⟩ := ihRest q hq
        cases q with
        | ended => cases h
        | divided body source d rest' hlt =>
          cases d with
          | otherwise | elseIf => cases h
          | close =>
            obtain ⟨q', hq', rfl⟩ := bind_pure_eq_ok_iff.mp h
            cases hstop with
            | divided _ hsource =>
              obtain ⟨front, tail, rfl, hn, hs⟩ := ihEnd rest' hlt q' hq'
              refine ⟨l :: (bs ++ source :: front), tail, by simp, ?_, ?_⟩
              · rw [Piece.code_after]
                exact .loop hr hbs hsource hn
              · rw [Piece.stop_after]
                exact hs
  case case3 =>
    intro opener ls ihBody ihAlternative ihElseIf b h
    rw [branches] at h
    obtain ⟨q, hq, h⟩ := bind_eq_ok_iff.mp h
    obtain ⟨bs, tail, rfl, hbs, hstop⟩ := ihBody q hq
    cases q with
    | ended => cases h
    | divided body divide d rest hlt =>
      cases d with
      | close =>
        cases h
        cases hstop with
        | divided _ hend => exact ⟨bs ++ [divide], by simp, .close hbs hend⟩
      | otherwise =>
        obtain ⟨q', hq', h⟩ := bind_eq_ok_iff.mp h
        obtain ⟨as, tail', rfl, has, hstop'⟩ := ihAlternative rest hlt q' hq'
        cases q' with
        | ended => cases h
        | divided alternative last d' rest' hlt' =>
          cases d' with
          | otherwise | elseIf => cases h
          | close =>
            cases h
            cases hstop with
            | divided _ hdivide =>
              cases hstop' with
              | divided _ hend => exact ⟨bs ++ divide :: (as ++ [last]), by simp, .otherwise hbs hdivide has hend⟩
      | elseIf test =>
        obtain ⟨b', hb', h⟩ := bind_eq_ok_iff.mp h
        cases h
        obtain ⟨as, he, has⟩ := ihElseIf rest hlt b' hb'
        cases hstop with
        | divided _ hdivide =>
          refine ⟨bs ++ divide :: as, by rw [List.append_assoc, List.cons_append, ← he], ?_⟩
          rw [conditional_eq_choice]
          exact .elseIf hbs hdivide has

/-! ## What follows the grammar is read -/

theorem Stops.exists_piece {tail : List Placed} {o : Option (Placed × Divider × List Placed)} (h : Stops tail o) :
    ∃ p, piece tail = .ok p ∧ p.code = done ∧ p.stop = o := by
  cases h with
  | ended => exact ⟨_, by rw [piece], rfl, rfl⟩
  | @divided source d rest h =>
    cases d <;> exact ⟨_, by rw [piece, h]; rfl, rfl, rfl⟩

theorem exists_piece_cons {l : Placed} {rest : List Placed} {o : Option (Placed × Divider × List Placed)} {c : Code}
    {f : Code → Code} (h : ∃ p, piece rest = .ok p ∧ p.code = c ∧ p.stop = o)
    (hp : piece (l :: rest) = (do return (← piece rest).after f (Nat.le_succ _))) :
    ∃ p, piece (l :: rest) = .ok p ∧ p.code = f c ∧ p.stop = o := by
  obtain ⟨p, h, rfl, rfl⟩ := h
  rw [h] at hp
  exact ⟨_, hp, Piece.code_after .., Piece.stop_after ..⟩

mutual

theorem Nests.exists_piece {tail : List Placed} {o : Option (Placed × Divider × List Placed)} (hs : Stops tail o) :
    ∀ {ls : List Placed} {c : Code}, Nests ls c → ∃ p, piece (ls ++ tail) = .ok p ∧ p.code = c ∧ p.stop = o
  | _, _, .done => hs.exists_piece
  | _, _, .blank hr hn => exists_piece_cons (f := id) (hn.exists_piece hs) (by rw [piece, hr]; rfl)
  | _, _, .empty hr hn => exists_piece_cons (f := id) (hn.exists_piece hs) (by rw [piece, hr]; rfl)
  | _, _, .literal hr hn => exists_piece_cons (hn.exists_piece hs) (by rw [piece, hr]; rfl)
  | _, _, .emit hr hn => exists_piece_cons (hn.exists_piece hs) (by rw [piece, hr]; rfl)
  | _, _, .assign hr hn => exists_piece_cons (hn.exists_piece hs) (by rw [piece, hr]; rfl)
  | _, _, .includes hr hn => exists_piece_cons (hn.exists_piece hs) (by rw [piece, hr]; rfl)
  | _, _, .eval hr hn => exists_piece_cons (hn.exists_piece hs) (by rw [piece, hr]; rfl)
  | _, _, @Nests.ifThen l bs ls body next test alternative hr hbs hn => by
    obtain ⟨b, hb, rfl, rfl, hrest⟩ := hbs.exists_branches l (ls ++ tail)
    have hp : ∃ p, piece b.rest = .ok p ∧ p.code = next ∧ p.stop = o := by
      rw [hrest]
      exact hn.exists_piece hs
    obtain ⟨p, hp, rfl, rfl⟩ := hp
    rw [List.cons_append, List.append_assoc, piece, hr, ok_bind]
    dsimp only
    rw [hb, ok_bind, hp]
    refine ⟨_, rfl, ?_, Piece.stop_after ..⟩
    rw [Piece.code_after, conditional_eq_choice]
  | _, _, @Nests.loop l e bs ls body next vars iterable hr hbs he hn => by
    obtain ⟨p, hp, rfl, rfl⟩ := hn.exists_piece hs
    obtain ⟨q, hq, rfl, hstop⟩ := hbs.exists_piece (.divided (d := .close) (ls ++ tail) he)
    obtain ⟨shorter, hq'⟩ := Piece.exists_eq_divided hstop
    rw [List.cons_append, List.append_assoc, List.cons_append, piece, hr, ok_bind]
    dsimp only
    rw [hq, ok_bind, hq']
    dsimp only
    rw [hp]
    exact ⟨_, rfl, Piece.code_after .., Piece.stop_after ..⟩

theorem NestsBranches.exists_branches (opener : Placed) (rest : List Placed) :
    ∀ {ls : List Placed} {body : Code} {alternative : Option (Nat × Code)}, NestsBranches ls body alternative →
      ∃ b, branches opener (ls ++ rest) = .ok b ∧ b.body = body ∧ b.alternative = alternative ∧ b.rest = rest
  | _, _, _, @NestsBranches.close e bs body hbs he => by
    obtain ⟨q, hq, rfl, hstop⟩ := hbs.exists_piece (.divided (d := .close) rest he)
    obtain ⟨shorter, hq'⟩ := Piece.exists_eq_divided hstop
    rw [List.append_assoc, List.singleton_append, branches, hq, ok_bind, hq']
    exact ⟨_, rfl, rfl, rfl, rfl⟩
  | _, _, _, @NestsBranches.otherwise d e bs as body alternative hbs hd has he => by
    obtain ⟨q, hq, rfl, hstop⟩ := hbs.exists_piece (.divided (d := .otherwise) (as ++ e :: rest) hd)
    obtain ⟨shorter, hq'⟩ := Piece.exists_eq_divided hstop
    obtain ⟨p, hp, rfl, hstop'⟩ := has.exists_piece (.divided (d := .close) rest he)
    obtain ⟨shorter', hp'⟩ := Piece.exists_eq_divided hstop'
    rw [List.append_assoc, List.cons_append, List.append_assoc, List.singleton_append, branches, hq, ok_bind, hq']
    dsimp only
    rw [hp, ok_bind, hp']
    exact ⟨_, rfl, rfl, rfl, rfl⟩
  | _, _, _, @NestsBranches.elseIf d bs as body body' test alternative hbs hd has => by
    obtain ⟨q, hq, rfl, hstop⟩ := hbs.exists_piece (.divided (d := .elseIf test) (as ++ rest) hd)
    obtain ⟨shorter, hq'⟩ := Piece.exists_eq_divided hstop
    obtain ⟨b, hb, rfl, rfl, hrest⟩ := has.exists_branches opener rest
    rw [List.append_assoc, List.cons_append, branches, hq, ok_bind, hq']
    dsimp only
    rw [hb, ok_bind]
    exact ⟨_, rfl, rfl, by rw [conditional_eq_choice], hrest⟩

end

/-- The nested code of a list of instructions is what the grammar says. -/
theorem ofInstructions_eq_ok_iff {ls : List Located} {code : Code} :
    ofInstructions ls = .ok code ↔ Nests ls.zipIdx code := by
  constructor
  · intro h
    obtain ⟨p, hp, h⟩ := bind_eq_ok_iff.mp h
    obtain ⟨front, tail, he, hn, hs⟩ := spells_of_piece.1 _ p hp
    cases p with
    | ended c =>
      cases h
      cases hs
      rw [he, List.append_nil]
      exact hn
    | divided c source d rest => cases d <;> cases h
  · intro h
    have hp := h.exists_piece .ended
    rw [List.append_nil] at hp
    obtain ⟨p, hp, rfl, hs⟩ := hp
    rw [ofInstructions, hp, ok_bind, Piece.eq_ended hs]
    rfl

end Code

end Stencil
