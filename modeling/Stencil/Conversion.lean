import Stencil.Text.Quoted
import Stencil.Token

/-!
# Conversion

A token stream is written in another markup: the bodies and strip markers of tags stay, and openers in literal text are
escaped. Some streams have no faithful form there; a text that ends in a brace may run into the opener behind it. So
what is written is read again, and the conversion fails unless the same tokens come back, lines aside
(`convert_eq_ok_iff`).
-/

namespace Stencil

/-- Why a conversion fails: what is written has a tag that never ends, or reads back with another token. -/
inductive ConversionFault
  | unterminated (fault : Unterminated)
  | mismatch (expected found : Option Token)
  deriving DecidableEq, Repr

namespace ConversionFault

/-- A token as messages show it. -/
def describe : Option Token → String
  | some t => t.kind.name ++ " " ++ Text.quoted t.body
  | none => "nothing"

/-- The wording of the failure. -/
def message : ConversionFault → String
  | unterminated fault => fault.message
  | mismatch expected found => describe expected ++ " would read back as " ++ describe found

/-- The line that the failure is put down to. -/
def line : ConversionFault → Nat
  | unterminated fault => fault.line
  | mismatch expected found => (expected.or found).elim 1 Token.line

end ConversionFault

namespace Token

/-- A token written in a markup. -/
def write (m : Markup) (t : Token) : String :=
  match t.kind with
  | .text => m.escape t.body
  | .tag kind =>
    let d := m.delimiters kind
    d.opener ++ t.body ++ (if t.strip then stripMarker.toString else "") ++ d.closer

/-- Tokens written in a markup. -/
def writeAll (m : Markup) (tokens : List Token) : String := String.join (tokens.map (write m))

/-- The first place where two token streams disagree. -/
def mismatch? : List Token → List Token → Option (Option Token × Option Token)
  | [], [] => none
  | a :: _, [] => some (some a, none)
  | [], b :: _ => some (none, some b)
  | a :: as, b :: bs => if a.content = b.content then mismatch? as bs else some (some a, some b)

/-- The tokens written in a markup, provided that they read back. -/
def convert (m : Markup) (tokens : List Token) : Except ConversionFault String :=
  match scan m (writeAll m tokens) with
  | .error fault => .error (.unterminated fault)
  | .ok found =>
    match mismatch? tokens found with
    | some (a, b) => .error (.mismatch a b)
    | none => .ok (writeAll m tokens)

theorem mismatch?_eq_none_iff {as bs : List Token} : mismatch? as bs = none ↔ as.map content = bs.map content := by
  induction as generalizing bs with
  | nil => cases bs <;> simp [mismatch?]
  | cons a as ih => cases bs with
    | nil => simp [mismatch?]
    | cons b bs =>
      simp only [mismatch?, List.map_cons, List.cons.injEq]
      split
      · next h => simp [h, ih]
      · next h => simp [h]

/-- A conversion succeeds with what the tokens are written as, exactly if that reads back as the same tokens. -/
theorem convert_eq_ok_iff {m : Markup} {tokens : List Token} {output : String} :
    convert m tokens = .ok output ↔
      output = writeAll m tokens ∧ ∃ found, scan m output = .ok found ∧ tokens.map content = found.map content := by
  unfold convert
  split
  · next fault hs =>
    refine ⟨nofun, ?_⟩
    rintro ⟨rfl, found, hf, -⟩
    rw [hs] at hf
    cases hf
  · next found hs =>
    split
    · next a b hm =>
      refine ⟨nofun, ?_⟩
      rintro ⟨rfl, found', hf, hc⟩
      rw [hs] at hf
      cases hf
      rw [mismatch?_eq_none_iff.mpr hc] at hm
      cases hm
    · next hm =>
      refine ⟨fun h => ?_, fun h => by rw [h.1]⟩
      injection h with h
      subst h
      exact ⟨rfl, found, hs, mismatch?_eq_none_iff.mp hm⟩

end Token

end Stencil
