import Stencil.Memory
import Stencil.Proofs.Building
import Stencil.Proofs.Rendering
import Stencil.Proofs.Writing

/-!
# Conversion keeps what templates mean

A conversion goes through only if the tokens read back, but that says nothing of their lines, nor of templates that are
made up of several texts. `conversion_preserves` does: once all texts are converted, every template compiles to the same
instructions from the same places as before and renders the same, up to the lines that are named in failures and
warnings. From the first pass to the second one, the lines stay as well.
-/

namespace Stencil

/-- The second texts are the first ones, each of them converted. -/
def Converted (m goal : Markup) (texts converted : Bindings String) : Prop :=
  List.Forall₂ (fun a b => a.1 = b.1 ∧ (Source.inMemory a.1 a.2).convert m goal = .ok b.2) texts converted

variable {σ : Type} {m goal : Markup} {texts converted : Bindings String}

/-- A name stands for a text and for what it is converted to. -/
theorem Converted.get? (h : Converted m goal texts converted) (name : String) :
    Option.Rel (fun text output => (Source.inMemory name text).convert m goal = .ok output)
      (Bindings.get? texts name) (Bindings.get? converted name) := by
  induction h with
  | nil => exact .none
  | @cons a b _ _ hab _ ih =>
    obtain ⟨key, text⟩ := a
    obtain ⟨key', output⟩ := b
    obtain ⟨rfl, hconvert⟩ := hab
    unfold Bindings.get?
    by_cases hk : key = name
    · subst hk
      rw [if_pos rfl, if_pos rfl]
      exact .some hconvert
    · rw [if_neg hk, if_neg hk]
      exact ih

/-- The texts agree as sources if the tokens of each of them do. -/
theorem Converted.sources_agree {L : Lines} (h : Converted m goal texts converted)
    (hL : ∀ tokens found, (∃ text, Token.scan m text = .ok tokens) →
      Token.scan goal (Token.writeAll goal tokens) = .ok found → tokens.map Token.content = found.map Token.content →
        List.Forall₂ (Token.Agrees L) tokens found) :
    Sources.Agrees L (Sources.inMemory m texts : Sources σ) (Sources.inMemory goal converted) := by
  intro name
  have hget := h.get? name
  unfold Sources.inMemory
  dsimp only
  generalize Bindings.get? texts name = x, Bindings.get? converted name = y at hget
  cases hget with
  | none => exact .throw (.unknownTemplate ..)
  | @some text output hconvert =>
    obtain ⟨tokens, found, hscan, rfl, hfound, hcontent⟩ := Source.convert_eq_ok_iff.mp hconvert
    have hbefore : (Source.inMemory name text).tokens m = .ok tokens := Source.tokens_eq_ok_iff.mpr hscan
    have hafter : (Source.inMemory name (Token.writeAll goal tokens)).tokens goal = .ok found :=
      Source.tokens_eq_ok_iff.mpr hfound
    refine .pure ⟨rfl, rfl, rfl, ?_⟩
    rw [hbefore, hafter]
    exact .ok (hL tokens found ⟨text, hscan⟩ hfound hcontent)

/-- From the first pass to the second one, a text and what it is converted to have the same tokens on the same lines. -/
theorem Converted.tokens_eq {name text output : String} (h : Converted .firstPass .secondPass texts converted)
    (htext : Bindings.get? texts name = some text) (houtput : Bindings.get? converted name = some output) :
    (Source.inMemory name output).tokens .secondPass = (Source.inMemory name text).tokens .firstPass := by
  have hget := h.get? name
  rw [htext, houtput] at hget
  cases hget with
  | some hconvert =>
    obtain ⟨tokens, found, hscan, hwritten, hfound, hcontent⟩ := Source.convert_eq_ok_iff.mp hconvert
    have hbefore : (Source.inMemory name text).tokens .firstPass = .ok tokens := Source.tokens_eq_ok_iff.mpr hscan
    have hafter : (Source.inMemory name output).tokens .secondPass = .ok found := Source.tokens_eq_ok_iff.mpr hfound
    rw [hbefore, hafter, scan_secondPass_eq hscan hwritten hfound hcontent]

/-- **Conversion keeps what templates mean.** Between any two markups, all templates compile and render the same as
before in every context, with the same results and the same failures but for the lines they name. From the first pass to
the second one, no token moves to another line, and nothing changes at all. -/
theorem conversion_preserves (h : Converted m goal texts converted) :
    let before : Loader σ := Loader.direct (Sources.inMemory m texts)
    let after : Loader σ := Loader.direct (Sources.inMemory goal converted)
    (∀ name, Alike .any (Session.Agrees .any) (Template.Agrees .any) (before.template name) (after.template name)) ∧
      (∀ name, Alike .any (Work.States .any Eq) Eq (before.render name) (after.render name)) ∧
        (m = .firstPass → goal = .secondPass →
          (∀ name text output, Bindings.get? texts name = some text → Bindings.get? converted name = some output →
            (Source.inMemory name output).tokens goal = (Source.inMemory name text).tokens m) ∧
          before.template = after.template ∧ before.render = after.render) := by
  intro before after
  have hany : Loader.Agrees .any before after :=
    Loader.direct_alike (h.sources_agree fun _ _ _ _ hcontent =>
      (Token.forall₂_of_map_content_eq hcontent).imp fun _ _ hab => ⟨hab, trivial⟩)
  refine ⟨hany, Loader.render_alike hany, ?_⟩
  rintro rfl rfl
  have hsame : Loader.Agrees .same before after := by
    refine Loader.direct_alike (h.sources_agree fun tokens found hscan hfound hcontent => ?_)
    obtain ⟨text, hscan⟩ := hscan
    rw [scan_secondPass_eq hscan rfl hfound hcontent]
    exact List.forall₂_same.mpr fun _ _ => ⟨rfl, rfl⟩
  refine ⟨fun name text output htext houtput => h.tokens_eq htext houtput, ?_, ?_⟩
  · funext name
    exact (hsame name).eq (Session.agrees_refl _) (fun _ _ => Session.Agrees.eq) fun _ _ => Template.Agrees.eq
  · funext name
    have hrefl (s : Context × Session σ) : Work.States .same Eq s s := ⟨rfl, Session.agrees_refl _ s.2⟩
    refine (Loader.render_alike hsame name).eq hrefl (fun s t hst => ?_) fun _ _ => id
    exact Prod.ext hst.1 hst.2.eq

/-- A template that extends another one, with text that looks like a tag of the second pass. -/
theorem conversion_preserves_extends :
    let texts := [("leaf", "%\x7bextends 'root'\x7d%\x7bblock x\x7d\n\x7b%$\x7b y -\x7d\n"),
      ("root", "<%\x7bblock x\x7d%\x7bendblock\x7d>")]
    let converted := [("leaf", "\x7b%extends 'root'%\x7d\x7b%block x%\x7d\n\\\x7b%\x7b\x7b\x7b y -\x7d\x7d\x7d\n"),
      ("root", "<\x7b%block x%\x7d\x7b%endblock%\x7d>")]
    Converted .firstPass .secondPass texts converted ∧
      (Loader.direct (Sources.inMemory .firstPass texts) : Loader Unit).render =
        (Loader.direct (Sources.inMemory .secondPass converted)).render := by
  intro texts converted
  have h : Converted .firstPass .secondPass texts converted :=
    .cons ⟨rfl, eq_ok_of_toOption (by decide +kernel)⟩ (.cons ⟨rfl, eq_ok_of_toOption (by decide +kernel)⟩ .nil)
  exact ⟨h, ((conversion_preserves h).2.2 rfl rfl).2.2⟩

end Stencil
