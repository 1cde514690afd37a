import Stencil.Text.Html
import Mathlib.Logic.Function.Basic

/-!
# HTML text and its entities

`Text.html` writes entities for the characters that have a meaning in HTML (`Text.entities`). None of these characters
is left but the ampersand (`html_safe`), and each ampersand begins an entity (`html_entity_of_ampersand`).
`Text.decode` replaces entities from left to right by what they stand for. It gives back the text that `html` was
applied to (`decode_html`), also if this held entities already: their ampersands are written as entities of their own.
-/

namespace Stencil.Text

/-- The entities that `html` writes, and what they stand for. -/
def entities : List (String × Char) :=
  [("&amp;", '&'), ("&lt;", '<'), ("&gt;", '>'), ("&quot;", '"'), ("&#39;", '\'')]

/-- The entity at the start of a text. -/
def entityAt (cs : List Char) : Option (String × Char) := entities.find? fun e => e.1.toList.isPrefixOf cs

/-- The text with what the entities stand for; the first `skip` characters are passed over. -/
def decodeFrom (skip : Nat) : List Char → List Char
  | [] => []
  | c :: cs =>
    match skip with
    | skip + 1 => decodeFrom skip cs
    | 0 =>
      match entityAt (c :: cs) with
      | none => c :: decodeFrom 0 cs
      | some (entity, character) => character :: decodeFrom (entity.toList.length - 1) cs

/-- The text in which each entity is replaced by what it stands for, from left to right. -/
def decode (text : String) : String := String.ofList (decodeFrom 0 text.toList)

/-! ## Single characters -/

/-- A character is written as the entity that stands for it, or else as it is. -/
theorem htmlChar_cases (c : Char) :
    (∃ entity, (entity, c) ∈ entities ∧ htmlChar c = entity.toList) ∨
      htmlChar c = [c] ∧ c ∉ ['&', '<', '>', '"', '\''] := by
  unfold htmlChar
  split
  case h_6 => exact .inr ⟨rfl, by simp_all⟩
  all_goals exact .inl (by simp [entities])

theorem safe_of_mem_entities : ∀ e ∈ entities, ∀ c ∈ e.1.toList, c ∉ ['<', '>', '"', '\''] := by
  simp [entities]

/-- An entity holds no ampersand behind its first character. -/
theorem not_mem_tail_of_mem_entities : ∀ e ∈ entities, '&' ∉ e.1.toList.tail := by simp [entities]

theorem decodeFrom_entity {e : String × Char} (h : e ∈ entities) (cs : List Char) :
    decodeFrom 0 (e.1.toList ++ cs) = e.2 :: decodeFrom 0 cs := by
  simp only [entities, List.mem_cons, List.not_mem_nil, or_false] at h
  rcases h with rfl | rfl | rfl | rfl | rfl
  all_goals simp [decodeFrom, entityAt, entities]

theorem decodeFrom_of_ne {c : Char} (h : c ≠ '&') (cs : List Char) :
    decodeFrom 0 (c :: cs) = c :: decodeFrom 0 cs := by
  simp [decodeFrom, entityAt, entities, h.symm]

/-! ## Texts -/

/-- Nothing is left that begins or ends a tag or a quoted attribute. -/
theorem html_safe (text : String) : ∀ c ∈ (html text).toList, c ∉ ['<', '>', '"', '\''] := by
  intro c hc
  rw [html, String.toList_ofList] at hc
  obtain ⟨d, -, hd⟩ := List.mem_flatMap.mp hc
  rcases htmlChar_cases d with ⟨entity, hentity, heq⟩ | ⟨heq, hplain⟩
  · rw [heq] at hd
    exact safe_of_mem_entities _ hentity c hd
  · rw [heq] at hd
    obtain rfl := List.mem_singleton.mp hd
    exact fun hmem => hplain (List.mem_cons_of_mem _ hmem)

/-- An ampersand in what is written for some characters begins an entity. -/
theorem entity_of_ampersand {cs before after : List Char} (h : cs.flatMap htmlChar = before ++ '&' :: after) :
    ∃ e ∈ entities, e.1.toList <+: '&' :: after := by
  induction cs generalizing before with
  | nil => simp at h
  | cons c cs ih =>
    rw [List.flatMap_cons] at h
    rcases List.append_eq_append_iff.mp h with ⟨mid, -, hrest⟩ | ⟨mid, hc, hafter⟩
    · exact ih hrest
    · cases mid with
      | nil => exact @ih [] hafter.symm
      | cons d mid =>
        -- the ampersand stands in what is written for the first character
        obtain ⟨rfl, rfl⟩ := List.cons.inj hafter
        rcases htmlChar_cases c with ⟨entity, hentity, heq⟩ | ⟨heq, hplain⟩
        · have htail := not_mem_tail_of_mem_entities _ hentity
          rw [heq] at hc
          cases before with
          | nil => exact ⟨_, hentity, hc ▸ List.prefix_append ('&' :: mid) (cs.flatMap htmlChar)⟩
          | cons b before =>
            rw [hc] at htail
            exact absurd (by simp) htail
        · have hmem : '&' ∈ [c] := by
            rw [← heq, hc]
            simp
          obtain rfl := List.mem_singleton.mp hmem
          exact absurd List.mem_cons_self hplain

theorem html_entity_of_ampersand {text : String} {before after : List Char}
    (h : (html text).toList = before ++ '&' :: after) : ∃ e ∈ entities, e.1.toList <+: '&' :: after := by
  rw [html, String.toList_ofList] at h
  exact entity_of_ampersand h

theorem decodeFrom_flatMap_htmlChar (cs : List Char) : decodeFrom 0 (cs.flatMap htmlChar) = cs := by
  induction cs with
  | nil => rfl
  | cons c cs ih =>
    rw [List.flatMap_cons]
    rcases htmlChar_cases c with ⟨entity, hentity, heq⟩ | ⟨heq, hplain⟩
    · rw [heq, decodeFrom_entity hentity, ih]
    · have hne : c ≠ '&' := fun hc => hplain (by simp [hc])
      rw [heq, List.singleton_append, decodeFrom_of_ne hne, ih]

/-- Decoding gives back the text. -/
theorem decode_html (text : String) : decode (html text) = text := by
  rw [decode, html, String.toList_ofList, decodeFrom_flatMap_htmlChar, String.ofList_toList]

theorem html_injective : Function.Injective html := Function.LeftInverse.injective decode_html

end Stencil.Text
