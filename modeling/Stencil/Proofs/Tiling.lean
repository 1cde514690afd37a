import Stencil.Proofs.Literals

/-!
# Which tokens a text has

The tokens of a text come from pieces of it, one behind the other. `Tiled` says which pieces these can be: pieces of
literal text, no two of them neighbours, and tags, each from its opener to the brace that closes it (`Piece.Fits`).

If no opener holds a backslash, a text has the given tokens exactly if they are those of pieces that make it up, and it
has none exactly if such pieces lead up to a tag that is never closed (`Source.tokens_eq_iff`).

- Pieces are scanned one after the other (`Tiled.scanBehind_append`), by induction on them. Behind literal text there is
  a tag or the end, so that the scanner reads no further than the text (`Tiled.stopsAt`).
- Every text has its pieces (`tokenizes_scanBehind`), by induction on its length, tag by tag.
-/

namespace Stencil

open Segment (Balances balanced scanFrom endsEscaped)

/-! ## The scanner, step by step -/

namespace Segment

variable {m : Markup} {line : Nat} {escaped : Bool} {cs raw rest content rest' : List Char} {kind : TagKind}

theorem scanFrom_last (hu : m.untilTag 0 escaped cs = (raw, none)) :
    scanFrom m line escaped cs = .ok (literal line raw) := by
  rw [scanFrom]
  split
  · next hu' =>
    cases hu.symm.trans hu'
    rfl
  · next hu' => cases hu.symm.trans hu'

theorem scanFrom_unterminated (hu : m.untilTag 0 escaped cs = (raw, some (kind, rest)))
    (hb : balanced (m.depth kind) rest = none) :
    scanFrom m line escaped cs = .error ⟨kind, line + Text.lineFeeds raw⟩ := by
  rw [scanFrom]
  split
  · next hu' => cases hu.symm.trans hu'
  · next hu' =>
    cases hu.symm.trans hu'
    split
    · rfl
    · next hb' => cases hb.symm.trans hb'

theorem scanFrom_tag (hu : m.untilTag 0 escaped cs = (raw, some (kind, rest)))
    (hb : balanced (m.depth kind) rest = some (content, rest')) :
    scanFrom m line escaped cs =
      (scanFrom m (line + Text.lineFeeds raw + Text.lineFeeds (m.opener kind ++ content))
        (endsEscaped (m.opener kind ++ content)) rest').map fun following =>
          literal line raw ++ ⟨line + Text.lineFeeds raw, .tag kind content⟩ :: following := by
  rw [scanFrom]
  split
  · next hu' => cases hu.symm.trans hu'
  · next hu' =>
    cases hu.symm.trans hu'
    split
    · next hb' => cases hb.symm.trans hb'
    · next hb' =>
      cases hb.symm.trans hb'
      rfl

end Segment

/-! ## Pieces -/

/-- A token and the piece of text that it stands for. -/
structure Piece where
  token : Token
  source : List Char

namespace Piece

/-- The text of the pieces. -/
def sources (pieces : List Piece) : List Char := pieces.flatMap source

/-- The piece fits between two texts. Literal text is read afresh: a tag in front of it never ends in a backslash. -/
inductive Fits (m : Markup) (front after : List Char) : Piece → Prop
  | text {raw : List Char} : m.Literal [] raw after →
      Fits m front after ⟨⟨.text, String.ofList (m.withoutEscapes raw), false, 1 + Text.lineFeeds front⟩, raw⟩
  | tag {kind : TagKind} {content body : List Char} {strip : Bool} :
      m.TagAt front kind (content ++ after) → Balances (m.depth kind) content →
        Token.HasBody m kind content body strip → Fits m front after
          ⟨⟨.tag kind, String.ofList body, strip, 1 + Text.lineFeeds front⟩, m.opener kind ++ content⟩

/-- Between two texts, the pieces follow one another: none of them is empty, each fits where it stands, and literal text
is not followed by literal text. -/
def Tiled (m : Markup) (after : List Char) : List Char → List Piece → Prop
  | _, [] => True
  | front, p :: rest =>
    p.source ≠ [] ∧ p.Fits m front (sources rest ++ after) ∧
      (p.token.kind = .text → ∀ q ∈ rest.head?, q.token.kind ≠ .text) ∧ Tiled m after (front ++ p.source) rest

/-- The tokens of a text behind another one, or the tag in it that is never closed. -/
inductive Tokenizes (m : Markup) (front : List Char) : List Char → Except Unterminated (List Token) → Prop
  | ok {pieces : List Piece} : Tiled m [] front pieces → Tokenizes m front (sources pieces) (.ok (pieces.map token))
  | error {pieces : List Piece} {kind : TagKind} {rest : List Char} :
      Tiled m (m.opener kind ++ rest) front pieces → m.TagAt (front ++ sources pieces) kind rest →
        (∀ p, p <+: rest → m.depth kind + p.count '\x7b' ≠ p.count '\x7d') →
          Tokenizes m front (sources pieces ++ (m.opener kind ++ rest))
            (.error ⟨kind, 1 + Text.lineFeeds (front ++ sources pieces)⟩)

variable {m : Markup} {front after raw rest rest' content cs : List Char} {kind : TagKind} {pieces : List Piece}
  {p : Piece}

@[simp] theorem sources_nil : sources [] = [] := rfl

@[simp] theorem sources_cons (p : Piece) (pieces : List Piece) : sources (p :: pieces) = p.source ++ sources pieces :=
  List.flatMap_cons ..

@[simp] theorem sources_append (as bs : List Piece) : sources (as ++ bs) = sources as ++ sources bs :=
  List.flatMap_append ..

/-! ## Literal text in front of other pieces -/

/-- Literal text as a list of at most one piece. -/
def literal (m : Markup) (front raw : List Char) : List Piece :=
  if raw.isEmpty then []
  else [⟨⟨.text, String.ofList (m.withoutEscapes raw), false, 1 + Text.lineFeeds front⟩, raw⟩]

@[simp] theorem sources_literal (m : Markup) (front raw : List Char) : sources (literal m front raw) = raw := by
  unfold literal
  split
  · next h => exact (List.isEmpty_iff.mp h).symm
  · exact List.append_nil raw

theorem map_token_literal (hm : m.Bare) (front raw : List Char) : (literal m front raw).map token =
    (Segment.literal (1 + Text.lineFeeds front) raw).map (Token.ofSegment m) := by
  unfold literal Segment.literal
  split
  · rfl
  · rw [← Markup.unescapeFrom_eq_withoutEscapes hm]
    rfl

theorem Tiled.literal_append (hl : m.Literal [] raw (sources pieces ++ after))
    (hkind : ∀ q ∈ pieces.head?, q.token.kind ≠ .text) (h : Tiled m after (front ++ raw) pieces) :
    Tiled m after front (literal m front raw ++ pieces) := by
  unfold literal
  split
  · next hr =>
    rw [List.isEmpty_iff.mp hr, List.append_nil] at h
    exact h
  · next hr => exact ⟨fun hnil => hr (List.isEmpty_iff.mpr hnil), .text hl, fun _ => hkind, h⟩

/-- Nothing but literal text. -/
theorem tiled_literal (hl : m.Literal [] raw after) : Tiled m after front (literal m front raw) := by
  have hall : Tiled m after front (literal m front raw ++ []) := Tiled.literal_append hl (by simp) trivial
  rwa [List.append_nil] at hall

/-! ## What the scanner does -/

/-- The tokens of a text, from the line on that the text in front leads to. -/
def scanBehind (m : Markup) (front cs : List Char) : Except Unterminated (List Token) :=
  (scanFrom m (1 + Text.lineFeeds front) false cs).map fun segments => segments.map (Token.ofSegment m)

theorem scanBehind_last (hm : m.Bare) (hu : m.untilTag 0 false cs = (raw, none)) :
    scanBehind m front cs = .ok ((literal m front raw).map token) := by
  rw [scanBehind, Segment.scanFrom_last hu, map_token_literal hm]
  rfl

theorem scanBehind_unterminated (hu : m.untilTag 0 false cs = (raw, some (kind, rest)))
    (hb : balanced (m.depth kind) rest = none) :
    scanBehind m front cs = .error ⟨kind, 1 + Text.lineFeeds (front ++ raw)⟩ := by
  rw [scanBehind, Segment.scanFrom_unterminated hu hb, Text.lineFeeds_append, ← Nat.add_assoc]
  rfl

/-- The tag between two texts, with its body. -/
def tagPiece (m : Markup) (front : List Char) (kind : TagKind) (content : List Char) : Piece :=
  ⟨Token.ofSegment m ⟨1 + Text.lineFeeds front, .tag kind content⟩, m.opener kind ++ content⟩

theorem scanBehind_tag (hm : m.Bare) (hu : m.untilTag 0 false cs = (raw, some (kind, rest)))
    (hb : balanced (m.depth kind) rest = some (content, rest')) :
    scanBehind m front cs = (scanBehind m (front ++ raw ++ (m.opener kind ++ content)) rest').map fun tokens =>
      (literal m front raw).map token ++ (tagPiece m (front ++ raw) kind content).token :: tokens := by
  have hends : endsEscaped (m.opener kind ++ content) = false :=
    Markup.endsEscaped_eq_false_iff.mpr ((Segment.balanced_eq_some_iff.mp hb).2.getLast?_ne hm [])
  have hline : 1 + Text.lineFeeds front + Text.lineFeeds raw + Text.lineFeeds (m.opener kind ++ content) =
      1 + Text.lineFeeds (front ++ raw ++ (m.opener kind ++ content)) := by
    simp only [Text.lineFeeds_append, Nat.add_assoc]
  rw [scanBehind, Segment.scanFrom_tag hu hb, hends, hline, scanBehind]
  rcases scanFrom m (1 + Text.lineFeeds (front ++ raw ++ (m.opener kind ++ content))) false rest' with u | following
  · rfl
  · rw [map_token_literal hm, tagPiece, Text.lineFeeds_append front raw, ← Nat.add_assoc]
    simp only [Except.map, List.map_append, List.map_cons]

/-! ## Pieces are scanned one after the other -/

theorem tagAt_of_append (h : m.TagAt (front ++ raw) kind rest) : m.TagAt raw kind rest := by
  refine ⟨fun hlast => h.unescaped ?_, h.longest⟩
  rw [List.getLast?_append, hlast]
  rfl

theorem tagAt_append (hf : front.getLast? ≠ some '\\') (h : m.TagAt raw kind rest) :
    m.TagAt (front ++ raw) kind rest := by
  refine ⟨?_, h.longest⟩
  rcases eq_or_ne raw [] with rfl | hr
  · rwa [List.append_nil]
  · rw [List.getLast?_append_of_ne_nil _ hr]
    exact h.unescaped

theorem untilTag_append (hm : m.Bare) (hl : m.Literal [] raw (m.opener kind ++ rest)) (ht : m.TagAt raw kind rest) :
    m.untilTag 0 false (raw ++ (m.opener kind ++ rest)) = (raw, some (kind, rest)) := by
  refine (Markup.untilTag_eq_iff hm).mpr ⟨rfl, hl, ?_⟩
  rintro k rest ⟨⟩
  exact ht

theorem untilTag_eq_none (hm : m.Bare) (hl : m.Literal [] raw []) : m.untilTag 0 false raw = (raw, none) :=
  (Markup.untilTag_eq_iff hm).mpr ⟨(List.append_nil raw).symm, hl, nofun⟩

theorem untilTag_opener (hm : m.Bare) (hl : m.Longest kind (m.opener kind ++ rest)) :
    m.untilTag 0 false (m.opener kind ++ rest) = ([], some (kind, rest)) :=
  untilTag_append hm (Markup.literal_nil m [] _) ⟨nofun, hl⟩

theorem scanBehind_nil (hm : m.Bare) (front : List Char) : scanBehind m front [] = .ok [] :=
  scanBehind_last hm (untilTag_eq_none hm (Markup.literal_nil m [] []))

/-- Literal text up to a tag or the end is one token. -/
theorem scanBehind_literal_append (hm : m.Bare) (hl : m.Literal [] raw after) (hs : m.StopsAt raw after) :
    scanBehind m front (raw ++ after) =
      (scanBehind m (front ++ raw) after).map fun tokens => (literal m front raw).map token ++ tokens := by
  rcases hs with rfl | ⟨kind, rest, rfl, ht⟩
  · rw [List.append_nil, scanBehind_last hm (untilTag_eq_none hm hl), scanBehind_nil hm]
    simp [Except.map]
  · have hu := untilTag_append hm hl ht
    have hnil := untilTag_opener hm ht.longest
    rcases hb : balanced (m.depth kind) rest with _ | ⟨content, rest'⟩
    · rw [scanBehind_unterminated hu hb, scanBehind_unterminated hnil hb, List.append_nil]
      rfl
    · rw [scanBehind_tag hm hu hb, scanBehind_tag hm hnil hb, List.append_nil]
      rcases scanBehind m (front ++ raw ++ (m.opener kind ++ content)) rest' with u | tokens <;> rfl

/-- A tag is one token. -/
theorem scanBehind_tag_append (hm : m.Bare) (hl : m.Longest kind (m.opener kind ++ (content ++ after)))
    (hb : Balances (m.depth kind) content) : scanBehind m front (m.opener kind ++ content ++ after) =
      (scanBehind m (front ++ (m.opener kind ++ content)) after).map ((tagPiece m front kind content).token :: ·) := by
  have hu := untilTag_opener hm hl
  rw [List.append_assoc, scanBehind_tag hm hu (Segment.balanced_eq_some_iff.mpr ⟨rfl, hb⟩), List.append_nil]
  rfl

theorem fits_tagPiece (ht : m.TagAt front kind (content ++ after)) (hb : Balances (m.depth kind) content) :
    (tagPiece m front kind content).Fits m front after :=
  .tag ht hb (Token.hasBody_iff.mpr rfl)

/-- A tag that fits has the token that the scanner gives it. -/
theorem tagPiece_eq {body : List Char} {strip : Bool} (hbody : Token.HasBody m kind content body strip)
    (front : List Char) : tagPiece m front kind content =
      ⟨⟨.tag kind, String.ofList body, strip, 1 + Text.lineFeeds front⟩, m.opener kind ++ content⟩ := by
  rw [Token.hasBody_iff] at hbody
  rw [tagPiece, Token.ofSegment]
  dsimp only
  rw [hbody]

/-- Behind a text that fits, there is a tag or the end. -/
theorem Tiled.stopsAt (h : Tiled m after (front ++ raw) pieces)
    (hkind : ∀ q ∈ pieces.head?, q.token.kind ≠ .text) (hs : m.StopsAt (front ++ raw ++ sources pieces) after) :
    m.StopsAt raw (sources pieces ++ after) := by
  cases pieces with
  | nil =>
    rcases hs with rfl | ⟨kind, rest, rfl, ht⟩
    · exact .inl rfl
    · rw [sources_nil, List.append_nil] at ht
      exact .inr ⟨kind, rest, rfl, tagAt_of_append ht⟩
  | cons p pieces =>
    obtain ⟨-, hfits, -, -⟩ := h
    cases hfits with
    | text => exact absurd rfl (hkind _ rfl)
    | @tag kind content body strip ht hb hbody =>
      refine .inr ⟨kind, content ++ (sources pieces ++ after), ?_, tagAt_of_append ht⟩
      simp only [sources_cons, List.append_assoc]

/-- **Pieces that tile a text up to a tag or the end give its first tokens.** -/
theorem Tiled.scanBehind_append (hm : m.Bare) (h : Tiled m after front pieces)
    (hs : m.StopsAt (front ++ sources pieces) after) : scanBehind m front (sources pieces ++ after) =
      (scanBehind m (front ++ sources pieces) after).map fun tokens => pieces.map token ++ tokens := by
  induction pieces generalizing front with
  | nil =>
    rw [sources_nil, List.append_nil, List.nil_append]
    rcases scanBehind m front after with u | tokens <;> rfl
  | cons p pieces ih =>
    obtain ⟨hne, hfits, hkind, hrest⟩ := h
    rw [sources_cons, ← List.append_assoc] at hs ⊢
    have hfirst : scanBehind m front (p.source ++ (sources pieces ++ after)) =
        (scanBehind m (front ++ p.source) (sources pieces ++ after)).map (p.token :: ·) := by
      cases hfits with
      | @text raw hl =>
        rw [scanBehind_literal_append hm hl (Tiled.stopsAt hrest (hkind rfl) hs), literal,
          if_neg fun hr => hne (List.isEmpty_iff.mp hr)]
        rfl
      | tag ht hb hbody =>
        rw [← tagPiece_eq hbody]
        exact scanBehind_tag_append hm ht.longest hb
    rw [List.append_assoc, hfirst, ih hrest hs]
    rcases scanBehind m (front ++ p.source ++ sources pieces) after with u | tokens <;> rfl

theorem Tokenizes.scanBehind_eq (hm : m.Bare) {result : Except Unterminated (List Token)}
    (h : Tokenizes m front cs result) : scanBehind m front cs = result := by
  cases h with
  | @ok pieces h =>
    have := h.scanBehind_append hm (.inl rfl)
    rw [List.append_nil, scanBehind_nil hm] at this
    rw [this]
    simp only [Except.map, List.append_nil]
  | @error pieces kind rest h ht hnever =>
    have hnil := untilTag_opener hm ht.longest
    rw [h.scanBehind_append hm (.inr ⟨kind, rest, rfl, ht⟩),
      scanBehind_unterminated hnil (Segment.balanced_eq_none_iff.mpr hnever), List.append_nil]
    rfl

/-! ## Every text has its pieces -/

theorem tiled_append_tag (hl : m.Literal [] raw (m.opener kind ++ content ++ (sources pieces ++ after)))
    (ht : m.TagAt (front ++ raw) kind (content ++ (sources pieces ++ after))) (hb : Balances (m.depth kind) content)
    (h : Tiled m after (front ++ raw ++ (m.opener kind ++ content)) pieces) :
    Tiled m after front (literal m front raw ++ tagPiece m (front ++ raw) kind content :: pieces) := by
  refine Tiled.literal_append ?_ ?_ ⟨?_, fits_tagPiece ht hb, nofun, h⟩
  · rwa [sources_cons, List.append_assoc]
  · rintro q ⟨⟩
    exact nofun
  · exact fun hnil => m.opener_ne_nil kind (List.append_eq_nil_iff.mp hnil).1

/-- Literal text and a tag in front of a text with tokens. -/
theorem Tokenizes.append {result : Except Unterminated (List Token)}
    (hl : m.Literal [] raw (m.opener kind ++ content ++ cs)) (ht : m.TagAt (front ++ raw) kind (content ++ cs))
    (hb : Balances (m.depth kind) content) (h : Tokenizes m (front ++ raw ++ (m.opener kind ++ content)) cs result) :
    Tokenizes m front (raw ++ (m.opener kind ++ content ++ cs)) (result.map fun tokens =>
      (literal m front raw).map token ++ (tagPiece m (front ++ raw) kind content).token :: tokens) := by
  cases h with
  | @ok pieces h =>
    have hall := Tokenizes.ok (tiled_append_tag (by simpa using hl) (by simpa using ht) hb h)
    simpa [Except.map, tagPiece] using hall
  | @error pieces kind' rest h ht' hnever =>
    have hall := tiled_append_tag hl ht hb h
    have hsource : sources (literal m front raw ++ tagPiece m (front ++ raw) kind content :: pieces) =
        raw ++ (m.opener kind ++ content ++ sources pieces) := by
      rw [sources_append, sources_literal]
      rfl
    have hfront : front ++ (raw ++ (m.opener kind ++ content ++ sources pieces)) =
        front ++ raw ++ (m.opener kind ++ content) ++ sources pieces := by
      simp only [List.append_assoc]
    have := Tokenizes.error hall (by rwa [hsource, hfront]) hnever
    rw [hsource, hfront] at this
    simpa only [List.append_assoc, Except.map] using this

/-- **The scanner tokenizes every text.** -/
theorem tokenizes_scanBehind (hm : m.Bare) (hf : front.getLast? ≠ some '\\') :
    Tokenizes m front cs (scanBehind m front cs) := by
  induction hn : cs.length using Nat.strong_induction_on generalizing front cs with
  | _ n ih =>
    rcases hu : m.untilTag 0 false cs with ⟨raw, _ | ⟨kind, rest⟩⟩
    · obtain ⟨hcs, hl, -⟩ := (Markup.untilTag_eq_iff hm).mp hu
      rw [Markup.afterText, List.append_nil] at hcs
      subst hcs
      rw [scanBehind_last hm hu]
      have hall := Tokenizes.ok (tiled_literal hl : Tiled m [] front _)
      rwa [sources_literal] at hall
    · obtain ⟨hcs, hl, ht⟩ := (Markup.untilTag_eq_iff hm).mp hu
      have htag := tagAt_append hf (ht kind rest rfl)
      rcases hb : balanced (m.depth kind) rest with _ | ⟨content, rest'⟩
      · rw [scanBehind_unterminated hu hb, hcs]
        have hall := Tokenizes.error (tiled_literal hl) (by rwa [sources_literal]) (Segment.balanced_eq_none_iff.mp hb)
        rwa [sources_literal] at hall
      · obtain ⟨hrest, hbal⟩ := Segment.balanced_eq_some_iff.mp hb
        rw [scanBehind_tag hm hu hb, hcs]
        have hlt : rest'.length < n := by
          have := m.length_opener_pos kind
          rw [← hn, hcs, hrest]
          simp only [Markup.afterText, List.length_append]
          omega
        have hlast := hbal.getLast?_ne hm (front ++ raw)
        have hbehind := ih rest'.length hlt hlast rfl
        rw [Markup.afterText, hrest, ← List.append_assoc (m.opener kind)] at hl ⊢
        rw [hrest] at htag
        exact hbehind.append hl htag hbal

/-- **The tokens are exactly those of the specification.** -/
theorem scanBehind_eq_iff (hm : m.Bare) {result : Except Unterminated (List Token)} :
    scanBehind m [] cs = result ↔ Tokenizes m [] cs result := by
  constructor
  · rintro rfl
    exact tokenizes_scanBehind hm nofun
  · exact Tokenizes.scanBehind_eq hm

end Piece

theorem Source.tokens_eq_error_iff {m : Markup} {s : Source} {e : Error} :
    s.tokens m = .error e ↔ ∃ u, Token.scan m s.text = .error u ∧ e = .unterminated s.origin u := by
  unfold Source.tokens
  split
  · next h => simp [h]
  · next h =>
    rw [h]
    constructor
    · rintro ⟨⟩
      exact ⟨_, rfl, rfl⟩
    · rintro ⟨u, ⟨⟩, rfl⟩
      rfl

open Piece (sources Tiled)

/-- **A text has exactly the tokens of the pieces that tile it, and it fails exactly if pieces lead up to a tag whose
braces never balance.** -/
theorem Source.tokens_eq_iff {m : Markup} (hm : m.Bare) (s : Source) :
    (∀ tokens, s.tokens m = .ok tokens ↔
      ∃ pieces, s.text.toList = sources pieces ∧ Tiled m [] [] pieces ∧ tokens = pieces.map Piece.token) ∧
    ∀ e, s.tokens m = .error e ↔
      ∃ pieces kind rest, s.text.toList = sources pieces ++ (m.opener kind ++ rest) ∧
        Tiled m (m.opener kind ++ rest) [] pieces ∧ m.TagAt (sources pieces) kind rest ∧
        (∀ p, p <+: rest → m.depth kind + p.count '\x7b' ≠ p.count '\x7d') ∧
        e = .unterminated s.origin ⟨kind, 1 + Text.lineFeeds (sources pieces)⟩ := by
  have hscan (result : Except Unterminated (List Token)) :
      Token.scan m s.text = result ↔ Piece.Tokenizes m [] s.text.toList result := Piece.scanBehind_eq_iff hm
  constructor
  · intro tokens
    rw [Source.tokens_eq_ok_iff, hscan]
    generalize s.text.toList = cs
    constructor
    · rintro ⟨h⟩
      exact ⟨_, rfl, h, rfl⟩
    · rintro ⟨pieces, rfl, h, rfl⟩
      exact .ok h
  · intro e
    rw [Source.tokens_eq_error_iff]
    simp only [hscan]
    generalize s.text.toList = cs
    constructor
    · rintro ⟨u, _ | ⟨h, ht, hnever⟩, rfl⟩
      exact ⟨_, _, _, rfl, h, ht, hnever, rfl⟩
    · rintro ⟨pieces, kind, rest, rfl, h, ht, hnever, rfl⟩
      exact ⟨_, .error h ht hnever, rfl⟩

/-- An escaped opener with a shorter one inside it, a strip marker, and a tag on the second line. -/
theorem Source.tokens_eq_iff_escaped :
    let s := Source.inMemory "page" "a\\\x7b\x7b\x7b\x7b\x7b x -\x7d\x7d\n\x7b%if y%\x7d"
    let tokens : List Token :=
      [⟨.text, "a\x7b\x7b\x7b", false, 1⟩, ⟨.tag .escapedExpression, " x ", true, 1⟩, ⟨.text, "\n", false, 1⟩,
        ⟨.tag .statement, "if y", false, 2⟩]
    Markup.secondPass.Bare ∧
      ∃ pieces, s.text.toList = sources pieces ∧ Tiled .secondPass [] [] pieces ∧
        tokens = pieces.map Piece.token := by
  intro s tokens
  have h : s.tokens .secondPass = .ok tokens := eq_ok_of_toOption (by decide +kernel)
  exact ⟨bare_secondPass, ((Source.tokens_eq_iff bare_secondPass s).1 tokens).mp h⟩

end Stencil
