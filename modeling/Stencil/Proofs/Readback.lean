import Mathlib.Data.List.Chain
import Stencil.Proofs.Closing
import Stencil.Proofs.Tiling

/-!
# Which streams can be converted

A conversion gives back a text with the same tokens, or it fails as a conversion. It never fails for tokens that are
clean (`Token.Clean`): whose texts hold no brace and no backslash and do not end like an opener without its brace, and
whose tags have bodies in which braces match. What such tokens are written as is tiled by the pieces they are written
as (`tiled_written`), so that scanning gives the tokens back, on lines that do not depend on the markup
(`scan_writeAll`).

What makes this so are the delimiters of the two passes. A text without braces is never continued to an opener by the
tag behind it (`not_opener_prefix_of_cleanText`), an opener is the longest one in front of its body
(`longest_of_cleanTag`), and a closer balances exactly what the opener opens (`balances_closer`).
-/

namespace Stencil

open Markup (firstPass secondPass)
open Segment (Balances balanced)
open Piece (sources Tiled scanBehind)

/-! ## Clean tokens -/

/-- Braces match: as many are closed as are opened, and never more of them before. -/
structure BracesMatch (cs : List Char) : Prop where
  even : cs.count '\x7b' = cs.count '\x7d'
  bounded : ∀ p, p <+: cs → p.count '\x7d' ≤ p.count '\x7b'

instance (cs : List Char) : Decidable (BracesMatch cs) :=
  decidable_of_iff (cs.count '\x7b' = cs.count '\x7d' ∧ ∀ p ∈ cs.inits, p.count '\x7d' ≤ p.count '\x7b') <| by
    constructor
    · rintro ⟨heven, hbounded⟩
      exact ⟨heven, fun p hp => hbounded p ((List.mem_inits _ _).mpr hp)⟩
    · rintro ⟨heven, hbounded⟩
      exact ⟨heven, fun p hp => hbounded p ((List.mem_inits _ _).mp hp)⟩

namespace Token

/-- A text that nothing behind it turns into an opener. -/
structure CleanText (body : List Char) : Prop where
  ne_nil : body ≠ []
  no_brace : '\x7b' ∉ body
  no_backslash : '\\' ∉ body
  last_ne_dollar : body.getLast? ≠ some '$'
  last_ne_bang : body.getLast? ≠ some '!'

/-- A body that stays what it is between delimiters. -/
structure CleanTag (kind : TagKind) (body : List Char) (strip : Bool) : Prop where
  braces : BracesMatch body
  strip_of_last : body.getLast? = some stripMarker → strip = true
  head_ne : kind = .escapedExpression → body.head? ≠ some '\x7b'

/-- The token can be written between any others. -/
def Clean (t : Token) : Prop :=
  match t.kind with
  | .text => CleanText t.body.toList
  | .tag kind => CleanTag kind t.body.toList t.strip

/-- Not both are texts. -/
def Apart (a b : Token) : Prop := a.kind = .text → b.kind ≠ .text

/-- The tokens with the lines that they come to stand on, from a line on. -/
def onLines : Nat → List Token → List Token
  | _, [] => []
  | line, t :: ts => { t with line } :: onLines (line + Text.lineFeeds t.body.toList) ts

theorem map_content_onLines (line : Nat) (tokens : List Token) :
    (onLines line tokens).map content = tokens.map content := by
  induction tokens generalizing line with
  | nil => rfl
  | cons t ts ih => rw [onLines, List.map_cons, List.map_cons, ih, content, content]

end Token

/-! ## The delimiters of the two passes -/

section Passes

variable {m : Markup} (hm : m = firstPass ∨ m = secondPass)

include hm

theorem bare_pass : m.Bare := by
  rcases hm with rfl | rfl
  · intro k
    cases k <;> decide
  · exact bare_secondPass

theorem lineFeeds_opener (kind : TagKind) : Text.lineFeeds (m.opener kind) = 0 := by
  rcases hm with rfl | rfl
  · exact lineFeeds_opener_firstPass kind
  · exact lineFeeds_opener_secondPass kind

theorem lineFeeds_closer (kind : TagKind) : Text.lineFeeds (m.closer kind) = 0 := by
  rcases hm with rfl | rfl
  · rw [closer_firstPass]
    rfl
  · exact lineFeeds_closer_secondPass kind

theorem balances_closer (kind : TagKind) : Balances (m.depth kind) (m.closer kind) := by
  have h : balanced (m.depth kind) (m.closer kind) = some (m.closer kind, []) := by
    rcases hm with rfl | rfl <;> cases kind <;> decide
  exact (Segment.balanced_eq_some_iff.mp h).2

theorem head?_closer : (m.closer .escapedExpression).head? = some '\x7d' := by
  rcases hm with rfl | rfl <;> rfl

/-- A start of an opener without its brace ends in a dollar sign or an exclamation mark, or no opener goes on with what
the opener lacks. -/
theorem opener_start (kind : TagKind) : ∀ s ∈ (m.opener kind).inits, s ≠ [] → '\x7b' ∉ s → s.getLast? ≠ some '$' →
    s.getLast? ≠ some '!' → ∀ j, ¬ (m.opener kind).drop s.length <+: m.opener j ∧
      ¬ m.opener j <+: (m.opener kind).drop s.length := by
  rcases hm with rfl | rfl <;> cases kind <;> decide

theorem brace_mem_opener (kind : TagKind) : '\x7b' ∈ m.opener kind := by
  rcases hm with rfl | rfl <;> cases kind <;> decide

/-- Only the opener of escaped expressions is the start of another one, which goes on with a brace. -/
theorem opener_prefix_opener (j k : TagKind) (h : m.opener k <+: m.opener j) :
    j = k ∨ k = .escapedExpression ∧ m.opener j = m.opener k ++ ['\x7b'] := by
  revert h
  rcases hm with rfl | rfl <;> revert j k <;> decide

end Passes

/-! ## The tokens as they are written -/

section Written

variable {m : Markup} {kind : TagKind} {body raw after front : List Char} {strip : Bool} {t : Token} {ts : List Token}

/-- A tag is written as its body and a strip marker between the delimiters. -/
theorem toList_write_tag (h : t.kind = .tag kind) : (t.write m).toList =
    m.opener kind ++ (t.body.toList ++ Token.marker t.strip ++ m.closer kind) := by
  obtain ⟨_, body, strip, line⟩ := t
  cases h
  cases strip <;> simp [Token.write, Token.marker, Markup.opener, Markup.closer]

theorem toList_write_text (h : t.kind = .text) : (t.write m).toList = m.escapeFrom 0 t.body.toList := by
  obtain ⟨_, body, strip, line⟩ := t
  cases h
  simp [Token.write, Markup.escape]

/-- Braces that match leave a balance behind them as it is. -/
theorem BracesMatch.balances_append {depth : Nat} {cs : List Char} (hb : BracesMatch body) (hd : 0 < depth)
    (h : Balances depth cs) : Balances depth (body ++ cs) where
  closes := by
    have := hb.even
    have := h.closes
    simp only [List.count_append]
    omega
  least := by
    intro p hp hne
    rcases List.prefix_or_prefix_of_prefix hp (List.prefix_append body cs) with hle | ⟨q, rfl⟩
    · have := hb.bounded p hle
      omega
    · have hq : q <+: cs := (List.prefix_append_right_inj body).mp hp
      have := h.least q hq fun heq => hne (by rw [heq])
      have := hb.even
      simp only [List.count_append]
      omega

theorem bracesMatch_marker (strip : Bool) : BracesMatch (Token.marker strip) := by
  cases strip <;> decide

section Passes

variable (hm : m = firstPass ∨ m = secondPass)

include hm

/-- In front of a tag or the end, no opener begins in a clean text. -/
theorem not_opener_prefix_of_cleanText (h : Token.CleanText raw)
    (hafter : after = [] ∨ ∃ j rest, after = m.opener j ++ rest) {a s : List Char} (hraw : raw = a ++ s) (hs : s ≠ []) :
    ¬ m.opener kind <+: s ++ after := by
  intro hk
  have hbrace : '\x7b' ∉ s := fun hmem => h.no_brace (hraw ▸ List.mem_append_right a hmem)
  have hlast : s.getLast? = raw.getLast? := by rw [hraw, List.getLast?_append_of_ne_nil _ hs]
  rcases List.prefix_or_prefix_of_prefix hk (List.prefix_append s after) with hle | ⟨o, ho⟩
  · exact hbrace (hle.subset (brace_mem_opener hm kind))
  · -- the opener goes on behind the text, in front of what the next opener is
    have hstart := opener_start hm kind s ((List.mem_inits _ _).mpr ⟨o, ho⟩) hs hbrace (hlast ▸ h.last_ne_dollar)
      (hlast ▸ h.last_ne_bang)
    rw [← ho, List.drop_left] at hstart
    rw [← ho, List.prefix_append_right_inj] at hk
    rcases hafter with rfl | ⟨j, rest, rfl⟩
    · rw [List.prefix_nil.mp hk, List.append_nil] at ho
      exact hbrace (ho ▸ brace_mem_opener hm kind)
    · rcases List.prefix_or_prefix_of_prefix hk (List.prefix_append _ rest) with hle | hle
      · exact (hstart j).1 hle
      · exact (hstart j).2 hle

theorem plain_of_cleanText (h : Token.CleanText raw) : m.Plain raw := by
  intro s hs
  obtain ⟨a, rfl⟩ := hs
  rcases eq_or_ne s [] with rfl | hne
  · exact Markup.openerAt_nil
  · rw [Markup.openerAt_eq_none_iff]
    intro k hk
    rw [← List.append_nil s] at hk
    exact not_opener_prefix_of_cleanText hm h (.inl rfl) rfl hne hk

theorem literal_of_cleanText (h : Token.CleanText raw) (hafter : after = [] ∨ ∃ j rest, after = m.opener j ++ rest) :
    m.Literal [] raw after where
  passed a s k hraw hs hk := absurd hk (not_opener_prefix_of_cleanText hm h hafter hraw hs)
  whole a s k hraw hs he := by
    refine absurd (List.mem_of_getLast? he.1) fun hmem => h.no_backslash ?_
    rw [hraw]
    exact List.mem_append_left s hmem

/-- The opener of a clean tag is the longest one in front of its content. -/
theorem longest_of_cleanTag (h : Token.CleanTag kind body strip) (rest : List Char) :
    m.Longest kind (m.opener kind ++ (body ++ Token.marker strip ++ m.closer kind ++ rest)) := by
  refine ⟨List.prefix_append _ _, fun j hj => ?_⟩
  rcases List.prefix_or_prefix_of_prefix hj (List.prefix_append _ _) with hle | hle
  · exact hle.length_le
  · rcases opener_prefix_opener hm j kind hle with rfl | ⟨rfl, hlonger⟩
    · exact Nat.le_refl _
    · -- the longer opener would need a brace at the start of the content
      rw [hlonger, List.prefix_append_right_inj] at hj
      obtain ⟨more, hmore⟩ := hj
      have hhead := congrArg List.head? hmore
      rw [List.append_assoc, List.append_assoc, List.head?_append, List.head?_append, List.head?_append,
        List.head?_append, head?_closer hm] at hhead
      rcases hbody : body.head? with _ | c
      · rw [hbody] at hhead
        cases strip <;> cases hhead
      · rw [hbody] at hhead
        cases hhead
        exact absurd hbody (h.head_ne rfl)

theorem balances_of_cleanTag (h : Token.CleanTag kind body strip) :
    Balances (m.depth kind) (body ++ Token.marker strip ++ m.closer kind) := by
  have hd := depth_pos hm kind
  rw [List.append_assoc]
  exact h.braces.balances_append hd ((bracesMatch_marker strip).balances_append hd (balances_closer hm kind))

end Passes

/-- The body and the strip marker of a clean tag are found again. -/
theorem hasBody_of_cleanTag (h : Token.CleanTag kind body strip) :
    Token.HasBody m kind (body ++ Token.marker strip ++ m.closer kind) body strip := by
  have hinner : Token.inner m kind (body ++ Token.marker strip ++ m.closer kind) = body ++ Token.marker strip := by
    rw [Token.inner, Text.byteSize_append, Token.byteSize_closer, Nat.add_sub_cancel, Text.takeBytes_byteSize_append]
  refine ⟨?_, ?_⟩
  · have hcut := Token.cutBack_inner m kind (body ++ Token.marker strip ++ m.closer kind)
    rwa [hinner] at hcut
  · cases strip with
    | true => simp [Token.marker]
    | false =>
      rw [Token.marker, if_neg Bool.false_ne_true, List.append_nil]
      exact ⟨fun hstrip => absurd hstrip Bool.false_ne_true, h.strip_of_last⟩

/-! ## The stream as it is written -/

/-- The pieces that tokens are written as, behind a text. -/
def written (m : Markup) : List Char → List Token → List Piece
  | _, [] => []
  | front, t :: ts =>
    ⟨{ t with line := 1 + Text.lineFeeds front }, (t.write m).toList⟩ :: written m (front ++ (t.write m).toList) ts

theorem sources_written (m : Markup) (front : List Char) (ts : List Token) :
    sources (written m front ts) = (Token.writeAll m ts).toList := by
  rw [Token.toList_writeAll]
  induction ts generalizing front with
  | nil => rfl
  | cons t ts ih => rw [written, Piece.sources_cons, ih, List.flatMap_cons]

/-- Behind a text comes the opener of a tag or nothing. -/
theorem writeAll_of_apart (hts : ∀ u ∈ ts.head?, u.kind ≠ .text) : (Token.writeAll m ts).toList = [] ∨
    ∃ j rest, (Token.writeAll m ts).toList = m.opener j ++ rest := by
  cases ts with
  | nil => exact .inl rfl
  | cons u ts =>
    rcases hkind : u.kind with _ | j
    · exact absurd hkind (hts u rfl)
    · rw [Token.toList_writeAll, List.flatMap_cons, toList_write_tag hkind, List.append_assoc]
      exact .inr ⟨j, _, rfl⟩

section Passes

variable (hm : m = firstPass ∨ m = secondPass)

include hm

/-- What a token is written as has the line feeds of its body. -/
theorem lineFeeds_write (t : Token) :
    Text.lineFeeds (t.write m).toList = Text.lineFeeds t.body.toList := by
  rcases hkind : t.kind with _ | kind
  · rw [toList_write_text hkind, Markup.lineFeeds_escapeFrom]
  · have hmarker : Text.lineFeeds (Token.marker t.strip) = 0 := by cases t.strip <;> rfl
    rw [toList_write_tag hkind]
    simp only [Text.lineFeeds_append, lineFeeds_opener hm, lineFeeds_closer hm, hmarker, Nat.add_zero, Nat.zero_add]

theorem map_token_written (front : List Char) (ts : List Token) :
    (written m front ts).map Piece.token = Token.onLines (1 + Text.lineFeeds front) ts := by
  induction ts generalizing front with
  | nil => rfl
  | cons t ts ih =>
    rw [written, List.map_cons, ih, Token.onLines, Text.lineFeeds_append, lineFeeds_write hm, Nat.add_assoc]

/-- A clean token fits where it is written. -/
theorem fits_write (ht : t.Clean) (hstrip : t.kind = .text → t.strip = false) (hfront : front.getLast? ≠ some '\\')
    (hafter : t.kind = .text → after = [] ∨ ∃ j rest, after = m.opener j ++ rest) :
    Piece.Fits m front after ⟨{ t with line := 1 + Text.lineFeeds front }, (t.write m).toList⟩ := by
  obtain ⟨kind, body, strip, line⟩ := t
  cases kind with
  | text =>
    cases hstrip rfl
    have hplain := plain_of_cleanText hm ht
    have hbody : String.ofList (m.withoutEscapes body.toList) = body := by
      rw [← Markup.unescapeFrom_eq_withoutEscapes (bare_pass hm), Markup.unescapeFrom_of_plain hplain,
        String.ofList_toList]
    have hfits : Piece.Fits m front after
        ⟨⟨.text, String.ofList (m.withoutEscapes body.toList), false, 1 + Text.lineFeeds front⟩, body.toList⟩ :=
      .text (literal_of_cleanText hm ht (hafter rfl))
    rw [hbody] at hfits
    rw [toList_write_text rfl, Markup.escapeFrom_of_plain hplain]
    exact hfits
  | tag kind =>
    have hfits := Piece.Fits.tag ⟨hfront, longest_of_cleanTag hm ht after⟩ (balances_of_cleanTag hm ht)
      (hasBody_of_cleanTag ht)
    rw [String.ofList_toList] at hfits
    rw [toList_write_tag rfl]
    exact hfits

/-- A clean token is written as something, which does not end in a backslash. -/
theorem getLast?_write_ne (ht : t.Clean) (front : List Char) :
    (t.write m).toList ≠ [] ∧ (front ++ (t.write m).toList).getLast? ≠ some '\\' := by
  obtain ⟨kind, body, strip, line⟩ := t
  cases kind with
  | text =>
    have htext : Token.CleanText body.toList := ht
    rw [toList_write_text rfl, Markup.escapeFrom_of_plain (plain_of_cleanText hm htext)]
    refine ⟨htext.ne_nil, ?_⟩
    rw [List.getLast?_append_of_ne_nil _ htext.ne_nil]
    exact fun hlast => htext.no_backslash (List.mem_of_getLast? hlast)
  | tag kind =>
    rw [toList_write_tag rfl]
    exact ⟨fun hnil => m.opener_ne_nil kind (List.append_eq_nil_iff.mp hnil).1,
      (balances_of_cleanTag hm ht).getLast?_ne (bare_pass hm) front⟩

/-- **Clean tokens, of which no two texts are neighbours, are written as pieces that tile what is written.** -/
theorem tiled_written (hclean : ∀ t ∈ ts, t.Clean) (hstrip : ∀ t ∈ ts, t.kind = .text → t.strip = false)
    (hapart : ts.IsChain Token.Apart) (hfront : front.getLast? ≠ some '\\') :
    Tiled m [] front (written m front ts) := by
  induction ts generalizing front with
  | nil => trivial
  | cons t ts ih =>
    obtain ⟨ht, hts⟩ := List.forall_mem_cons.mp hclean
    obtain ⟨hst, hsts⟩ := List.forall_mem_cons.mp hstrip
    obtain ⟨hhead, hrest⟩ := List.isChain_cons.mp hapart
    obtain ⟨hne, hlast⟩ := getLast?_write_ne hm ht front
    refine ⟨hne, ?_, ?_, ih hts hsts hrest hlast⟩
    · rw [List.append_nil, sources_written]
      exact fits_write hm ht hst hfront fun hkind => writeAll_of_apart fun u hu => hhead u hu hkind
    · intro hkind q hq
      cases ts with
      | nil => cases hq
      | cons u ts =>
        cases hq
        exact hhead u rfl hkind

/-- Clean tokens are read back, on lines that do not depend on the markup. -/
theorem scan_writeAll (hclean : ∀ t ∈ ts, t.Clean) (hstrip : ∀ t ∈ ts, t.kind = .text → t.strip = false)
    (hapart : ts.IsChain Token.Apart) : Token.scan m (Token.writeAll m ts) = .ok (Token.onLines 1 ts) := by
  have htiled : Tiled m [] [] (written m [] ts) := tiled_written hm hclean hstrip hapart nofun
  have hscan := htiled.scanBehind_append (bare_pass hm) (.inl rfl)
  rw [List.append_nil, Piece.scanBehind_nil (bare_pass hm), sources_written, map_token_written hm] at hscan
  exact hscan.trans (congrArg Except.ok (List.append_nil _))

end Passes

end Written

/-! ## Conversions -/

/-- A conversion of tokens succeeds or fails as the one that it is put down to. -/
theorem convertTokens_eq_ok_iff {m : Markup} {origin output : String} {tokens : List Token} :
    convertTokens m origin tokens = .ok output ↔ output = Token.writeAll m tokens ∧
      ∃ found, Token.scan m output = .ok found ∧ tokens.map Token.content = found.map Token.content := by
  rw [← Token.convert_eq_ok_iff, convertTokens]
  split
  · next h => rw [h, Except.ok.injEq, Except.ok.injEq]
  · next h => exact ⟨nofun, fun hok => nomatch h.symm.trans hok⟩

/-- **Conversion is sound for all tokens and complete for clean ones.** In every markup, tokens are converted to a text
that scans to the same tokens, lines aside, or the conversion fails as one of the template. Clean tokens without
neighbouring texts, whose texts have no strip marker, are converted to both passes, and what they are converted to scans
to the same tokens on the same lines. -/
theorem convertTokens_sound_complete (tokens : List Token) (origin : String) :
    (∀ m : Markup,
      (∃ output found, convertTokens m origin tokens = .ok output ∧ Token.scan m output = .ok found ∧
        found.map Token.content = tokens.map Token.content) ∨
      ∃ fault, convertTokens m origin tokens = .error (.conversion origin fault)) ∧
    ((∀ t ∈ tokens, t.Clean) → tokens.IsChain Token.Apart → (∀ t ∈ tokens, t.kind = .text → t.strip = false) →
      ∃ first second found, convertTokens firstPass origin tokens = .ok first ∧
        convertTokens secondPass origin tokens = .ok second ∧ Token.scan firstPass first = .ok found ∧
        Token.scan secondPass second = .ok found ∧ found.map Token.content = tokens.map Token.content) := by
  refine ⟨fun m => ?_, fun hclean hapart hstrip => ?_⟩
  · rcases hconvert : convertTokens m origin tokens with e | output
    · rw [convertTokens] at hconvert
      split at hconvert
      · cases hconvert
      · cases hconvert
        exact .inr ⟨_, rfl⟩
    · obtain ⟨-, found, hscan, hcontent⟩ := convertTokens_eq_ok_iff.mp hconvert
      exact .inl ⟨output, found, rfl, hscan, hcontent.symm⟩
  · have hcontent := Token.map_content_onLines 1 tokens
    have hall : ∀ {m : Markup}, m = firstPass ∨ m = secondPass →
        convertTokens m origin tokens = .ok (Token.writeAll m tokens) ∧
          Token.scan m (Token.writeAll m tokens) = .ok (Token.onLines 1 tokens) := by
      intro m hm
      have hscan := scan_writeAll hm hclean hstrip hapart
      exact ⟨convertTokens_eq_ok_iff.mpr ⟨rfl, _, hscan, hcontent.symm⟩, hscan⟩
    exact ⟨_, _, _, (hall (.inl rfl)).1, (hall (.inr rfl)).1, (hall (.inl rfl)).2, (hall (.inr rfl)).2, hcontent⟩

/-- A text that ends in a percent sign, a tag with braces and a strip marker, and a tag that begins with a brace. -/
theorem convertTokens_sound_complete_braces :
    let tokens : List Token := [⟨.text, "a\n%", false, 0⟩, ⟨.tag .escapedExpression, "f(\x7b\x7d)", true, 0⟩,
      ⟨.tag .statement, "\x7b\x7d-", true, 0⟩]
    (∀ t ∈ tokens, t.Clean) ∧ tokens.IsChain Token.Apart ∧ (∀ t ∈ tokens, t.kind = .text → t.strip = false) ∧
      ∃ first second found, convertTokens firstPass "page" tokens = .ok first ∧
        convertTokens secondPass "page" tokens = .ok second ∧ Token.scan firstPass first = .ok found ∧
        Token.scan secondPass second = .ok found ∧ found.map Token.content = tokens.map Token.content := by
  intro tokens
  have hclean : ∀ t ∈ tokens, t.Clean := by
    intro t ht
    simp only [tokens, List.mem_cons, List.not_mem_nil, or_false] at ht
    rcases ht with rfl | rfl | rfl
    · exact ⟨by decide, by decide, by decide, by decide, by decide⟩
    · exact ⟨by decide, by decide, by decide⟩
    · exact ⟨by decide, by decide, by decide⟩
  have hapart : tokens.IsChain Token.Apart :=
    .cons_cons (fun _ => nofun) (.cons_cons nofun (.singleton _))
  have hstrip : ∀ t ∈ tokens, t.kind = .text → t.strip = false := by decide
  exact ⟨hclean, hapart, hstrip, (convertTokens_sound_complete tokens "page").2 hclean hapart hstrip⟩

/-- Not all clean tokens are converted: the strip marker of a text is not written, so that it is not read back. -/
theorem not_all_clean_converted :
    ¬ ∀ m, m = firstPass ∨ m = secondPass → ∀ (tokens : List Token) (origin : String), (∀ t ∈ tokens, t.Clean) →
      tokens.IsChain Token.Apart → ∃ output, convertTokens m origin tokens = .ok output := by
  intro hall
  obtain ⟨output, h⟩ := hall firstPass (.inl rfl) [⟨.text, "a", true, 1⟩] "test"
    (List.forall_mem_singleton.mpr ⟨by decide, by decide, by decide, by decide, by decide⟩) (.singleton _)
  obtain ⟨rfl, found, hscan, hcontent⟩ := convertTokens_eq_ok_iff.mp h
  have hfound : Token.scan firstPass (Token.writeAll firstPass [⟨.text, "a", true, 1⟩]) =
      .ok [⟨.text, "a", false, 1⟩] := eq_ok_of_toOption (by decide +kernel)
  cases hscan.symm.trans hfound
  revert hcontent
  decide

end Stencil
