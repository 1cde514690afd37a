import Mathlib.Data.List.Forall2
import Stencil.Proofs.Outcome
import Stencil.Proofs.Scanning
import Stencil.Template

/-!
# Writing tokens back

A conversion succeeds exactly if what is written reads back (`Source.convert_eq_ok_iff`), and what is written depends on
the tokens up to their lines only (`Token.writeAll_congr`).

- Where no opener stands behind a backslash, tokens of the first pass written in the first pass are the text itself
  (`Token.writeAll_of_scan`), so a conversion that succeeds can be undone (`convert_convert`).
- A text that is converted from the first pass to the second one has its tokens on the same lines afterwards
  (`scan_secondPass_eq`): every piece that is written is read back as a segment of its own, since the braces of a tag
  still balance at its end and a piece of text is settled by what it unescapes to.
-/

namespace Stencil

open Segment (Laid Scans sources)

/-! ## Tokens of segments -/

namespace Token

variable {m goal : Markup}

/-- The content of a tag without its closer. -/
def inner (m : Markup) (kind : TagKind) (content : List Char) : List Char :=
  Text.takeBytes (Text.byteSize content - m.closerSize kind) content

/-- The strip marker as it is written. -/
def marker (strip : Bool) : List Char := if strip then [stripMarker] else []

theorem bodyOf_append_marker (m : Markup) (kind : TagKind) (content : List Char) :
    (bodyOf m kind content).1 ++ marker (bodyOf m kind content).2 = inner m kind content := by
  have hbody : bodyOf m kind content = if (inner m kind content).getLast? == some stripMarker then
      ((inner m kind content).dropLast, true) else (inner m kind content, false) := rfl
  rw [hbody]
  split
  · next h =>
    obtain ⟨front, hfront⟩ := List.getLast?_eq_some_iff.mp (beq_iff_eq.mp h)
    rw [hfront, List.dropLast_concat]
    rfl
  · exact List.append_nil _

/-- A tag is written with its inner content between the delimiters. -/
theorem write_ofSegment_tag (goal m : Markup) (line : Nat) (kind : TagKind) (content : List Char) :
    (write goal (ofSegment m ⟨line, .tag kind content⟩)).toList =
      goal.opener kind ++ inner m kind content ++ goal.closer kind := by
  rw [← bodyOf_append_marker]
  rcases hb : bodyOf m kind content with ⟨body, strip⟩
  cases strip <;> simp [write, ofSegment, hb, marker, Markup.opener, Markup.closer]

/-- Literal text is written with its openers escaped. -/
theorem write_ofSegment_text (goal m : Markup) (line : Nat) (raw : List Char) :
    (write goal (ofSegment m ⟨line, .text raw⟩)).toList = goal.escapeFrom 0 (m.unescapeFrom 0 raw) := by
  simp [write, ofSegment, Markup.escape]

theorem write_congr {a b : Token} (h : a.content = b.content) : write goal a = write goal b := by
  obtain ⟨kind, body, strip, line⟩ := a
  obtain ⟨kind', body', strip', line'⟩ := b
  cases h
  rfl

/-- Lists of tokens with the same contents agree token by token. -/
theorem forall₂_of_map_content_eq {as bs : List Token} (h : as.map content = bs.map content) :
    List.Forall₂ (fun a b => a.content = b.content) as bs := by
  rwa [← List.forall₂_eq_eq_eq, List.forall₂_map_left_iff, List.forall₂_map_right_iff] at h

/-- What is written depends on the tokens up to their lines. -/
theorem writeAll_congr {as bs : List Token} (h : as.map content = bs.map content) :
    writeAll goal as = writeAll goal bs := by
  have hall := forall₂_of_map_content_eq h
  clear h
  induction hall with
  | nil => rfl
  | cons hab _ ih =>
    simp only [writeAll, List.map_cons, String.join_cons] at ih ⊢
    rw [write_congr hab, ih]

theorem toList_writeAll (goal : Markup) (tokens : List Token) :
    (writeAll goal tokens).toList = tokens.flatMap fun t => (write goal t).toList := by
  induction tokens with
  | nil => rfl
  | cons t tokens ih =>
    rw [writeAll, List.map_cons, String.join_cons, String.toList_append, List.flatMap_cons, ← ih]
    rfl

/-- The segments that the tokens of a text come from. -/
theorem scan_eq_ok_iff {text : String} {tokens : List Token} : scan m text = .ok tokens ↔
    ∃ segments, Segment.scan m text.toList = .ok segments ∧ tokens = segments.map (ofSegment m) := by
  unfold scan
  rcases Segment.scan m text.toList with fault | segments
  · exact ⟨nofun, nofun⟩
  · constructor
    · intro h
      cases h
      exact ⟨segments, rfl, rfl⟩
    · rintro ⟨_, h, rfl⟩
      cases h
      rfl

end Token

/-- A conversion succeeds exactly if what is written reads back as the same tokens, lines aside. -/
theorem Source.convert_eq_ok_iff {s : Source} {m goal : Markup} {output : String} :
    s.convert m goal = .ok output ↔ ∃ tokens found, Token.scan m s.text = .ok tokens ∧
      output = Token.writeAll goal tokens ∧ Token.scan goal output = .ok found ∧
        tokens.map Token.content = found.map Token.content := by
  unfold Source.convert Source.tokens
  rcases Token.scan m s.text with fault | tokens
  · constructor
    · intro h
      cases h
    · rintro ⟨_, _, h, -⟩
      cases h
  · have hconvert : convertTokens goal s.origin tokens = .ok output ↔ Token.convert goal tokens = .ok output := by
      unfold convertTokens
      split
      · next out h => rw [h]; simp
      · next h => rw [h]; simp
    constructor
    · intro h
      obtain ⟨hout, found, hscan, hcontent⟩ := Token.convert_eq_ok_iff.mp (hconvert.mp h)
      exact ⟨tokens, found, rfl, hout, hscan, hcontent⟩
    · rintro ⟨tokens', found, h, hout, hscan, hcontent⟩
      cases h
      exact hconvert.mpr (Token.convert_eq_ok_iff.mpr ⟨hout, found, hscan, hcontent⟩)

/-! ## Back to the first pass -/

section FirstPass

open Markup (firstPass)

/-- Every closer of the first pass is one right brace. -/
theorem closer_firstPass (kind : TagKind) : firstPass.closer kind = ['\x7d'] := by
  cases kind <;> rfl

theorem depth_firstPass (kind : TagKind) : firstPass.depth kind = 1 := by
  cases kind <;> decide

theorem closerSize_firstPass (kind : TagKind) : firstPass.closerSize kind = 1 := by
  cases kind <;> decide

/-- The content of a tag of the first pass is its inner content and a right brace. -/
theorem Token.inner_append_firstPass {kind : TagKind} {content : List Char}
    (h : Segment.balanced (firstPass.depth kind) content = some (content, [])) :
    Token.inner firstPass kind content ++ ['\x7d'] = content := by
  rw [depth_firstPass] at h
  obtain ⟨front, rfl⟩ := Segment.exists_concat_of_balanced h
  have hsize : Text.byteSize (front ++ ['\x7d']) - 1 = Text.byteSize front := by
    rw [Text.byteSize_append]
    exact Nat.add_sub_cancel (Text.byteSize front) 1
  rw [Token.inner, closerSize_firstPass, hsize, Text.takeBytes_byteSize_append]

/-- Where no opener stands behind a backslash, the tokens written back are the text. -/
theorem Token.writeAll_of_scan {text : String} {tokens : List Token} (hn : firstPass.NoEscape text.toList)
    (h : Token.scan firstPass text = .ok tokens) : Token.writeAll firstPass tokens = text := by
  obtain ⟨segments, hscan, rfl⟩ := Token.scan_eq_ok_iff.mp h
  have hs := Segment.scans_of_scanFrom hscan
  rw [← String.toList_inj, Token.toList_writeAll, List.flatMap_map, ← hs.sources_eq, sources]
  refine List.flatMap_congr fun s hmem => ?_
  obtain ⟨line, segment⟩ := s
  cases segment with
  | text raw =>
    have hplain := hs.plain_of_mem hn (fun h => absurd h Bool.false_ne_true) hmem rfl
    rw [Token.write_ofSegment_text, Markup.unescapeFrom_of_plain hplain, Markup.escapeFrom_of_plain hplain,
      Segment.source]
  | tag kind content =>
    have hinner := Token.inner_append_firstPass (hs.balanced_of_mem hmem rfl)
    rw [Token.write_ofSegment_tag, closer_firstPass, List.append_assoc, hinner, Segment.source]

/-- **A conversion can be undone.** What a text of the first pass is converted to converts back to the text, as long as
no opener of the text stands behind a backslash. -/
theorem convert_convert {s : Source} {goal : Markup} {output : String} (hn : firstPass.NoEscape s.text.toList)
    (h : s.convert firstPass goal = .ok output) : { s with text := output }.convert goal firstPass = .ok s.text := by
  obtain ⟨tokens, found, hscan, -, hfound, hcontent⟩ := Source.convert_eq_ok_iff.mp h
  refine Source.convert_eq_ok_iff.mpr ⟨found, tokens, hfound, ?_, hscan, hcontent.symm⟩
  rw [← Token.writeAll_congr hcontent, Token.writeAll_of_scan hn hscan]

/-- Text that looks like a tag of the second pass, and an expression with a strip marker. -/
theorem convert_convert_strip :
    let s := Source.inMemory "page" "\\ \x7b%$\x7b x -\x7d"
    let output := "\\ \\\x7b%\x7b\x7b\x7b x -\x7d\x7d\x7d"
    firstPass.NoEscape s.text.toList ∧ s.convert firstPass .secondPass = .ok output ∧
      { s with text := output }.convert .secondPass firstPass = .ok s.text := by
  intro s output
  have hn : firstPass.NoEscape s.text.toList := by decide
  have h : s.convert firstPass .secondPass = .ok output := eq_ok_of_toOption (by decide +kernel)
  exact ⟨hn, h, convert_convert hn h⟩

end FirstPass

/-! ## On to the second pass -/

section SecondPass

open Markup (firstPass secondPass)

theorem bare_secondPass : secondPass.Bare := by
  intro k
  cases k <;> decide

/-- The delimiters of both passes stand on one line. -/
theorem lineFeeds_opener_firstPass (kind : TagKind) : Text.lineFeeds (firstPass.opener kind) = 0 := by
  cases kind <;> decide

theorem lineFeeds_opener_secondPass (kind : TagKind) : Text.lineFeeds (secondPass.opener kind) = 0 := by
  cases kind <;> decide

theorem lineFeeds_closer_secondPass (kind : TagKind) : Text.lineFeeds (secondPass.closer kind) = 0 := by
  cases kind <;> decide

/-- Every closer of the second pass balances what its opener opens. -/
theorem balanced_closer_secondPass (kind : TagKind) :
    ∃ more, secondPass.depth kind = more + 1 ∧
      Segment.balanced (more + 1) (secondPass.closer kind) = some (secondPass.closer kind, []) := by
  cases kind
  · exact ⟨0, by decide, by decide⟩
  · exact ⟨2, by decide, by decide⟩
  · exact ⟨1, by decide, by decide⟩
  · exact ⟨0, by decide, by decide⟩

/-- The inner content of a tag of the first pass balances with a closer of the second pass. -/
theorem balanced_inner_append_closer {kind : TagKind} {content : List Char}
    (h : Segment.balanced (firstPass.depth kind) content = some (content, [])) :
    Segment.balanced (secondPass.depth kind) (Token.inner firstPass kind content ++ secondPass.closer kind) =
      some (Token.inner firstPass kind content ++ secondPass.closer kind, []) := by
  have hinner := Token.inner_append_firstPass h
  rw [depth_firstPass, ← hinner] at h
  obtain ⟨more, hdepth, hcloser⟩ := balanced_closer_secondPass kind
  have hbalanced := Segment.balanced_append_of_closing h more (secondPass.closer kind)
  rw [Nat.zero_add] at hbalanced
  rw [hdepth, hbalanced, hcloser]
  rfl

/-- If segments of the second pass make up what their tokens are written as, and the written tags balance at their end,
then each segment is what its token is written as. -/
theorem source_eq_write {segments : List LocatedSegment}
    (h : sources secondPass segments = segments.flatMap fun s =>
      (Token.write secondPass (Token.ofSegment secondPass s)).toList)
    (ht : ∀ s ∈ segments, ∀ kind content, s.segment = .tag kind content →
      Segment.balanced (secondPass.depth kind) content = some (content, []) ∧
        Segment.balanced (secondPass.depth kind) (Token.inner secondPass kind content ++ secondPass.closer kind) =
          some (Token.inner secondPass kind content ++ secondPass.closer kind, [])) :
    ∀ s ∈ segments, s.segment.source secondPass =
      (Token.write secondPass (Token.ofSegment secondPass s)).toList := by
  induction segments with
  | nil => exact nofun
  | cons s segments ih =>
    rw [Segment.sources_cons, List.flatMap_cons] at h
    have hhead : s.segment.source secondPass = (Token.write secondPass (Token.ofSegment secondPass s)).toList := by
      obtain ⟨line, segment⟩ := s
      cases segment with
      | text raw =>
        -- both are texts in front of the same text that unescape to the same
        rw [Token.write_ofSegment_text] at h ⊢
        refine Markup.eq_of_unescapeFrom_eq bare_secondPass (List.prefix_append _ _) ⟨_, h.symm⟩ ?_
        rw [Markup.unescapeFrom_escapeFrom bare_secondPass, Segment.source]
      | tag kind content =>
        obtain ⟨hread, hwritten⟩ := ht _ List.mem_cons_self kind content rfl
        rw [Token.write_ofSegment_tag, List.append_assoc] at h ⊢
        rw [Segment.source, List.append_assoc, List.append_assoc, List.append_cancel_left_eq] at h
        have hread := Segment.balanced_append hread (sources secondPass segments)
        rw [h, ← List.append_assoc, Segment.balanced_append hwritten] at hread
        rw [Segment.source, (Prod.mk.inj (Option.some.inj hread)).1]
    rw [hhead, List.append_cancel_left_eq] at h
    intro t hmem
    rcases List.mem_cons.mp hmem with rfl | hmem
    · exact hhead
    · exact ih h (fun s hs => ht s (List.mem_cons_of_mem _ hs)) t hmem

/-- What a segment of the first pass is written as has as many line feeds. -/
theorem lineFeeds_source_firstPass {s : LocatedSegment}
    (h : ∀ kind content, s.segment = .tag kind content →
      Segment.balanced (firstPass.depth kind) content = some (content, [])) :
    Text.lineFeeds (s.segment.source firstPass) =
      Text.lineFeeds (Token.write secondPass (Token.ofSegment firstPass s)).toList := by
  obtain ⟨line, segment⟩ := s
  cases segment with
  | text raw =>
    rw [Token.write_ofSegment_text, Markup.lineFeeds_escapeFrom, Markup.lineFeeds_unescapeFrom, Segment.source]
  | tag kind content =>
    have hinner := Token.inner_append_firstPass (h kind content rfl)
    have hfeeds : Text.lineFeeds content = Text.lineFeeds (Token.inner firstPass kind content) := by
      have := congrArg Text.lineFeeds hinner
      rw [Text.lineFeeds_append] at this
      exact this.symm
    rw [Token.write_ofSegment_tag, Segment.source]
    simp only [Text.lineFeeds_append, lineFeeds_opener_firstPass, lineFeeds_opener_secondPass,
      lineFeeds_closer_secondPass, hfeeds, Nat.add_zero]

theorem Token.line_ofSegment (m : Markup) (s : LocatedSegment) : (ofSegment m s).line = s.line := by
  obtain ⟨line, segment⟩ := s
  cases segment <;> rfl

/-- Tags that agree have the same inner content. -/
theorem Token.inner_eq_of_content_eq {m m' : Markup} {line line' : Nat} {segment : Segment} {kind : TagKind}
    {content : List Char}
    (h : (ofSegment m ⟨line, segment⟩).content = (ofSegment m' ⟨line', .tag kind content⟩).content) :
    ∃ content', segment = .tag kind content' ∧ inner m kind content' = inner m' kind content := by
  cases segment with
  | text raw => cases congrArg Prod.fst h
  | tag kind' content' =>
    obtain ⟨hkind, hrest⟩ := Prod.mk.inj h
    cases hkind
    obtain ⟨hbody, hstrip⟩ := Prod.mk.inj hrest
    refine ⟨content', rfl, ?_⟩
    have hbody : (bodyOf m kind content').1 = (bodyOf m' kind content).1 := String.ofList_inj.mp hbody
    have hstrip : (bodyOf m kind content').2 = (bodyOf m' kind content).2 := hstrip
    rw [← bodyOf_append_marker, ← bodyOf_append_marker, hbody, hstrip]

/-- Tokens that agree but for their lines are the same if their segments have as many line feeds as what is written. -/
theorem tokens_eq_of_laid {m m' goal : Markup} {line : Nat} {as bs : List LocatedSegment} (ha : Laid m line as)
    (hb : Laid m' line bs)
    (hc : (as.map (Token.ofSegment m)).map Token.content = (bs.map (Token.ofSegment m')).map Token.content)
    (hfa : ∀ s ∈ as, Text.lineFeeds (s.segment.source m) =
      Text.lineFeeds (Token.write goal (Token.ofSegment m s)).toList)
    (hfb : ∀ s ∈ bs, Text.lineFeeds (s.segment.source m') =
      Text.lineFeeds (Token.write goal (Token.ofSegment m' s)).toList) :
    as.map (Token.ofSegment m) = bs.map (Token.ofSegment m') := by
  have hall := Token.forall₂_of_map_content_eq hc
  rw [List.forall₂_map_left_iff, List.forall₂_map_right_iff] at hall
  clear hc
  induction hall generalizing line with
  | nil => rfl
  | @cons a b _ _ hhead _ ih =>
    obtain ⟨hla, ha⟩ := ha
    obtain ⟨hlb, hb⟩ := hb
    have hline : (Token.ofSegment m a).line = (Token.ofSegment m' b).line := by
      rw [Token.line_ofSegment, Token.line_ofSegment, hla, hlb]
    have hfeeds : Text.lineFeeds (a.segment.source m) = Text.lineFeeds (b.segment.source m') := by
      rw [hfa a List.mem_cons_self, hfb b List.mem_cons_self, Token.write_congr hhead]
    rw [hfeeds] at ha
    rw [List.map_cons, List.map_cons, Token.ext_content hhead hline, ih ha hb
      (fun s hs => hfa s (List.mem_cons_of_mem _ hs)) fun s hs => hfb s (List.mem_cons_of_mem _ hs)]

/-- A text that is converted from the first pass to the second one has the same tokens on the same lines. -/
theorem scan_secondPass_eq {text output : String} {tokens found : List Token}
    (hscan : Token.scan firstPass text = .ok tokens) (hout : output = Token.writeAll secondPass tokens)
    (hfound : Token.scan secondPass output = .ok found) (hcontent : tokens.map Token.content = found.map Token.content) :
    found = tokens := by
  obtain ⟨as, has, rfl⟩ := Token.scan_eq_ok_iff.mp hscan
  obtain ⟨bs, hbs, rfl⟩ := Token.scan_eq_ok_iff.mp hfound
  have ha := Segment.scans_of_scanFrom has
  have hb := Segment.scans_of_scanFrom hbs
  have hfeeds : ∀ s ∈ as, Text.lineFeeds (s.segment.source firstPass) =
      Text.lineFeeds (Token.write secondPass (Token.ofSegment firstPass s)).toList :=
    fun s hs => lineFeeds_source_firstPass fun kind content ht => ha.balanced_of_mem hs ht
  have hwritten : sources secondPass bs = bs.flatMap fun s =>
      (Token.write secondPass (Token.ofSegment secondPass s)).toList := by
    rw [hb.sources_eq, hout, Token.writeAll_congr hcontent, Token.toList_writeAll, List.flatMap_map]
  have htags : ∀ s ∈ bs, ∀ kind content, s.segment = .tag kind content →
      Segment.balanced (secondPass.depth kind) content = some (content, []) ∧
        Segment.balanced (secondPass.depth kind) (Token.inner secondPass kind content ++ secondPass.closer kind) =
          some (Token.inner secondPass kind content ++ secondPass.closer kind, []) := by
    rintro ⟨line, segment⟩ hs kind content rfl
    refine ⟨hb.balanced_of_mem hs rfl, ?_⟩
    -- a tag with the same inner content stands in the text of the first pass
    have hmem := List.mem_map_of_mem (f := Token.content) (List.mem_map_of_mem (f := Token.ofSegment secondPass) hs)
    rw [← hcontent] at hmem
    obtain ⟨t, ht, hsame⟩ := List.mem_map.mp hmem
    obtain ⟨⟨line', segment'⟩, hs', rfl⟩ := List.mem_map.mp ht
    obtain ⟨content', rfl, hinner⟩ := Token.inner_eq_of_content_eq hsame
    rw [← hinner]
    exact balanced_inner_append_closer (ha.balanced_of_mem hs' rfl)
  have hsame := source_eq_write hwritten htags
  exact (tokens_eq_of_laid ha.laid hb.laid hcontent hfeeds fun s hs => congrArg Text.lineFeeds (hsame s hs)).symm

end SecondPass

end Stencil
