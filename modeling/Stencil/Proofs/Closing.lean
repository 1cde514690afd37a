import Stencil.Proofs.Literals

/-!
# How tags end

The closer of a tag is not looked for: the scanner takes bytes off the end of the content, as many as the closer has,
whatever they are (`CutOff`). So the source of a tag is its opener, its body, its strip marker and this end
(`source_tag`), and the end is the closer exactly if the content ends with it (`CutOff.eq_closer_iff`).

In the first pass this is always so, since every closer is the brace that ends the content. In the second pass braces
inside a tag can end it where no closer stands, and then a part of the content goes with the end
(`not_all_source_closed`).
-/

namespace Stencil

open Segment (balanced)
open Markup (firstPass secondPass)

namespace Token

/-- The shortest end of the content that has the given number of bytes, or all of the content if it has fewer. -/
structure CutOff (size : Nat) (content tail : List Char) : Prop where
  suffix : tail <:+ content
  enough : size ≤ Text.byteSize tail ∨ tail = content
  shortest : ∀ s, s <:+ content → size ≤ Text.byteSize s → tail <:+ s

variable {m : Markup} {kind : TagKind} {size : Nat} {content front tail : List Char}

/-- What is left behind the longest start that leaves enough bytes is the shortest end that has them. -/
theorem CutBack.cutOff (h : CutBack size (front ++ tail) front) : CutOff size (front ++ tail) tail := by
  have hsize := h.size_le
  rw [Text.byteSize_append] at hsize
  constructor
  · exact List.suffix_append front tail
  · by_cases hle : size ≤ Text.byteSize front + Text.byteSize tail
    · exact .inl (by omega)
    · have hzero : Text.byteSize front = 0 := by omega
      cases front with
      | nil => exact .inr rfl
      | cons c front =>
        have := c.utf8Size_pos
        rw [Text.byteSize_cons] at hzero
        omega
  · rintro s ⟨p, hp⟩ hs
    have hp' : Text.byteSize p ≤ Text.byteSize (front ++ tail) - size := by
      rw [← hp, Text.byteSize_append]
      omega
    have hle := (h.greatest p ⟨s, hp⟩ hp').length_le
    have hlength := congrArg List.length hp
    rw [List.length_append, List.length_append] at hlength
    exact List.suffix_of_suffix_length_le (List.suffix_append front tail) ⟨p, hp⟩ (by omega)

theorem utf8ByteSize_ofList (cs : List Char) : (String.ofList cs).utf8ByteSize = Text.byteSize cs := by
  induction cs with
  | nil => rfl
  | cons c cs ih =>
    rw [String.ofList_cons, String.utf8ByteSize_append, String.utf8ByteSize_singleton, ih, Text.byteSize]

theorem byteSize_closer (m : Markup) (kind : TagKind) : Text.byteSize (m.closer kind) = m.closerSize kind := by
  rw [Markup.closer, ← utf8ByteSize_ofList, String.ofList_toList, Markup.closerSize]

/-- A shorter end has fewer bytes. -/
theorem eq_of_suffix_of_byteSize_le {a b : List Char} (h : a <:+ b) (hsize : Text.byteSize b ≤ Text.byteSize a) :
    a = b := by
  obtain ⟨front, rfl⟩ := h
  cases front with
  | nil => rfl
  | cons c front =>
    have := c.utf8Size_pos
    rw [Text.byteSize_append, Text.byteSize_cons] at hsize
    omega

/-- The end that is cut off is the closer exactly if the content ends with it. -/
theorem CutOff.eq_closer_iff (h : CutOff (m.closerSize kind) content tail) :
    tail = m.closer kind ↔ m.closer kind <:+ content := by
  constructor
  · rintro rfl
    exact h.suffix
  · intro hc
    have htail := h.shortest _ hc (byteSize_closer m kind).ge
    rcases h.enough with hsize | rfl
    · exact eq_of_suffix_of_byteSize_le htail (by rwa [byteSize_closer])
    · exact htail.eq_of_length_le hc.length_le

theorem CutOff.ne_nil (h : CutOff (m.closerSize kind) content tail) (hc : content ≠ []) : tail ≠ [] := by
  rintro rfl
  rcases h.enough with hsize | rfl
  · have hzero : m.closerSize kind = 0 := Nat.le_zero.mp hsize
    exact m.closer_ne_empty kind (String.utf8ByteSize_eq_zero_iff.mp hzero)
  · exact hc rfl

/-- The end that is cut off ends like the content. -/
theorem CutOff.getLast?_eq (h : CutOff (m.closerSize kind) content tail) : tail.getLast? = content.getLast? := by
  rcases eq_or_ne content [] with rfl | hc
  · rw [List.suffix_nil.mp h.suffix]
  · obtain ⟨front, rfl⟩ := h.suffix
    rw [List.getLast?_append_of_ne_nil _ (h.ne_nil hc)]

/-- The source of a tag is its opener, its body, its strip marker and the end that is cut off. -/
theorem exists_cutOff (m : Markup) (line : Nat) (kind : TagKind) (content : List Char) :
    let token := ofSegment m ⟨line, .tag kind content⟩
    ∃ tail, CutOff (m.closerSize kind) content tail ∧
      Segment.source m (.tag kind content) = m.opener kind ++ token.body.toList ++ marker token.strip ++ tail := by
  obtain ⟨tail, hcontent⟩ := Text.takeBytes_prefix (Text.byteSize content - m.closerSize kind) content
  have hinner := bodyOf_append_marker m kind content
  have hcut := cutBack_inner m kind content
  refine ⟨tail, ?_, ?_⟩
  · rw [← hcontent]
    refine CutBack.cutOff ?_
    rwa [hcontent]
  · rw [Segment.source, ofSegment]
    simp only [String.toList_ofList, List.append_assoc]
    rw [← List.append_assoc _ _ tail, hinner, inner, hcontent]

end Token

/-! ## The two passes -/

section Passes

variable {m : Markup} {kind : TagKind} {content : List Char}

theorem depth_pos (hm : m = firstPass ∨ m = secondPass) (kind : TagKind) : 0 < m.depth kind := by
  rcases hm with rfl | rfl
  · rw [depth_firstPass]
    exact Nat.one_pos
  · cases kind <;> decide

/-- The content of a tag ends in a right brace. -/
theorem exists_concat_brace (hm : m = firstPass ∨ m = secondPass)
    (h : balanced (m.depth kind) content = some (content, [])) : ∃ front, content = front ++ ['\x7d'] := by
  obtain ⟨depth, hd⟩ := Nat.exists_eq_add_one.mpr (depth_pos hm kind)
  rw [hd] at h
  exact Segment.exists_concat_of_balanced h

theorem closer_eq_brace (hm : m = firstPass ∨ m = secondPass) (h : m = firstPass ∨ kind = .comment) :
    m.closer kind = ['\x7d'] := by
  rcases h with rfl | rfl
  · exact closer_firstPass kind
  · rcases hm with rfl | rfl <;> rfl

/-- **The source of a tag is its opener, its body, its strip marker and as many bytes as its closer has.** These end in
a right brace. They are the closer exactly if the content ends with it, which is so for all tags of the first pass and
for comments. -/
theorem source_tag (hm : m = firstPass ∨ m = secondPass) {text : String} {tokens : List Token}
    (h : Token.scan m text = .ok tokens) :
    ∃ segments, Segment.scan m text.toList = .ok segments ∧ tokens = segments.map (Token.ofSegment m) ∧
      Segment.sources m segments = text.toList ∧
      ∀ s ∈ segments, ∀ kind content, s.segment = .tag kind content →
        ∃ tail, Token.CutOff (m.closerSize kind) content tail ∧
          s.segment.source m = m.opener kind ++ (Token.ofSegment m s).body.toList ++
            Token.marker (Token.ofSegment m s).strip ++ tail ∧
          tail.getLast? = some '\x7d' ∧ (tail = m.closer kind ↔ m.closer kind <:+ content) ∧
          (m = firstPass ∨ kind = .comment → tail = m.closer kind) := by
  obtain ⟨segments, hscan, rfl⟩ := Token.scan_eq_ok_iff.mp h
  have hs := Segment.scans_of_scanFrom hscan
  refine ⟨segments, hscan, rfl, hs.sources_eq, ?_⟩
  rintro ⟨line, segment⟩ hmem kind content rfl
  obtain ⟨front, rfl⟩ := exists_concat_brace hm (hs.balanced_of_mem hmem rfl)
  obtain ⟨tail, hcut, hsource⟩ := Token.exists_cutOff m line kind (front ++ ['\x7d'])
  have hiff := hcut.eq_closer_iff
  refine ⟨tail, hcut, hsource, ?_, hiff, ?_⟩
  · rw [hcut.getLast?_eq, List.getLast?_concat]
  · intro hbrace
    rw [hiff, closer_eq_brace hm hbrace]
    exact List.suffix_append front _

/-- A tag with its closer and a strip marker, and one that ends where no closer stands. -/
theorem source_tag_unclosed :
    let text := "\x7b\x7b x -\x7d\x7d\x7b%if x\x7d"
    let tokens : List Token := [⟨.tag .escapedExpression, " x ", true, 1⟩, ⟨.tag .statement, "if ", false, 1⟩]
    Token.scan secondPass text = .ok tokens ∧
    ∃ segments, Segment.scan secondPass text.toList = .ok segments ∧
      tokens = segments.map (Token.ofSegment secondPass) ∧ Segment.sources secondPass segments = text.toList ∧
      ∀ s ∈ segments, ∀ kind content, s.segment = .tag kind content →
        ∃ tail, Token.CutOff (secondPass.closerSize kind) content tail ∧
          s.segment.source secondPass = secondPass.opener kind ++ (Token.ofSegment secondPass s).body.toList ++
            Token.marker (Token.ofSegment secondPass s).strip ++ tail ∧
          tail.getLast? = some '\x7d' ∧ (tail = secondPass.closer kind ↔ secondPass.closer kind <:+ content) ∧
          (secondPass = firstPass ∨ kind = .comment → tail = secondPass.closer kind) := by
  intro text tokens
  have h : Token.scan secondPass text = .ok tokens := eq_ok_of_toOption (by decide +kernel)
  exact ⟨h, source_tag (.inr rfl) h⟩

/-- Not every tag is its opener, its body, its strip marker and its closer: where braces end a tag before its closer,
something else is taken off in place of the closer. -/
theorem not_all_source_closed :
    ¬ ∀ m, m = firstPass ∨ m = secondPass → ∀ (text : String) (segments : List LocatedSegment),
      Segment.scan m text.toList = .ok segments → ∀ s ∈ segments, ∀ kind content, s.segment = .tag kind content →
        s.segment.source m = m.opener kind ++ (Token.ofSegment m s).body.toList ++
          Token.marker (Token.ofSegment m s).strip ++ m.closer kind := by
  intro hall
  have hscan : Segment.scan secondPass "\x7b%if x\x7d".toList = .ok [⟨1, .tag .statement "if x\x7d".toList⟩] :=
    eq_ok_of_toOption (by decide +kernel)
  have := hall secondPass (.inr rfl) _ _ hscan _ List.mem_cons_self _ _ rfl
  revert this
  decide +kernel

end Passes

end Stencil
