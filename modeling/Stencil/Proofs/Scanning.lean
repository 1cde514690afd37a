import Stencil.Proofs.Openers
import Stencil.Token

/-!
# Scanning

What the segments of a text have to do with it. `Scans` says how scanning goes on, and from it follow by induction:

- the segments make up the text again (`Scans.sources_eq`);
- each of them stands on the line that those before it lead to (`Scans.laid`);
- the braces of a tag balance exactly at its end (`Scans.balanced_of_mem`);
- if no opener of the text stands behind a backslash, then none stands in its literal text (`Scans.plain_of_mem`).

Balancing goes by what is read, not by what follows it. A tag whose braces balance only with its last one can be closed
by other closers instead (`balanced_append_of_closing`).
-/

namespace Stencil.Segment

/-! ## Balancing -/

section Balanced

variable {depth : Nat} {cs content rest : List Char}

theorem balanced_zero (cs : List Char) : balanced 0 cs = some ([], cs) := by
  cases cs <;> rfl

/-- The depth behind a character that stands one deeper than the given depth. -/
def depthAfter (depth : Nat) (c : Char) : Nat :=
  if c == '\x7b' then depth + 2 else if c == '\x7d' then depth else depth + 1

theorem depthAfter_eq_zero {c : Char} (h : depthAfter depth c = 0) : c = '\x7d' := by
  unfold depthAfter at h
  split at h
  · cases h
  · split at h
    · next hc => exact beq_iff_eq.mp hc
    · cases h

theorem depthAfter_add (depth more : Nat) (c : Char) : depthAfter (depth + more) c = depthAfter depth c + more := by
  unfold depthAfter
  split
  · omega
  · split <;> omega

theorem balanced_cons (depth : Nat) (c : Char) (cs : List Char) : balanced (depth + 1) (c :: cs) =
    (balanced (depthAfter depth c) cs).map fun (content, rest) => (c :: content, rest) := by
  unfold depthAfter
  rw [balanced]
  split
  · next h => rw [h]; rfl
  · next h => rw [h]; rfl

/-- A balance at the end, seen from one character further on. -/
theorem balanced_tail {c : Char} (h : balanced (depth + 1) (c :: cs) = some (c :: cs, [])) :
    balanced (depthAfter depth c) cs = some (cs, []) := by
  rw [balanced_cons, Option.map_eq_some_iff] at h
  obtain ⟨⟨content', rest'⟩, hb, h⟩ := h
  cases h
  exact hb

/-- More text behind does not matter. -/
theorem balanced_append (h : balanced depth cs = some (content, rest)) (z : List Char) :
    balanced depth (cs ++ z) = some (content, rest ++ z) := by
  induction cs generalizing depth content with
  | nil =>
    cases depth with
    | zero =>
      cases h
      exact balanced_zero z
    | succ depth => cases h
  | cons c cs ih =>
    cases depth with
    | zero =>
      cases h
      rfl
    | succ depth =>
      rw [balanced_cons, Option.map_eq_some_iff] at h
      obtain ⟨⟨content', rest'⟩, hb, h⟩ := h
      cases h
      rw [List.cons_append, balanced_cons, ih hb]
      rfl

/-- What is behind does not matter. -/
theorem balanced_content (h : balanced depth cs = some (content, rest)) :
    balanced depth content = some (content, []) := by
  induction cs generalizing depth content with
  | nil =>
    cases depth with
    | zero =>
      cases h
      rfl
    | succ depth => cases h
  | cons c cs ih =>
    cases depth with
    | zero =>
      cases h
      rfl
    | succ depth =>
      rw [balanced_cons, Option.map_eq_some_iff] at h
      obtain ⟨⟨content', rest'⟩, hb, h⟩ := h
      cases h
      rw [balanced_cons, ih hb]
      rfl

/-- What comes to a balance at its end ends in a right brace. -/
theorem exists_concat_of_balanced (h : balanced (depth + 1) content = some (content, [])) :
    ∃ inner, content = inner ++ ['\x7d'] := by
  induction content generalizing depth with
  | nil => cases h
  | cons c cs ih =>
    have ht := balanced_tail h
    rcases hd : depthAfter depth c with _ | next
    · rw [hd, balanced_zero] at ht
      cases ht
      exact ⟨[], by rw [depthAfter_eq_zero hd]; rfl⟩
    · rw [hd] at ht
      obtain ⟨inner, rfl⟩ := ih ht
      exact ⟨c :: inner, rfl⟩

/-- A text that lacks nothing but one right brace leaves any greater depth as it is. -/
theorem balanced_append_of_closing {inner : List Char}
    (h : balanced (depth + 1) (inner ++ ['\x7d']) = some (inner ++ ['\x7d'], [])) (more : Nat) (z : List Char) :
    balanced (depth + more + 1) (inner ++ z) =
      (balanced (more + 1) z).map fun (content, rest) => (inner ++ content, rest) := by
  induction inner generalizing depth with
  | nil =>
    have ht := balanced_tail h
    have hzero : depthAfter depth '\x7d' = depth := rfl
    rw [hzero] at ht
    cases depth with
    | zero =>
      rw [Nat.zero_add, List.nil_append]
      exact Option.map_id'.symm
    | succ depth => cases ht
  | cons c inner ih =>
    have ht := balanced_tail h
    rcases hd : depthAfter depth c with _ | next
    · rw [hd, balanced_zero] at ht
      simp at ht
    · rw [hd] at ht
      have hnext : depthAfter (depth + more) c = next + more + 1 := by
        rw [depthAfter_add, hd]
        omega
      rw [List.cons_append, balanced_cons, hnext, ih ht, Option.map_map]
      rfl

end Balanced

/-! ## Segments of a text -/

section Scans

variable {m : Markup} {line : Nat} {escaped : Bool} {cs : List Char} {segments : List LocatedSegment}

/-- The text scans to the segments, from a line on and perhaps behind a backslash. -/
inductive Scans (m : Markup) : Nat → Bool → List Char → List LocatedSegment → Prop
  | last {line : Nat} {escaped : Bool} {cs raw : List Char} :
    m.untilTag 0 escaped cs = (raw, none) → Scans m line escaped cs (literal line raw)
  | tag {line : Nat} {escaped : Bool} {cs raw rest content rest' : List Char} {kind : TagKind}
    {following : List LocatedSegment} :
    m.untilTag 0 escaped cs = (raw, some (kind, rest)) → balanced (m.depth kind) rest = some (content, rest') →
      Scans m (line + Text.lineFeeds raw + Text.lineFeeds (m.opener kind ++ content))
        (endsEscaped (m.opener kind ++ content)) rest' following →
      Scans m line escaped cs
        (literal line raw ++ ⟨line + Text.lineFeeds raw, .tag kind content⟩ :: following)

theorem scans_of_scanFrom (h : scanFrom m line escaped cs = .ok segments) : Scans m line escaped cs segments := by
  fun_induction scanFrom m line escaped cs generalizing segments with
  | case1 line escaped cs raw hu =>
    cases h
    exact .last hu
  | case2 => cases h
  | case3 line escaped cs raw kind rest hu tagLine content rest' hb source =>
    rename_i ih
    rcases hf : scanFrom m (tagLine + Text.lineFeeds source) (endsEscaped source) rest' with fault | following
    · rw [hf] at h
      cases h
    · rw [hf] at h
      cases h
      exact .tag hu hb (ih hf)

/-- The text of the segments. -/
def sources (m : Markup) (segments : List LocatedSegment) : List Char := segments.flatMap fun s => s.segment.source m

@[simp] theorem sources_literal (line : Nat) (raw : List Char) : sources m (literal line raw) = raw := by
  unfold literal
  split
  · next h => simpa [sources] using h.symm
  · simp [sources, source]

theorem sources_append (as bs : List LocatedSegment) : sources m (as ++ bs) = sources m as ++ sources m bs :=
  List.flatMap_append ..

theorem sources_cons (s : LocatedSegment) (segments : List LocatedSegment) :
    sources m (s :: segments) = s.segment.source m ++ sources m segments := List.flatMap_cons ..

/-- The segments make up the text. -/
theorem Scans.sources_eq (h : Scans m line escaped cs segments) : sources m segments = cs := by
  induction h with
  | last hu =>
    have happend := Markup.append_of_untilTag hu
    rw [Markup.afterText, List.append_nil] at happend
    rw [sources_literal, happend]
  | tag hu hb _ ih =>
    have happend := Markup.append_of_untilTag hu
    rw [Markup.afterText, ← append_of_balanced hb] at happend
    rw [sources_append, sources_literal, sources_cons, ih, ← happend, source, List.append_assoc]

/-- Every segment stands on the line that those before it lead to, from a line on. -/
def Laid (m : Markup) : Nat → List LocatedSegment → Prop
  | _, [] => True
  | line, s :: rest => s.line = line ∧ Laid m (line + Text.lineFeeds (s.segment.source m)) rest

/-- Text at most goes in front. -/
theorem Laid.literal_append {raw : List Char} (h : Laid m (line + Text.lineFeeds raw) segments) :
    Laid m line (literal line raw ++ segments) := by
  unfold literal
  split
  · next hr =>
    rw [List.isEmpty_iff.mp hr] at h
    exact h
  · exact ⟨rfl, h⟩

theorem Scans.laid (h : Scans m line escaped cs segments) : Laid m line segments := by
  induction h with
  | @last line _ _ raw hu =>
    have hnil : Laid m (line + Text.lineFeeds raw) [] := trivial
    simpa using hnil.literal_append
  | tag hu hb _ ih => exact Laid.literal_append ⟨rfl, ih⟩

theorem mem_literal {s : LocatedSegment} {raw : List Char} (h : s ∈ literal line raw) : s.segment = .text raw := by
  unfold literal at h
  split at h
  · cases h
  · rw [List.mem_singleton.mp h]

/-- The braces of a tag balance at its end. -/
theorem Scans.balanced_of_mem (h : Scans m line escaped cs segments) {s : LocatedSegment} (hs : s ∈ segments)
    {kind : TagKind} {content : List Char} (ht : s.segment = .tag kind content) :
    balanced (m.depth kind) content = some (content, []) := by
  induction h with
  | last hu =>
    rw [mem_literal hs] at ht
    cases ht
  | tag hu hb _ ih =>
    rcases List.mem_append.mp hs with hs | hs
    · rw [mem_literal hs] at ht
      cases ht
    · rcases List.mem_cons.mp hs with rfl | hs
      · cases ht
        exact balanced_content hb
      · exact ih hs

/-- What ends in a backslash brings it to the front of what follows. -/
theorem backslash_suffix_of_endsEscaped {source : List Char} (h : endsEscaped source = true) (rest : List Char) :
    '\\' :: rest <:+ source ++ rest := by
  obtain ⟨front, rfl⟩ := List.getLast?_eq_some_iff.mp (beq_iff_eq.mp h)
  exact ⟨front, by rw [List.append_assoc]; rfl⟩

/-- Where no opener stands behind a backslash, none stands in literal text. -/
theorem Scans.plain_of_mem (h : Scans m line escaped cs segments) (hn : m.NoEscape cs)
    (he : escaped = true → m.openerAt cs = none) {s : LocatedSegment} (hs : s ∈ segments) {raw : List Char}
    (ht : s.segment = .text raw) : m.Plain raw := by
  induction h with
  | last hu =>
    rw [mem_literal hs] at ht
    cases ht
    exact Markup.plain_of_untilTag hu hn he
  | @tag _ _ _ _ _ content rest' kind _ hu hb _ ih =>
    rcases List.mem_append.mp hs with hs | hs
    · rw [mem_literal hs] at ht
      cases ht
      exact Markup.plain_of_untilTag hu hn he
    · rcases List.mem_cons.mp hs with rfl | hs
      · cases ht
      · have happend := Markup.append_of_untilTag hu
        rw [Markup.afterText, ← append_of_balanced hb, ← List.append_assoc (m.opener kind)] at happend
        have hsource : m.opener kind ++ content ++ rest' <:+ _ := ⟨_, happend⟩
        refine ih (hn.of_suffix ((List.suffix_append _ _).trans hsource)) (fun hend => ?_) hs
        exact hn _ ((backslash_suffix_of_endsEscaped hend rest').trans hsource)

end Scans

end Stencil.Segment
