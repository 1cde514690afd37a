import Stencil.Proofs.Writing

/-!
# Literal text and the content of tags

What the scanners look for, said without them. They agree with it as long as no opener holds a backslash.

- `Literal`: a text holds no opener but escaped ones and those that begin inside an escaped one, and no escaped opener
  that begins in it goes beyond its end. `untilTag` cuts off the literal text in front of the first opener that is not
  escaped, and there is only one such cut (`untilTag_eq_iff`).
- `withoutEscapes`: exactly the backslashes right in front of openers are dropped. Unescaping comes to this
  (`unescapeFrom_eq_withoutEscapes`).
- `Balances`: the content of a tag closes as many braces as it opens, those of the opener included, and no shorter start
  of it does. `balanced` finds it whenever it is there (`balanced_eq_some_iff`, `balanced_eq_none_iff`).
- `HasBody`: the body is what is left of the content when the last bytes and one strip marker are taken off it
  (`hasBody_iff`).
-/

namespace Stencil

namespace Markup

/-! ## Escaped openers -/

/-- The opener of the kind starts the text, and no longer one does. -/
def Longest (m : Markup) (k : TagKind) (cs : List Char) : Prop :=
  m.opener k <+: cs ∧ ∀ j, m.opener j <+: cs → (m.opener j).length ≤ (m.opener k).length

/-- An opener of the kind stands between the two texts, right behind a backslash. -/
def Escaped (m : Markup) (k : TagKind) (front rest : List Char) : Prop :=
  front.getLast? = some '\\' ∧ m.Longest k rest

/-- The place between the two texts lies inside an escaped opener. -/
def InsideEscaped (m : Markup) (front rest : List Char) : Prop :=
  ∃ a b k, front = a ++ b ∧ b ≠ [] ∧ b.length < (m.opener k).length ∧ m.Escaped k a (b ++ rest)

/-- The text stands behind the literal text `front` and is literal as well: every opener in it is passed over, since it
is escaped or begins inside an escaped one, and the escaped ones end in it. -/
structure Literal (m : Markup) (front raw after : List Char) : Prop where
  passed : ∀ a s k, raw = a ++ s → s ≠ [] → m.opener k <+: s ++ after →
    (front ++ a).getLast? = some '\\' ∨ m.InsideEscaped (front ++ a) (s ++ after)
  whole : ∀ a s k, raw = a ++ s → s ≠ [] → m.Escaped k (front ++ a) (s ++ after) → (m.opener k).length ≤ s.length

/-- A tag of the kind begins between the two texts, with its opener in front of the second one. -/
structure TagAt (m : Markup) (front : List Char) (k : TagKind) (rest : List Char) : Prop where
  unescaped : front.getLast? ≠ some '\\'
  longest : m.Longest k (m.opener k ++ rest)

section Openers

variable {m : Markup} {k : TagKind} {front cs raw after rest : List Char}

theorem longest_iff : m.Longest k cs ↔ m.openerAt cs = some k := openerAt_eq_some_iff.symm

/-- Only one opener is the longest. -/
theorem Longest.unique {j : TagKind} (hj : m.Longest j cs) (hk : m.Longest k cs) : j = k := by
  rw [longest_iff] at hj hk
  rw [hj] at hk
  exact Option.some.inj hk

/-- No part of an opener ends in a backslash. -/
theorem Bare.getLast?_append_ne (hm : m.Bare) {a b : List Char} (h : m.opener k = a ++ b) (ha : a ≠ [])
    (front : List Char) : (front ++ a).getLast? ≠ some '\\' := by
  rw [List.getLast?_append_of_ne_nil _ ha]
  intro hlast
  have hmem : '\\' ∈ m.opener k := by
    rw [h]
    exact List.mem_append_left _ (List.mem_of_getLast? hlast)
  exact hm k hmem

theorem Bare.getLast?_append_opener_ne (hm : m.Bare) (k : TagKind) (front : List Char) :
    (front ++ m.opener k).getLast? ≠ some '\\' :=
  hm.getLast?_append_ne (List.append_nil _).symm (m.opener_ne_nil k) front

theorem endsEscaped_eq_true_iff : Segment.endsEscaped front = true ↔ front.getLast? = some '\\' := beq_iff_eq

theorem endsEscaped_eq_false_iff : Segment.endsEscaped front = false ↔ front.getLast? ≠ some '\\' :=
  beq_eq_false_iff_ne

end Openers

/-! ## How a text is read up to a tag -/

section Reads

variable {m : Markup} {k : TagKind} {front cs raw raw' after after' rest : List Char}
  {found : Option (TagKind × List Char)}

/-- Behind some literal text, a text is read up to its first tag: characters in front of which there is no opener are
passed over one by one, and escaped openers as a whole. -/
inductive Reads (m : Markup) : List Char → List Char → List Char → Option (TagKind × List Char) → Prop
  | stop {front : List Char} : Reads m front [] [] none
  | copy {front : List Char} {c : Char} {cs raw : List Char} {found : Option (TagKind × List Char)} :
    m.openerAt (c :: cs) = none → Reads m (front ++ [c]) cs raw found → Reads m front (c :: cs) (c :: raw) found
  | skip {front : List Char} {k : TagKind} {rest raw : List Char} {found : Option (TagKind × List Char)} :
    m.Escaped k front (m.opener k ++ rest) → Reads m (front ++ m.opener k) rest raw found →
      Reads m front (m.opener k ++ rest) (m.opener k ++ raw) found
  | tag {front : List Char} {k : TagKind} {rest : List Char} :
    m.TagAt front k rest → Reads m front (m.opener k ++ rest) [] (some (k, rest))

/-- Characters that are passed over are copied. -/
theorem untilTag_length_append {x : List Char} (hx : x ≠ []) (escaped : Bool) (cs : List Char) :
    m.untilTag x.length escaped (x ++ cs) =
      (x ++ (m.untilTag 0 (Segment.endsEscaped x) cs).1, (m.untilTag 0 (Segment.endsEscaped x) cs).2) := by
  induction x generalizing escaped with
  | nil => exact absurd rfl hx
  | cons c x ih =>
    rw [List.length_cons, List.cons_append, untilTag_succ]
    cases x with
    | nil => rfl
    | cons d x =>
      have hlast : Segment.endsEscaped (c :: d :: x) = Segment.endsEscaped (d :: x) := by
        rw [Segment.endsEscaped, Segment.endsEscaped, List.getLast?_cons_cons]
      have hrest := ih (List.cons_ne_nil d x) (c == '\\')
      rw [hrest, hlast]
      rfl

/-- An escaped opener is passed over as a whole. -/
theorem untilTag_escaped (hl : m.Longest k (m.opener k ++ rest)) : m.untilTag 0 true (m.opener k ++ rest) =
    (m.opener k ++ (m.untilTag 0 (Segment.endsEscaped (m.opener k)) rest).1,
      (m.untilTag 0 (Segment.endsEscaped (m.opener k)) rest).2) := by
  rw [← untilTag_length_append (m.opener_ne_nil k) true]
  rw [longest_iff] at hl
  obtain ⟨c, y, hy⟩ := List.exists_cons_of_ne_nil (m.opener_ne_nil k)
  rw [hy, List.cons_append] at hl ⊢
  rw [untilTag_cons, hl, List.length_cons, untilTag_succ]
  simp only [hy, List.length_cons, Nat.add_sub_cancel, ↓reduceIte]

/-- This is how `untilTag` reads a text. -/
theorem reads_untilTag (m : Markup) (front cs : List Char) :
    m.Reads front cs (m.untilTag 0 (Segment.endsEscaped front) cs).1
      (m.untilTag 0 (Segment.endsEscaped front) cs).2 := by
  induction hn : cs.length using Nat.strong_induction_on generalizing front cs with
  | _ n ih =>
    cases cs with
    | nil => exact .stop
    | cons c cs =>
      rcases ho : m.openerAt (c :: cs) with _ | k
      · have hstep : m.untilTag 0 (Segment.endsEscaped front) (c :: cs) =
            (c :: (m.untilTag 0 (c == '\\') cs).1, (m.untilTag 0 (c == '\\') cs).2) := by
          rw [untilTag_cons, ho]
        have hlast : Segment.endsEscaped (front ++ [c]) = (c == '\\') := by
          rw [Segment.endsEscaped, List.getLast?_concat]
          rfl
        rw [hstep, ← hlast]
        exact .copy ho (ih cs.length (by rw [← hn]; exact Nat.lt_succ_self _) (front ++ [c]) cs rfl)
      · have hl := longest_iff.mpr ho
        obtain ⟨rest, hrest⟩ := hl.1
        rw [← hrest] at ho hl hn ⊢
        by_cases he : front.getLast? = some '\\'
        · have hfalse : Segment.endsEscaped (front ++ m.opener k) = Segment.endsEscaped (m.opener k) := by
            rw [Segment.endsEscaped, Segment.endsEscaped, List.getLast?_append_of_ne_nil _ (m.opener_ne_nil k)]
          have hlt : rest.length < n := by
            have := m.length_opener_pos k
            rw [← hn, List.length_append]
            omega
          rw [endsEscaped_eq_true_iff.mpr he, untilTag_escaped hl, ← hfalse]
          exact .skip ⟨he, hl⟩ (ih rest.length hlt (front ++ m.opener k) rest rfl)
        · have htag : m.untilTag 0 (Segment.endsEscaped front) (m.opener k ++ rest) = ([], some (k, rest)) := by
            rw [endsEscaped_eq_false_iff.mpr he]
            obtain ⟨d, y, hy⟩ := List.exists_cons_of_ne_nil (m.opener_ne_nil k)
            rw [hy, List.cons_append] at ho ⊢
            rw [untilTag_cons, ho]
            simp only [Bool.false_eq_true, ↓reduceIte, hy, ← List.cons_append, List.drop_left]
          rw [htag]
          exact .tag ⟨he, hl⟩

/-- Nothing is lost. -/
theorem Reads.append_eq (h : m.Reads front cs raw found) : raw ++ m.afterText found = cs := by
  induction h with
  | stop => rfl
  | copy _ _ ih => rw [List.cons_append, ih]
  | skip _ _ ih => rw [List.append_assoc, ih]
  | tag => rfl

/-- What is found is a tag. -/
theorem Reads.tagAt (h : m.Reads front cs raw found) (hf : found = some (k, rest)) : m.TagAt (front ++ raw) k rest := by
  induction h with
  | stop => cases hf
  | copy _ _ ih =>
    have := ih hf
    rwa [List.append_assoc] at this
  | skip _ _ ih =>
    have := ih hf
    rwa [List.append_assoc] at this
  | tag ht =>
    cases hf
    rwa [List.append_nil]

theorem literal_nil (m : Markup) (front after : List Char) : m.Literal front [] after := by
  constructor
  · intro a s k h hs
    exact absurd (List.append_eq_nil_iff.mp h.symm).2 hs
  · intro a s k h hs
    exact absurd (List.append_eq_nil_iff.mp h.symm).2 hs

/-- What is read is literal. -/
theorem Reads.literal (hm : m.Bare) (h : m.Reads front cs raw found) : m.Literal front raw (m.afterText found) := by
  induction h with
  | stop => exact literal_nil m _ _
  | tag => exact literal_nil m _ _
  | @copy front c cs raw found ho hr ih =>
    have hnone (j : TagKind) : ¬ m.opener j <+: c :: raw ++ m.afterText found := by
      rw [List.cons_append, hr.append_eq]
      exact openerAt_eq_none_iff.mp ho j
    constructor
    · intro a s j h hs hj
      rcases List.cons_eq_append_iff.mp h with ⟨rfl, rfl⟩ | ⟨a', rfl, h'⟩
      · exact absurd hj (hnone j)
      · have := ih.passed a' s j h' hs hj
        rwa [List.append_assoc] at this
    · intro a s j h hs hj
      rcases List.cons_eq_append_iff.mp h with ⟨rfl, rfl⟩ | ⟨a', rfl, h'⟩
      · exact absurd hj.2.1 (hnone j)
      · refine ih.whole a' s j h' hs ?_
        rwa [List.append_assoc]
  | @skip front k rest raw found he hr ih =>
    rw [← hr.append_eq] at he
    constructor
    · intro a s j h hs hj
      rcases List.append_eq_append_iff.mp h with ⟨a', rfl, h'⟩ | ⟨b, hk, rfl⟩
      · have := ih.passed a' s j h' hs hj
        rwa [List.append_assoc] at this
      · rcases eq_or_ne a [] with rfl | ha
        · rw [List.append_nil]
          exact .inl he.1
        · rcases eq_or_ne b [] with rfl | hb
          · -- the place is right behind the opener
            rw [List.append_nil] at hk
            subst hk
            have := ih.passed [] raw j rfl hs hj
            rwa [List.append_nil] at this
          · refine .inr ⟨front, a, k, rfl, ha, ?_, he.1, ?_⟩
            · have := List.length_pos_iff.mpr hb
              rw [hk, List.length_append]
              omega
            · have := he.2
              rwa [hk, List.append_assoc, ← List.append_assoc b] at this
    · intro a s j h hs hj
      rcases List.append_eq_append_iff.mp h with ⟨a', rfl, h'⟩ | ⟨b, hk, rfl⟩
      · refine ih.whole a' s j h' hs ?_
        rwa [List.append_assoc]
      · rcases eq_or_ne a [] with rfl | ha
        · have hlongest := hj.2
          rw [← show m.opener k = b from hk, List.append_assoc] at hlongest
          rw [hlongest.unique he.2, hk, List.nil_append, List.length_append]
          exact Nat.le_add_right _ _
        · exact absurd hj.1 (hm.getLast?_append_ne hk ha front)

/-! ## There is only one cut -/

/-- The text ends, or a tag begins. -/
def StopsAt (m : Markup) (front after : List Char) : Prop :=
  after = [] ∨ ∃ k rest, after = m.opener k ++ rest ∧ m.TagAt front k rest

/-- No literal text goes beyond a tag. -/
theorem Literal.length_le (h : m.Literal [] raw after) (h' : m.Literal [] raw' after') (hs : m.StopsAt raw after)
    (heq : raw ++ after = raw' ++ after') : raw'.length ≤ raw.length := by
  by_contra hlt
  rw [Nat.not_le] at hlt
  have hprefix : raw <+: raw' ++ after' := ⟨after, heq⟩
  obtain ⟨x, rfl⟩ := List.prefix_of_prefix_length_le hprefix (List.prefix_append _ _) (Nat.le_of_lt hlt)
  rw [List.append_assoc, List.append_cancel_left_eq] at heq
  have hx : x ≠ [] := by
    rintro rfl
    rw [List.append_nil] at hlt
    exact Nat.lt_irrefl _ hlt
  rcases hs with rfl | ⟨k, rest, rfl, htag⟩
  · exact hx (List.append_eq_nil_iff.mp heq.symm).1
  · -- the opener is passed over in the longer text, so it begins inside an escaped opener of the shorter one
    rcases h'.passed raw x k rfl hx (heq ▸ List.prefix_append _ _) with hlast | ⟨a, b, j, hab, hb, hlen, he⟩
    · exact htag.unescaped hlast
    · rw [← heq] at he
      have := h.whole a b j hab hb he
      omega

/-- What follows the literal text tells which tag begins. -/
theorem eq_of_afterText_eq {found' : Option (TagKind × List Char)} (h : m.afterText found = m.afterText found')
    (ht : ∀ k rest, found = some (k, rest) → m.Longest k (m.opener k ++ rest))
    (ht' : ∀ k rest, found' = some (k, rest) → m.Longest k (m.opener k ++ rest)) : found = found' := by
  rcases found with _ | ⟨k, rest⟩ <;> rcases found' with _ | ⟨k', rest'⟩
  · rfl
  · exact absurd (List.append_eq_nil_iff.mp h.symm).1 (m.opener_ne_nil k')
  · exact absurd (List.append_eq_nil_iff.mp h).1 (m.opener_ne_nil k)
  · simp only [afterText] at h
    have hlongest := ht k rest rfl
    rw [h] at hlongest
    obtain rfl := hlongest.unique (ht' k' rest' rfl)
    rw [List.append_cancel_left h]

/-- The text up to its first tag is the only literal text in front of a tag or the end. -/
theorem untilTag_eq_iff (hm : m.Bare) : m.untilTag 0 false cs = (raw, found) ↔
    cs = raw ++ m.afterText found ∧ m.Literal [] raw (m.afterText found) ∧
      ∀ k rest, found = some (k, rest) → m.TagAt raw k rest := by
  have hstops {raw : List Char} {found : Option (TagKind × List Char)}
      (ht : ∀ k rest, found = some (k, rest) → m.TagAt raw k rest) : m.StopsAt raw (m.afterText found) := by
    rcases found with _ | ⟨k, rest⟩
    · exact .inl rfl
    · exact .inr ⟨k, rest, rfl, ht k rest rfl⟩
  have hreads := m.reads_untilTag [] cs
  have happend := hreads.append_eq
  have hliteral := hreads.literal hm
  have htag : ∀ k rest, (m.untilTag 0 false cs).2 = some (k, rest) → m.TagAt (m.untilTag 0 false cs).1 k rest :=
    fun k rest hf => hreads.tagAt hf
  constructor
  · intro h
    rw [show Segment.endsEscaped [] = false from rfl, h] at happend hliteral
    rw [h] at htag
    exact ⟨happend.symm, hliteral, htag⟩
  · rintro ⟨rfl, hl, ht⟩
    have hle := hl.length_le hliteral (hstops ht) happend.symm
    have hge := hliteral.length_le hl (hstops htag) happend
    obtain ⟨hraw, hafter⟩ := List.append_inj happend (Nat.le_antisymm hle hge)
    exact Prod.ext hraw (eq_of_afterText_eq hafter (fun k rest hf => (htag k rest hf).longest)
      fun k rest hf => (ht k rest hf).longest)

end Reads

/-! ## Unescaping -/

/-- The text without the backslashes that stand right in front of an opener. -/
def withoutEscapes (m : Markup) : List Char → List Char
  | [] => []
  | c :: cs =>
    if c == '\\' && TagKind.all.any fun k => (m.opener k).isPrefixOf cs then withoutEscapes m cs
    else c :: withoutEscapes m cs

section Unescape

variable {m : Markup} {k : TagKind} {cs : List Char}

theorem withoutEscapes_cons_of_ne {c : Char} (h : c ≠ '\\') (cs : List Char) :
    m.withoutEscapes (c :: cs) = c :: m.withoutEscapes cs := by
  rw [withoutEscapes, beq_eq_false_iff_ne.mpr h]
  rfl

theorem any_isPrefixOf_eq_isSome (m : Markup) (cs : List Char) :
    (TagKind.all.any fun k => (m.opener k).isPrefixOf cs) = (m.openerAt cs).isSome := by
  rw [Bool.eq_iff_iff, List.any_eq_true]
  rcases ho : m.openerAt cs with _ | k
  · rw [openerAt_eq_none_iff] at ho
    simpa using ho
  · simp only [Option.isSome_some, iff_true]
    exact ⟨k, TagKind.mem_all k, List.isPrefixOf_iff_prefix.mpr (opener_prefix_of_openerAt ho)⟩

theorem withoutEscapes_backslash (m : Markup) (cs : List Char) : m.withoutEscapes ('\\' :: cs) =
    if (m.openerAt cs).isSome then m.withoutEscapes cs else '\\' :: m.withoutEscapes cs := by
  rw [withoutEscapes, any_isPrefixOf_eq_isSome]
  rfl

/-- What holds no backslash is kept. -/
theorem withoutEscapes_append {x : List Char} (hx : '\\' ∉ x) (cs : List Char) :
    m.withoutEscapes (x ++ cs) = x ++ m.withoutEscapes cs := by
  induction x with
  | nil => rfl
  | cons c x ih =>
    have hc : c ≠ '\\' := fun h => hx (h ▸ List.mem_cons_self)
    have hrest : '\\' ∉ x := fun h => hx (List.mem_cons_of_mem _ h)
    rw [List.cons_append, withoutEscapes_cons_of_ne hc, ih hrest, List.cons_append]

/-- **Unescaping drops exactly the backslashes in front of openers.** -/
theorem unescapeFrom_eq_withoutEscapes (hm : m.Bare) (cs : List Char) : m.unescapeFrom 0 cs = m.withoutEscapes cs := by
  induction hn : cs.length using Nat.strong_induction_on generalizing cs with
  | _ n ih =>
    cases cs with
    | nil => rfl
    | cons c cs =>
      have hcs := ih cs.length (by rw [← hn]; exact Nat.lt_succ_self _) cs rfl
      by_cases hc : c = '\\'
      · subst hc
        rw [withoutEscapes_backslash]
        rcases ho : m.openerAt cs with _ | k
        · rw [unescapeFrom_of_openerAt_eq_none ho, hcs]
          rfl
        · obtain ⟨rest, rfl⟩ := opener_prefix_of_openerAt ho
          have hlt : rest.length < n := by
            rw [← hn, List.length_cons, List.length_append]
            omega
          rw [unescapeFrom_backslash ho, List.drop_left, ih rest.length hlt rest rfl, Option.isSome_some, if_pos rfl,
            withoutEscapes_append (hm k)]
      · rw [unescapeFrom_of_ne hc, withoutEscapes_cons_of_ne hc, hcs]

end Unescape

end Markup

/-! ## The content of a tag -/

namespace Segment

/-- The content closes as many braces as it opens, when the given number of them is open before, and no shorter start of
it does. -/
structure Balances (depth : Nat) (content : List Char) : Prop where
  closes : depth + content.count '\x7b' = content.count '\x7d'
  least : ∀ p, p <+: content → p ≠ content → depth + p.count '\x7b' ≠ p.count '\x7d'

variable {depth : Nat} {c : Char} {cs content rest p : List Char}

/-- Seen from one character further on, the depth behind it is open. -/
theorem count_cons_eq_iff : depth + 1 + (c :: p).count '\x7b' = (c :: p).count '\x7d' ↔
    depthAfter depth c + p.count '\x7b' = p.count '\x7d' := by
  simp only [List.count_cons, depthAfter]
  by_cases hopen : c = '\x7b'
  · subst hopen
    simp only [beq_self_eq_true, ↓reduceIte, Char.reduceBEq, Bool.false_eq_true]
    omega
  · by_cases hclose : c = '\x7d'
    · subst hclose
      simp only [beq_self_eq_true, ↓reduceIte, Char.reduceBEq, Bool.false_eq_true]
      omega
    · simp only [beq_iff_eq, hopen, hclose, ↓reduceIte]
      omega

theorem balances_zero_iff : Balances 0 content ↔ content = [] := by
  constructor
  · intro h
    by_contra hne
    exact h.least [] List.nil_prefix (Ne.symm hne) rfl
  · rintro rfl
    exact ⟨rfl, fun p hp hne => absurd (List.prefix_nil.mp hp) hne⟩

theorem balances_cons_iff : Balances (depth + 1) (c :: cs) ↔ Balances (depthAfter depth c) cs := by
  constructor
  · intro h
    refine ⟨count_cons_eq_iff.mp h.closes, fun p hp hne hcount => ?_⟩
    refine h.least (c :: p) (List.cons_prefix_cons.mpr ⟨rfl, hp⟩) ?_ (count_cons_eq_iff.mpr hcount)
    exact fun heq => hne (List.cons.inj heq).2
  · intro h
    refine ⟨count_cons_eq_iff.mpr h.closes, fun p hp hne hcount => ?_⟩
    cases p with
    | nil => exact absurd hcount (by simp)
    | cons d p =>
      obtain ⟨rfl, htail⟩ := List.cons_prefix_cons.mp hp
      exact h.least p htail (fun heq => hne (by rw [heq])) (count_cons_eq_iff.mp hcount)

/-- **Balancing finds the shortest content that closes all braces.** -/
theorem balanced_eq_some_iff :
    balanced depth cs = some (content, rest) ↔ cs = content ++ rest ∧ Balances depth content := by
  induction cs generalizing depth content with
  | nil =>
    cases depth with
    | zero =>
      rw [balanced_zero, balances_zero_iff]
      constructor
      · rintro ⟨⟩
        exact ⟨rfl, rfl⟩
      · rintro ⟨h, rfl⟩
        rw [h]
        rfl
    | succ depth =>
      constructor
      · rintro ⟨⟩
      · rintro ⟨h, hb⟩
        obtain ⟨rfl, -⟩ := List.append_eq_nil_iff.mp h.symm
        exact absurd hb.closes (by simp)
  | cons c cs ih =>
    cases depth with
    | zero =>
      rw [balanced_zero, balances_zero_iff]
      constructor
      · rintro ⟨⟩
        exact ⟨rfl, rfl⟩
      · rintro ⟨h, rfl⟩
        rw [h]
        rfl
    | succ depth =>
      rw [balanced_cons, Option.map_eq_some_iff]
      constructor
      · rintro ⟨⟨content', rest'⟩, hb, h⟩
        cases h
        obtain ⟨rfl, hrest⟩ := ih.mp hb
        exact ⟨rfl, balances_cons_iff.mpr hrest⟩
      · rintro ⟨h, hb⟩
        cases content with
        | nil => exact absurd hb.closes (by simp)
        | cons d content =>
          obtain ⟨rfl, rfl⟩ := List.cons.inj h
          exact ⟨(content, rest), ih.mpr ⟨rfl, balances_cons_iff.mp hb⟩, rfl⟩

/-- Balancing fails exactly if no start of the text closes all braces. -/
theorem balanced_eq_none_iff :
    balanced depth cs = none ↔ ∀ p, p <+: cs → depth + p.count '\x7b' ≠ p.count '\x7d' := by
  induction cs generalizing depth with
  | nil =>
    cases depth with
    | zero => exact ⟨nofun, fun h => absurd rfl (h [] List.nil_prefix)⟩
    | succ depth =>
      refine ⟨fun _ p hp => ?_, fun _ => rfl⟩
      rw [List.prefix_nil.mp hp]
      simp
  | cons c cs ih =>
    cases depth with
    | zero => exact ⟨nofun, fun h => absurd rfl (h [] List.nil_prefix)⟩
    | succ depth =>
      rw [balanced_cons, Option.map_eq_none_iff, ih]
      constructor
      · intro h p hp hcount
        cases p with
        | nil => exact absurd hcount (by simp)
        | cons d p =>
          obtain ⟨rfl, htail⟩ := List.cons_prefix_cons.mp hp
          exact h p htail (count_cons_eq_iff.mp hcount)
      · intro h p hp hcount
        exact h (c :: p) (List.cons_prefix_cons.mpr ⟨rfl, hp⟩) (count_cons_eq_iff.mpr hcount)

/-- A tag does not end in a backslash, so that it escapes nothing. -/
theorem Balances.getLast?_ne {m : Markup} (hm : m.Bare) {kind : TagKind} (h : Balances (m.depth kind) content)
    (front : List Char) : (front ++ (m.opener kind ++ content)).getLast? ≠ some '\\' := by
  rcases hd : m.depth kind with _ | depth
  · rw [hd, balances_zero_iff] at h
    rw [h, List.append_nil]
    exact hm.getLast?_append_opener_ne kind front
  · rw [hd] at h
    obtain ⟨inner, rfl⟩ := exists_concat_of_balanced (balanced_eq_some_iff.mpr ⟨(List.append_nil content).symm, h⟩)
    rw [← List.append_assoc, ← List.append_assoc, List.getLast?_concat]
    decide

end Segment

/-! ## The body of a tag -/

namespace Token

/-- What is left of the content when its last bytes are cut off, as many as `size` says or all there are. The cut is
moved back to the start of a character. -/
structure CutBack (size : Nat) (content inner : List Char) : Prop where
  front : inner <+: content
  size_le : Text.byteSize inner ≤ Text.byteSize content - size
  greatest : ∀ p, p <+: content → Text.byteSize p ≤ Text.byteSize content - size → p <+: inner

/-- The closer is cut off the content by its size, and then one strip marker, if there is one. -/
structure HasBody (m : Markup) (kind : TagKind) (content body : List Char) (strip : Bool) : Prop where
  cut : CutBack (m.closerSize kind) content (body ++ marker strip)
  strip_iff : strip = true ↔ (body ++ marker strip).getLast? = some stripMarker

variable {m : Markup} {kind : TagKind} {size : Nat} {content a b body : List Char} {strip : Bool}

theorem prefix_takeBytes {p : List Char} (h : p <+: content) (hsize : Text.byteSize p ≤ size) :
    p <+: Text.takeBytes size content := by
  induction content generalizing p size with
  | nil => exact h
  | cons c content ih =>
    cases p with
    | nil => exact List.nil_prefix
    | cons d p =>
      obtain ⟨rfl, htail⟩ := List.cons_prefix_cons.mp h
      rw [Text.byteSize_cons] at hsize
      rw [Text.takeBytes, if_pos (by omega)]
      exact List.cons_prefix_cons.mpr ⟨rfl, ih htail (by omega)⟩

theorem cutBack_inner (m : Markup) (kind : TagKind) (content : List Char) :
    CutBack (m.closerSize kind) content (inner m kind content) where
  front := Text.takeBytes_prefix ..
  size_le := Text.byteSize_takeBytes_le ..
  greatest _ hp hsize := prefix_takeBytes hp hsize

theorem CutBack.unique (ha : CutBack size content a) (hb : CutBack size content b) : a = b := by
  have hle := (ha.greatest b hb.front hb.size_le).length_le
  have hprefix := hb.greatest a ha.front ha.size_le
  exact hprefix.eq_of_length_le hle

/-- The body and the strip marker are what `bodyOf` gives. -/
theorem hasBody_iff : HasBody m kind content body strip ↔ bodyOf m kind content = (body, strip) := by
  have hbody : bodyOf m kind content = if (inner m kind content).getLast? == some stripMarker then
      ((inner m kind content).dropLast, true) else (inner m kind content, false) := rfl
  have hcut := cutBack_inner m kind content
  constructor
  · intro h
    rw [hbody, ← h.cut.unique hcut]
    cases strip with
    | true =>
      rw [if_pos (beq_iff_eq.mpr (h.strip_iff.mp rfl))]
      simp [marker]
    | false =>
      have hne : ¬ ((body ++ marker false).getLast? == some stripMarker) = true :=
        fun h' => Bool.false_ne_true (h.strip_iff.mpr (beq_iff_eq.mp h'))
      rw [if_neg hne]
      simp [marker]
  · intro h
    have happend := bodyOf_append_marker m kind content
    rw [h] at happend
    refine ⟨happend ▸ hcut, ?_⟩
    rw [happend]
    rw [hbody] at h
    split at h
    · next hlast =>
      cases h
      exact ⟨fun _ => beq_iff_eq.mp hlast, fun _ => rfl⟩
    · next hlast =>
      cases h
      exact ⟨fun hfalse => absurd hfalse Bool.false_ne_true, fun h' => absurd (beq_iff_eq.mpr h') hlast⟩

end Token

end Stencil
