import Mathlib.Data.List.Infix
import Stencil.Markup
import Stencil.Text.Blank

/-!
# Openers and escapes

Where several openers fit, the longest one counts. This is what `openerAt` comes to (`openerAt_eq_some_iff`,
`openerAt_eq_none_iff`), whatever the order of the kinds.

- A text in which no opener stands (`Plain`) is neither escaped nor unescaped, and what stands before the first tag is
  such a text if no backslash stands before an opener (`plain_of_untilTag`);
- for openers without a backslash, unescaping undoes escaping (`unescapeFrom_escapeFrom`), and no tag begins in text
  that is escaped (`untilTag_escapeFrom`);
- then also no text unescapes to the same as one of its proper prefixes (`unescapeFrom_append_ne`), so a piece of text is
  settled by what it unescapes to and the place where it starts.
-/

namespace Stencil

namespace Markup

variable (m : Markup)

/-! ## The longest opener -/

/-- The choice among some kinds: the longest opener that fits. -/
def IsLongest (cs : List Char) (kinds : List TagKind) : Option TagKind → Prop
  | none => ∀ j ∈ kinds, ¬ m.opener j <+: cs
  | some k => m.opener k <+: cs ∧ ∀ j ∈ kinds, m.opener j <+: cs → (m.opener j).length ≤ (m.opener k).length

variable {m} {cs : List Char} {j k : TagKind}

/-- Going over one kind more. -/
theorem IsLongest.concat {kinds : List TagKind} {best : Option TagKind} (h : m.IsLongest cs kinds best) (k : TagKind) :
    m.IsLongest cs (kinds ++ [k])
      (if (m.opener k).isPrefixOf cs && best.all fun b => (m.opener b).length < (m.opener k).length then some k
        else best) := by
  by_cases hk : m.opener k <+: cs
  · rw [List.isPrefixOf_iff_prefix.mpr hk, Bool.true_and]
    cases best with
    | none =>
      refine ⟨hk, List.forall_mem_append.mpr ⟨fun j hj hp => absurd hp (h j hj), ?_⟩⟩
      exact List.forall_mem_singleton.mpr fun _ => Nat.le_refl _
    | some b =>
      by_cases hlt : (m.opener b).length < (m.opener k).length
      · simp only [Option.all_some, hlt, decide_true, ↓reduceIte]
        refine ⟨hk, List.forall_mem_append.mpr ⟨fun j hj hp => Nat.le_trans (h.2 j hj hp) (Nat.le_of_lt hlt), ?_⟩⟩
        exact List.forall_mem_singleton.mpr fun _ => Nat.le_refl _
      · simp only [Option.all_some, hlt, decide_false, Bool.false_eq_true, ↓reduceIte]
        refine ⟨h.1, List.forall_mem_append.mpr ⟨h.2, ?_⟩⟩
        exact List.forall_mem_singleton.mpr fun _ => Nat.le_of_not_lt hlt
  · have hfalse : (m.opener k).isPrefixOf cs = false := by
      rw [← Bool.not_eq_true, List.isPrefixOf_iff_prefix]
      exact hk
    rw [hfalse, Bool.false_and]
    cases best with
    | none => exact List.forall_mem_append.mpr ⟨h, List.forall_mem_singleton.mpr hk⟩
    | some b =>
      refine ⟨h.1, List.forall_mem_append.mpr ⟨h.2, ?_⟩⟩
      exact List.forall_mem_singleton.mpr fun hp => absurd hp hk

/-- The longest opener that fits is chosen, or none if none fits. -/
theorem isLongest_openerAt (m : Markup) (cs : List Char) : m.IsLongest cs TagKind.all (m.openerAt cs) := by
  have hnil : m.IsLongest cs [] none := by
    intro j hj
    cases hj
  exact (((hnil.concat .comment).concat .expression).concat .escapedExpression).concat .statement

theorem openerAt_eq_none_iff : m.openerAt cs = none ↔ ∀ k, ¬ m.opener k <+: cs := by
  have h := m.isLongest_openerAt cs
  constructor
  · intro hn k
    rw [hn] at h
    exact h k (TagKind.mem_all k)
  · intro hn
    rcases ho : m.openerAt cs with _ | k
    · rfl
    · rw [ho] at h
      exact absurd h.1 (hn k)

theorem openerAt_eq_some_iff : m.openerAt cs = some k ↔
    m.opener k <+: cs ∧ ∀ j, m.opener j <+: cs → (m.opener j).length ≤ (m.opener k).length := by
  have h := m.isLongest_openerAt cs
  constructor
  · intro hs
    rw [hs] at h
    exact ⟨h.1, fun j => h.2 j (TagKind.mem_all j)⟩
  · rintro ⟨hk, hmax⟩
    rcases ho : m.openerAt cs with _ | b
    · rw [openerAt_eq_none_iff] at ho
      exact absurd hk (ho k)
    · rw [ho] at h
      -- two openers of one length that fit at one place are the same
      have hlength := Nat.le_antisymm (hmax b h.1) (h.2 k (TagKind.mem_all k) hk)
      have hsame := List.prefix_of_prefix_length_le h.1 hk (Nat.le_of_eq hlength)
      have heq := hsame.eq_of_length hlength
      rw [m.opener_injective b k (String.toList_inj.mp heq)]

theorem opener_prefix_of_openerAt (h : m.openerAt cs = some k) : m.opener k <+: cs := (openerAt_eq_some_iff.mp h).1

/-- An opener that fits also fits before more text. -/
theorem openerAt_eq_none_mono {ds : List Char} (h : m.openerAt ds = none) (hp : cs <+: ds) :
    m.openerAt cs = none := by
  rw [openerAt_eq_none_iff] at h ⊢
  exact fun k hk => h k (hk.trans hp)

@[simp] theorem openerAt_nil : m.openerAt [] = none := by
  rw [openerAt_eq_none_iff]
  exact fun k hk => m.opener_ne_nil k (List.prefix_nil.mp hk)

/-! ## Cutting before a tag -/

/-- What follows the text before a tag. -/
def afterText (m : Markup) : Option (TagKind × List Char) → List Char
  | none => []
  | some (k, rest) => m.opener k ++ rest

/-- Nothing is lost by cutting. -/
theorem append_of_untilTag {skip : Nat} {escaped : Bool} {literal : List Char} {found : Option (TagKind × List Char)}
    (h : m.untilTag skip escaped cs = (literal, found)) : literal ++ m.afterText found = cs := by
  induction cs generalizing skip escaped literal with
  | nil =>
    cases h
    rfl
  | cons c cs ih =>
    have hpass (n : Nat) (hn : (c :: (m.untilTag n (c == '\\') cs).1, (m.untilTag n (c == '\\') cs).2) =
        (literal, found)) : literal ++ m.afterText found = c :: cs := by
      cases hn
      rw [List.cons_append, ih rfl]
    cases skip with
    | succ n => exact hpass n h
    | zero =>
      rw [untilTag_cons] at h
      split at h
      · exact hpass 0 h
      · next k hk =>
        split at h
        · exact hpass _ h
        · cases h
          obtain ⟨rest, hrest⟩ := opener_prefix_of_openerAt hk
          rw [← hrest, List.drop_left]
          rfl

/-! ## Text without openers -/

/-- No opener stands in the text. -/
def Plain (m : Markup) (cs : List Char) : Prop := ∀ s, s <:+ cs → m.openerAt s = none

/-- No opener stands right behind a backslash. -/
def NoEscape (m : Markup) (cs : List Char) : Prop := ∀ s, '\\' :: s <:+ cs → m.openerAt s = none

instance (m : Markup) (cs : List Char) : Decidable (m.NoEscape cs) :=
  decidable_of_iff (∀ t ∈ cs.tails, t.head? = some '\\' → m.openerAt t.tail = none) <| by
    constructor
    · intro h s hs
      exact h _ ((List.mem_tails _ _).mpr hs) rfl
    · intro h t ht hhead
      obtain ⟨s, rfl⟩ := List.head?_eq_some_iff.mp hhead
      exact h s ((List.mem_tails _ _).mp ht)

theorem Plain.tail {c : Char} (h : m.Plain (c :: cs)) : m.Plain cs := fun s hs => h s (hs.trans (List.suffix_cons c cs))

theorem NoEscape.of_suffix {ds : List Char} (h : m.NoEscape ds) (hs : cs <:+ ds) : m.NoEscape cs :=
  fun s hs' => h s (hs'.trans hs)

/-- If no opener stands behind a backslash, none stands before the first tag. -/
theorem plain_of_untilTag {escaped : Bool} {literal : List Char} {found : Option (TagKind × List Char)}
    (h : m.untilTag 0 escaped cs = (literal, found)) (hn : m.NoEscape cs)
    (he : escaped = true → m.openerAt cs = none) : m.Plain literal := by
  induction cs generalizing escaped literal with
  | nil =>
    cases h
    intro s hs
    rw [List.suffix_nil.mp hs, openerAt_nil]
  | cons c cs ih =>
    have happend := append_of_untilTag h
    rw [untilTag_cons] at h
    split at h
    · next ho =>
      cases h
      have hrest : m.Plain (m.untilTag 0 (c == '\\') cs).1 := by
        refine ih rfl (hn.of_suffix (List.suffix_cons c cs)) fun hc => hn cs ?_
        rw [beq_iff_eq.mp hc]
      intro s hs
      rcases List.suffix_cons_iff.mp hs with rfl | hs
      · exact openerAt_eq_none_mono ho ⟨_, happend⟩
      · exact hrest s hs
    · next k ho =>
      split at h
      · next hc =>
        rw [he hc] at ho
        cases ho
      · cases h
        intro s hs
        rw [List.suffix_nil.mp hs, openerAt_nil]

/-- A character that no opener follows is copied. -/
theorem unescapeFrom_of_openerAt_eq_none (h : m.openerAt cs = none) (c : Char) :
    m.unescapeFrom 0 (c :: cs) = c :: m.unescapeFrom 0 cs := by
  rw [unescapeFrom_cons, h]
  split
  · next hk => cases hk
  · rfl

/-- A character other than a backslash is copied. -/
theorem unescapeFrom_of_ne {c : Char} (h : c ≠ '\\') (cs : List Char) :
    m.unescapeFrom 0 (c :: cs) = c :: m.unescapeFrom 0 cs := by
  rw [unescapeFrom_cons, beq_eq_false_iff_ne.mpr h]

theorem unescapeFrom_of_plain (h : m.Plain cs) : m.unescapeFrom 0 cs = cs := by
  induction cs with
  | nil => rfl
  | cons c cs ih =>
    rw [unescapeFrom_of_openerAt_eq_none (h cs (List.suffix_cons c cs)), ih h.tail]

theorem escapeFrom_of_plain (h : m.Plain cs) : m.escapeFrom 0 cs = cs := by
  induction cs with
  | nil => rfl
  | cons c cs ih =>
    rw [escapeFrom_cons, h (c :: cs) List.suffix_rfl, ih h.tail]

/-! ## Line feeds -/

/-- Only backslashes are dropped. -/
theorem lineFeeds_unescapeFrom (m : Markup) (skip : Nat) (cs : List Char) :
    Text.lineFeeds (m.unescapeFrom skip cs) = Text.lineFeeds cs := by
  induction cs generalizing skip with
  | nil => rfl
  | cons c cs ih =>
    have hcopy (n : Nat) : Text.lineFeeds (c :: m.unescapeFrom n cs) = Text.lineFeeds (c :: cs) := by
      have := ih n
      simp only [Text.lineFeeds, List.count_cons] at this ⊢
      rw [this]
    cases skip with
    | succ n => exact hcopy n
    | zero =>
      rw [unescapeFrom_cons]
      split
      · next k hc _ =>
        rw [ih, beq_iff_eq.mp hc]
        rfl
      · exact hcopy 0

/-- Only backslashes are added. -/
theorem lineFeeds_escapeFrom (m : Markup) (skip : Nat) (cs : List Char) :
    Text.lineFeeds (m.escapeFrom skip cs) = Text.lineFeeds cs := by
  induction cs generalizing skip with
  | nil => rfl
  | cons c cs ih =>
    have hcopy (n : Nat) : Text.lineFeeds (c :: m.escapeFrom n cs) = Text.lineFeeds (c :: cs) := by
      have := ih n
      simp only [Text.lineFeeds, List.count_cons] at this ⊢
      rw [this]
    cases skip with
    | succ n => exact hcopy n
    | zero =>
      rw [escapeFrom_cons]
      split
      · exact hcopy _
      · exact hcopy 0

/-! ## Copying -/

theorem unescapeFrom_length_append (m : Markup) (a cs : List Char) :
    m.unescapeFrom a.length (a ++ cs) = a ++ m.unescapeFrom 0 cs := by
  induction a with
  | nil => rfl
  | cons c a ih => rw [List.length_cons, List.cons_append, unescapeFrom_succ, ih, List.cons_append]

theorem escapeFrom_length_append (m : Markup) (a cs : List Char) :
    m.escapeFrom a.length (a ++ cs) = a ++ m.escapeFrom 0 cs := by
  induction a with
  | nil => rfl
  | cons c a ih => rw [List.length_cons, List.cons_append, escapeFrom_succ, ih, List.cons_append]

theorem length_unescapeFrom_le (m : Markup) (skip : Nat) (cs : List Char) :
    (m.unescapeFrom skip cs).length ≤ cs.length := by
  induction cs generalizing skip with
  | nil => exact Nat.le_refl _
  | cons c cs ih =>
    cases skip with
    | succ n => exact Nat.succ_le_succ (ih n)
    | zero =>
      rw [unescapeFrom_cons]
      split
      · exact Nat.le_succ_of_le (ih _)
      · exact Nat.succ_le_succ (ih 0)

/-- A backslash in front of an opener is dropped. -/
theorem unescapeFrom_of_openerAt_eq_some (h : m.openerAt cs = some k) :
    m.unescapeFrom 0 ('\\' :: cs) = m.unescapeFrom (m.opener k).length cs := by
  rw [unescapeFrom_cons, h]
  rfl

/-- The opener behind it is copied as a whole. -/
theorem unescapeFrom_backslash (h : m.openerAt cs = some k) :
    m.unescapeFrom 0 ('\\' :: cs) = m.opener k ++ m.unescapeFrom 0 (cs.drop (m.opener k).length) := by
  rw [unescapeFrom_of_openerAt_eq_some h]
  obtain ⟨rest, rfl⟩ := opener_prefix_of_openerAt h
  rw [List.drop_left, unescapeFrom_length_append]

theorem unescapeFrom_ne_nil (h : cs ≠ []) (skip : Nat) : m.unescapeFrom skip cs ≠ [] := by
  cases cs with
  | nil => exact absurd rfl h
  | cons c cs =>
    cases skip with
    | succ n => exact List.cons_ne_nil _ _
    | zero =>
      by_cases hc : c = '\\'
      · subst hc
        rcases ho : m.openerAt cs with _ | k
        · rw [unescapeFrom_of_openerAt_eq_none ho]
          exact List.cons_ne_nil _ _
        · rw [unescapeFrom_backslash ho]
          exact List.append_ne_nil_of_left_ne_nil (m.opener_ne_nil k) _
      · rw [unescapeFrom_of_ne hc]
        exact List.cons_ne_nil _ _

/-! ## Openers without a backslash -/

/-- No opener holds a backslash. -/
def Bare (m : Markup) : Prop := ∀ k, '\\' ∉ m.opener k

/-- What has no backslash stands in front of the escaped text only if it stands in front of the text. -/
theorem prefix_of_prefix_escapeFrom {skip : Nat} {y : List Char} (hy : '\\' ∉ y) (h : y <+: m.escapeFrom skip cs) :
    y <+: cs := by
  induction cs generalizing skip y with
  | nil => exact h
  | cons c cs ih =>
    cases y with
    | nil => exact List.nil_prefix
    | cons a y =>
      have hcopy (n : Nat) (hp : a :: y <+: c :: m.escapeFrom n cs) : a :: y <+: c :: cs := by
        obtain ⟨hac, hp⟩ := List.cons_prefix_cons.mp hp
        exact List.cons_prefix_cons.mpr ⟨hac, ih (fun hm => hy (List.mem_cons_of_mem _ hm)) hp⟩
      cases skip with
      | succ n => exact hcopy n h
      | zero =>
        rw [escapeFrom_cons] at h
        split at h
        · obtain ⟨rfl, -⟩ := List.cons_prefix_cons.mp h
          exact absurd List.mem_cons_self hy
        · exact hcopy 0 h

/-- In front of escaped text there is no opener. -/
theorem openerAt_escapeFrom (hm : m.Bare) (cs : List Char) : m.openerAt (m.escapeFrom 0 cs) = none := by
  rw [openerAt_eq_none_iff]
  intro k hk
  cases cs with
  | nil => exact m.opener_ne_nil k (List.prefix_nil.mp hk)
  | cons c cs =>
    have hk' := prefix_of_prefix_escapeFrom (hm k) hk
    rw [escapeFrom_cons] at hk
    split at hk
    · next j _ =>
      obtain ⟨a, y, hay⟩ := List.exists_cons_of_ne_nil (m.opener_ne_nil k)
      rw [hay] at hk
      obtain ⟨rfl, -⟩ := List.cons_prefix_cons.mp hk
      exact hm k (hay ▸ List.mem_cons_self)
    · next ho => exact openerAt_eq_none_iff.mp ho k hk'

/-- The opener that is escaped is also the longest one in front of what follows it then. -/
theorem openerAt_cons_escapeFrom (hm : m.Bare) {c : Char} (h : m.openerAt (c :: cs) = some k) :
    m.openerAt (c :: m.escapeFrom ((m.opener k).length - 1) cs) = some k := by
  obtain ⟨hk, hmax⟩ := openerAt_eq_some_iff.mp h
  refine openerAt_eq_some_iff.mpr ⟨?_, fun j hj => hmax j ?_⟩
  · obtain ⟨a, y, hay⟩ := List.exists_cons_of_ne_nil (m.opener_ne_nil k)
    rw [hay] at hk ⊢
    obtain ⟨rfl, rest, rfl⟩ := List.cons_prefix_cons.mp hk
    rw [List.length_cons, Nat.add_sub_cancel, escapeFrom_length_append]
    exact List.prefix_append _ _
  · have hbare := hm j
    obtain ⟨b, z, hbz⟩ := List.exists_cons_of_ne_nil (m.opener_ne_nil j)
    rw [hbz] at hj hbare ⊢
    obtain ⟨rfl, hz⟩ := List.cons_prefix_cons.mp hj
    refine List.cons_prefix_cons.mpr ⟨rfl, prefix_of_prefix_escapeFrom ?_ hz⟩
    exact fun hmem => hbare (List.mem_cons_of_mem _ hmem)

/-- **Unescaping undoes escaping.** -/
theorem unescapeFrom_escapeFrom (hm : m.Bare) (skip : Nat) (cs : List Char) :
    m.unescapeFrom skip (m.escapeFrom skip cs) = cs := by
  induction cs generalizing skip with
  | nil => rfl
  | cons c cs ih =>
    cases skip with
    | succ n => rw [escapeFrom_succ, unescapeFrom_succ, ih]
    | zero =>
      rw [escapeFrom_cons]
      rcases ho : m.openerAt (c :: cs) with _ | k
      · exact (unescapeFrom_of_openerAt_eq_none (openerAt_escapeFrom hm cs) c).trans (congrArg (c :: ·) (ih 0))
      · obtain ⟨n, hn⟩ := Nat.exists_eq_add_one.mpr (m.length_opener_pos k)
        have hfits := openerAt_cons_escapeFrom hm ho
        simp only [hn, Nat.add_sub_cancel] at hfits ⊢
        rw [unescapeFrom_of_openerAt_eq_some hfits, hn, unescapeFrom_succ, ih n]

/-- **No tag begins in escaped text,** wherever the reading of it starts. -/
theorem untilTag_escapeFrom (hm : m.Bare) (skip : Nat) (escaped : Bool) (cs : List Char) :
    m.untilTag skip escaped (m.escapeFrom skip cs) = (m.escapeFrom skip cs, none) := by
  induction cs generalizing skip escaped with
  | nil => rfl
  | cons c cs ih =>
    cases skip with
    | succ n => rw [escapeFrom_succ, untilTag_succ, ih]
    | zero =>
      have hnone := openerAt_escapeFrom hm (c :: cs)
      rw [escapeFrom_cons] at hnone ⊢
      rcases ho : m.openerAt (c :: cs) with _ | k
      · rw [ho] at hnone
        rw [untilTag_cons, hnone, ih]
      · -- the backslash is passed over, and the opener behind it as a whole
        rw [ho] at hnone
        simp only [untilTag_cons, hnone, openerAt_cons_escapeFrom hm ho, BEq.rfl, ↓reduceIte, ih]

/-- No text unescapes to the same as one of its proper prefixes. -/
theorem unescapeFrom_append_ne (hm : m.Bare) {x : List Char} (hx : x ≠ []) (skip : Nat) (cs : List Char) :
    m.unescapeFrom skip cs ≠ m.unescapeFrom skip (cs ++ x) := by
  induction cs generalizing skip with
  | nil => exact (unescapeFrom_ne_nil hx skip).symm
  | cons c cs ih =>
    have hcopy (n : Nat) : c :: m.unescapeFrom n cs ≠ c :: m.unescapeFrom n (cs ++ x) :=
      fun h => ih n (List.cons.inj h).2
    rw [List.cons_append]
    cases skip with
    | succ n => exact hcopy n
    | zero =>
      by_cases hc : c = '\\'
      · subst hc
        rcases hl : m.openerAt (cs ++ x) with _ | k
        · rw [unescapeFrom_of_openerAt_eq_none hl,
            unescapeFrom_of_openerAt_eq_none (openerAt_eq_none_mono hl (List.prefix_append cs x))]
          exact hcopy 0
        · obtain ⟨hk, hmax⟩ := openerAt_eq_some_iff.mp hl
          rcases Nat.lt_or_ge cs.length (m.opener k).length with hlt | hge
          · -- the longer text gives at least a whole opener, or it starts differently
            rcases hs : m.openerAt cs with _ | j
            · obtain ⟨a, y, hay⟩ := List.exists_cons_of_ne_nil (m.opener_ne_nil k)
              rw [unescapeFrom_backslash hl, unescapeFrom_of_openerAt_eq_none hs, hay]
              intro h
              obtain ⟨ha, -⟩ := List.cons.inj h
              exact hm k (hay ▸ ha ▸ List.mem_cons_self)
            · intro h
              have hle := m.length_unescapeFrom_le (m.opener j).length cs
              rw [unescapeFrom_backslash hl, unescapeFrom_of_openerAt_eq_some hs] at h
              rw [h, List.length_append] at hle
              omega
          · -- the opener fits in the shorter text as well
            have hk' := List.prefix_of_prefix_length_le hk (List.prefix_append cs x) hge
            have hs : m.openerAt cs = some k :=
              openerAt_eq_some_iff.mpr ⟨hk', fun j hj => hmax j (hj.trans (List.prefix_append cs x))⟩
            rw [unescapeFrom_of_openerAt_eq_some hs, unescapeFrom_of_openerAt_eq_some hl]
            exact ih _
      · rw [unescapeFrom_of_ne hc, unescapeFrom_of_ne hc]
        exact hcopy 0

/-- Of two texts in front of one text, only the same one unescapes to the same. -/
theorem eq_of_unescapeFrom_eq (hm : m.Bare) {a b : List Char} (ha : a <+: cs) (hb : b <+: cs)
    (h : m.unescapeFrom 0 a = m.unescapeFrom 0 b) : a = b := by
  rcases List.prefix_or_prefix_of_prefix ha hb with ⟨x, rfl⟩ | ⟨x, rfl⟩
  · by_cases hx : x = []
    · rw [hx, List.append_nil]
    · exact absurd h (unescapeFrom_append_ne hm hx 0 a)
  · by_cases hx : x = []
    · rw [hx, List.append_nil]
    · exact absurd h.symm (unescapeFrom_append_ne hm hx 0 b)

end Markup

end Stencil
