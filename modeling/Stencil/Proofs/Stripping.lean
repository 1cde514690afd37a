import Mathlib.Data.List.TakeWhile
import Stencil.Text.BlankRun

/-!
# What a strip marker removes

`LeadingRun` says which part of a text its leading blank run is: if nothing but blanks stands before the first line
break, these and the whole run of line breaks that starts there, and otherwise nothing. A text has no other leading
blank run than the one that is found (`LeadingRun.blankRun_eq`), and that is one (`leadingRun_blankRun`), so that
`stripBlankRun_eq_iff` gives the result for every text.
-/

namespace Stencil.Text

/-- The first part of a text is its leading blank run, and the second one is what is left. -/
inductive LeadingRun : List Char → List Char → Prop
  | run {front run rest : List Char} : (∀ c ∈ front, isBlank c = true ∧ isBreak c = false) → run ≠ [] →
    (∀ c ∈ run, isBreak c = true) → (∀ c ∈ rest.head?, isBreak c = false) → LeadingRun (front ++ run) rest
  /-- Before each line break stands something that is no blank. -/
  | none {cs : List Char} :
    (∀ front c back, cs = front ++ c :: back → isBreak c = true → ∃ d ∈ front, isBlank d = false) → LeadingRun [] cs

variable {cs front run rest removed : List Char} {c : Char}

theorem isInlineBlank_iff : isInlineBlank c = true ↔ isBlank c = true ∧ isBreak c = false := by
  rw [isInlineBlank, Bool.and_eq_true, Bool.not_eq_true']

theorem not_isInlineBlank_of_isBreak (h : isBreak c = true) : ¬isInlineBlank c = true := by
  rw [isInlineBlank_iff, h]
  exact fun hinline => Bool.noConfusion hinline.2

/-- Line breaks that follow blanks are found behind these. -/
theorem takeWhile_isBreak_append (hfront : ∀ c ∈ front, isInlineBlank c = true) (hne : run ≠ [])
    (hrun : ∀ c ∈ run, isBreak c = true) (hrest : ∀ c ∈ rest.head?, isBreak c = false) :
    (front ++ run ++ rest).takeWhile isInlineBlank = front ∧
      ((front ++ run ++ rest).dropWhile isInlineBlank).takeWhile isBreak = run := by
  obtain ⟨c, run, rfl⟩ := List.exists_cons_of_ne_nil hne
  have hc := not_isInlineBlank_of_isBreak (hrun c List.mem_cons_self)
  rw [List.append_assoc, List.takeWhile_append_of_pos hfront, List.dropWhile_append_of_pos hfront, List.cons_append,
    List.takeWhile_cons_of_neg hc, List.dropWhile_cons_of_neg hc, List.append_nil, ← List.cons_append,
    List.takeWhile_append_of_pos hrun]
  refine ⟨rfl, ?_⟩
  cases rest with
  | nil => exact List.append_nil _
  | cons d rest => rw [List.takeWhile_cons_of_neg (Bool.eq_false_iff.mp (hrest d rfl)), List.append_nil]

/-- A line break that has nothing but blanks before it is found, or one before it. -/
theorem takeWhile_isBreak_ne_nil (hfront : ∀ d ∈ front, isBlank d = true) (hc : isBreak c = true) (back : List Char) :
    ((front ++ c :: back).dropWhile isInlineBlank).takeWhile isBreak ≠ [] := by
  induction front with
  | nil =>
    rw [List.nil_append, List.dropWhile_cons_of_neg (not_isInlineBlank_of_isBreak hc), List.takeWhile_cons_of_pos hc]
    exact List.cons_ne_nil _ _
  | cons d front ih =>
    obtain ⟨hd, hfront⟩ := List.forall_mem_cons.mp hfront
    rw [List.cons_append]
    by_cases hbreak : isBreak d = true
    · rw [List.dropWhile_cons_of_neg (not_isInlineBlank_of_isBreak hbreak), List.takeWhile_cons_of_pos hbreak]
      exact List.cons_ne_nil _ _
    · rw [List.dropWhile_cons_of_pos (isInlineBlank_iff.mpr ⟨hd, Bool.eq_false_iff.mpr hbreak⟩)]
      exact ih hfront

/-- No line break is found behind the blanks if each of them has something before it that is no blank. -/
theorem takeWhile_isBreak_eq_nil_iff : (cs.dropWhile isInlineBlank).takeWhile isBreak = [] ↔
    ∀ front c back, cs = front ++ c :: back → isBreak c = true → ∃ d ∈ front, isBlank d = false := by
  constructor
  · rintro hnil front c back rfl hc
    by_contra hblank
    refine takeWhile_isBreak_ne_nil (fun d hd => ?_) hc back hnil
    exact Bool.of_not_eq_false fun hvisible => hblank ⟨d, hd, hvisible⟩
  · intro h
    rcases hbehind : cs.dropWhile isInlineBlank with _ | ⟨c, back⟩
    · rfl
    · refine List.takeWhile_cons_of_neg fun hc => ?_
      have hcs : cs = cs.takeWhile isInlineBlank ++ c :: back := by
        rw [← hbehind, List.takeWhile_append_dropWhile]
      obtain ⟨d, hd, hvisible⟩ := h _ c back hcs hc
      exact Bool.eq_false_iff.mp hvisible (isInlineBlank_iff.mp (List.mem_takeWhile_imp hd)).1

/-- A text has no other leading blank run than the one that is found. -/
theorem LeadingRun.blankRun_eq (h : LeadingRun removed rest) : blankRun (removed ++ rest) = removed := by
  cases h with
  | @run front run rest hfront hne hrun hrest =>
    obtain ⟨htake, hbreaks⟩ :=
      takeWhile_isBreak_append (fun c hc => isInlineBlank_iff.mpr (hfront c hc)) hne hrun hrest
    rw [blankRun, hbreaks, htake]
    cases run with
    | nil => exact absurd rfl hne
    | cons => rfl
  | none h => rw [blankRun, List.nil_append, takeWhile_isBreak_eq_nil_iff.mpr h]

/-- The run that is found is the leading blank run. -/
theorem leadingRun_blankRun (cs : List Char) : LeadingRun (blankRun cs) (afterBlankRun cs) := by
  rcases hbreaks : (cs.dropWhile isInlineBlank).takeWhile isBreak with _ | ⟨b, run⟩
  · have hrun : blankRun cs = [] := by rw [blankRun, hbreaks]
    rw [afterBlankRun, hrun]
    exact .none (takeWhile_isBreak_eq_nil_iff.mp hbreaks)
  · have hrun : blankRun cs = cs.takeWhile isInlineBlank ++ b :: run := by rw [blankRun, hbreaks]
    have hcs : cs = blankRun cs ++ (cs.dropWhile isInlineBlank).dropWhile isBreak := by
      rw [hrun, ← hbreaks, List.append_assoc, List.takeWhile_append_dropWhile, List.takeWhile_append_dropWhile]
    have hrest : afterBlankRun cs = (cs.dropWhile isInlineBlank).dropWhile isBreak :=
      List.append_cancel_left ((blankRun_append_afterBlankRun cs).trans hcs)
    rw [hrun, hrest]
    refine .run (fun c hc => isInlineBlank_iff.mp (List.mem_takeWhile_imp hc)) (List.cons_ne_nil _ _) (fun c hc => ?_)
      (fun c hc => ?_)
    · rw [← hbreaks] at hc
      exact List.mem_takeWhile_imp hc
    · have hhead := List.head?_dropWhile_not isBreak (cs.dropWhile isInlineBlank)
      rw [Option.mem_def.mp hc] at hhead
      exact hhead

/-- **A strip marker removes exactly the leading blank run** and counts its line feeds. -/
theorem stripBlankRun_eq_iff {text rest : String} {lines : Nat} : stripBlankRun text = (rest, lines) ↔
    ∃ removed, text.toList = removed ++ rest.toList ∧ LeadingRun removed rest.toList ∧ lines = removed.count '\n' := by
  constructor
  · intro h
    cases h
    refine ⟨blankRun text.toList, ?_, ?_, rfl⟩
    · rw [String.toList_ofList, blankRun_append_afterBlankRun]
    · rw [String.toList_ofList]
      exact leadingRun_blankRun text.toList
  · rintro ⟨removed, htext, hrun, rfl⟩
    rw [stripBlankRun, afterBlankRun, htext, hrun.blankRun_eq, List.drop_left, String.ofList_toList]
    rfl

/-- A blank line of other blanks, line breaks of both kinds, and an indentation that is kept. -/
example : stripBlankRun " \u3000\r\n\n\r  a\nb" = ("  a\nb", 2) := by decide

end Stencil.Text
