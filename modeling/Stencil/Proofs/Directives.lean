import Mathlib.Data.List.Basic
import Mathlib.Data.List.TakeWhile
import Stencil.Node

/-!
# The grammar of directives

`Directive.Grammar` gives the bodies that spell a directive, form by form and without a word on how one is recognised:
blanks, the words of the directive with blanks between them, and blanks. No word begins or ends with a blank
(`Words.trimmed`), so that taking the blanks off the ends of a body leaves the words (`Text.trim_append`), and on these
the recogniser is right (`words_of_ofTrimmed?`, `Words.ofTrimmed?`). It finds exactly the directives of the grammar, no
body spells two of them, and every other statement stays as it is (`classification_exact`).
-/

namespace Stencil

/-! ## Blanks at the ends of a text -/

namespace Text

variable {cs w w' : List Char} {c : Char}

/-- A run of blanks. -/
def Blank (w : List Char) : Prop := ∀ c ∈ w, isBlank c = true

instance : DecidablePred Blank := fun w => List.decidableBAll (isBlank · = true) w

/-- A text that is not empty and has no blank at either end. -/
structure Trimmed (cs : List Char) : Prop where
  ne_nil : cs ≠ []
  head : ∀ c ∈ cs.head?, isBlank c = false
  last : ∀ c ∈ cs.getLast?, isBlank c = false

theorem dropWhile_blank_append (hw : Blank w) (hcs : ∀ c ∈ cs.head?, isBlank c = false) :
    (w ++ cs).dropWhile isBlank = cs := by
  rw [List.dropWhile_append_of_pos hw]
  cases cs with
  | nil => rfl
  | cons c cs => exact List.dropWhile_cons_of_neg (Bool.eq_false_iff.mp (hcs c rfl))

/-- A text is a run of blanks and what is behind it. -/
theorem exists_blank_append_dropWhile (cs : List Char) : ∃ w, Blank w ∧ w ++ cs.dropWhile isBlank = cs :=
  ⟨cs.takeWhile isBlank, fun _ => List.mem_takeWhile_imp, List.takeWhile_append_dropWhile⟩

theorem trim_append (hw : Blank w) (hw' : Blank w') (hcs : Trimmed cs) : trim (w ++ cs ++ w') = cs := by
  have hfront : (w ++ (cs ++ w')).dropWhile isBlank = cs ++ w' :=
    dropWhile_blank_append hw (by rw [List.head?_append_of_ne_nil _ hcs.ne_nil]; exact hcs.head)
  have hback : (w'.reverse ++ cs.reverse).dropWhile isBlank = cs.reverse :=
    dropWhile_blank_append (fun c hc => hw' c (List.mem_reverse.mp hc)) (List.head?_reverse ▸ hcs.last)
  rw [trim, List.append_assoc, hfront, List.reverse_append, hback, List.reverse_reverse]

theorem trimmed_singleton (h : isBlank c = false) : Trimmed [c] :=
  ⟨List.cons_ne_nil c [], fun _ hc => Option.some.inj hc ▸ h, fun _ hc => Option.some.inj hc ▸ h⟩

theorem trimmed_of_forall (hne : cs ≠ []) (h : ∀ c ∈ cs, isBlank c = false) : Trimmed cs :=
  ⟨hne, fun c hc => h c (List.mem_of_mem_head? hc), fun c hc => h c (List.mem_of_getLast? hc)⟩

/-- The ends of a text are those of its first part and its last part. -/
theorem Trimmed.append {a b : List Char} (ha : Trimmed a) (middle : List Char) (hb : Trimmed b) :
    Trimmed (a ++ middle ++ b) where
  ne_nil h := ha.ne_nil (List.append_eq_nil_iff.mp (List.append_eq_nil_iff.mp h).1).1
  head := by
    rw [List.append_assoc, List.head?_append_of_ne_nil _ ha.ne_nil]
    exact ha.head
  last := by
    rw [List.getLast?_append_of_ne_nil _ hb.ne_nil]
    exact hb.last

theorem exists_trim (cs : List Char) : ∃ w w', Blank w ∧ Blank w' ∧ cs = w ++ trim cs ++ w' := by
  obtain ⟨w, hw, hfront⟩ := exists_blank_append_dropWhile cs
  obtain ⟨w', hw', hback⟩ := exists_blank_append_dropWhile (cs.dropWhile isBlank).reverse
  refine ⟨w, w'.reverse, hw, fun c hc => hw' c (List.mem_reverse.mp hc), ?_⟩
  rw [trim, List.append_assoc, ← List.reverse_append, hback, List.reverse_reverse, hfront]

theorem not_isBlank_of_isIdentRest (h : isIdentRest c = true) : isBlank c = false := by
  rcases Bool.or_eq_true_iff.mp h with hletter | hunderscore
  · -- The blanks are below the digits or above the letters.
    have hbounds : 48 ≤ c.toNat ∧ c.toNat ≤ 122 := by
      have hupper : c.isUpper = decide (65 ≤ c.toNat ∧ c.toNat ≤ 90) := rfl
      have hlower : c.isLower = (decide (97 ≤ c.toNat) && decide (c.toNat ≤ 122)) := rfl
      have hdigit : c.isDigit = (decide (48 ≤ c.toNat) && decide (c.toNat ≤ 57)) := rfl
      have halphanum : c.isAlphanum = ((c.isUpper || c.isLower) || c.isDigit) := rfl
      simp only [halphanum, hupper, hlower, hdigit, Bool.or_eq_true, Bool.and_eq_true, decide_eq_true_eq] at hletter
      omega
    simp only [isBlank, Bool.or_eq_false_iff, Bool.and_eq_false_iff, decide_eq_false_iff_not, beq_eq_false_iff_ne]
    omega
  · rw [beq_iff_eq] at hunderscore
    subst hunderscore
    rfl

/-- An identifier has a character, and none of its characters is a blank. -/
theorem not_isBlank_of_isIdent (h : isIdent cs = true) : cs ≠ [] ∧ ∀ c ∈ cs, isBlank c = false := by
  cases cs with
  | nil => cases h
  | cons c cs =>
    obtain ⟨hstart, hrest⟩ := Bool.and_eq_true_iff.mp h
    refine ⟨List.cons_ne_nil c cs, List.forall_mem_cons.mpr ⟨?_, fun c' hc' => ?_⟩⟩
    · exact not_isBlank_of_isIdentRest (isIdentRest_of_isIdentStart hstart)
    · exact not_isBlank_of_isIdentRest (List.all_eq_true.mp hrest c' hc')

theorem trimmed_of_isIdent (h : isIdent cs = true) : Trimmed cs :=
  trimmed_of_forall (not_isBlank_of_isIdent h).1 (not_isBlank_of_isIdent h).2

/-- Words with blanks between them are no identifier. -/
theorem append_blank_ne {front behind : List Char} (hw : Blank w) (hne : w ≠ []) (h : isIdent cs = true) :
    front ++ w ++ behind ≠ cs := by
  rintro rfl
  obtain ⟨c, hc⟩ := List.exists_mem_of_ne_nil w hne
  have hmem : c ∈ front ++ w ++ behind := List.mem_append_left _ (List.mem_append_right _ hc)
  exact Bool.eq_false_iff.mp ((not_isBlank_of_isIdent h).2 c hmem) (hw c hc)

end Text

namespace Directive

/-! ## The grammar -/

/-- A name between quotes, each of them of either kind. -/
inductive Quoted (name : String) : List Char → Prop
  | mk {q q' : Char} : (q = '"' ∨ q = '\'') → (q' = '"' ∨ q' = '\'') → name ≠ "" →
    (∀ c ∈ name.toList, c ≠ '"' ∧ c ≠ '\'') → Quoted name (q :: (name.toList ++ [q']))

/-- An identifier, with a colon in front or not. -/
inductive Named (name : String) : List Char → Prop
  | plain : Text.isIdent name.toList = true → Named name name.toList
  | colon : Text.isIdent name.toList = true → Named name (':' :: name.toList)

/-- The words of a directive, with blanks between them. -/
inductive Words : Directive → List Char → Prop
  | inherits {w cs : List Char} {name : String} : Text.Blank w → w ≠ [] → Quoted name cs →
    Words (.inherits name) ("extends".toList ++ w ++ cs)
  | openBlock {w cs : List Char} {name : String} : Text.Blank w → w ≠ [] → Named name cs →
    Words (.openBlock name) ("block".toList ++ w ++ cs)
  | closeBlock : Words .closeBlock "endblock".toList
  | closeNamed {w cs : List Char} {name : String} : Text.Blank w → w ≠ [] → Named name cs →
    Words .closeBlock ("endblock".toList ++ w ++ cs)
  | superBlock : Words .superBlock "blocksuper".toList
  | superBlockApart : Words .superBlock "block_super".toList

/-- The words of a directive, with blanks in front and behind. -/
inductive Grammar (d : Directive) : List Char → Prop
  | mk {w cs w' : List Char} : Text.Blank w → Words d cs → Text.Blank w' → Grammar d (w ++ cs ++ w')

/-! ## Recognising the words -/

variable {w cs rest : List Char} {word name : String} {d d' : Directive}

/-- What begins without a blank is found behind a word and blanks. -/
theorem afterWord?_append (hw : Text.Blank w) (hne : w ≠ []) (hrest : ∀ c ∈ rest.head?, Text.isBlank c = false) :
    afterWord? word (word.toList ++ w ++ rest) = some rest := by
  obtain ⟨c, w, rfl⟩ := List.exists_cons_of_ne_nil hne
  obtain ⟨hc, hw⟩ := List.forall_mem_cons.mp hw
  have hpre : word.toList.isPrefixOf (word.toList ++ (c :: w) ++ rest) = true := by
    rw [List.append_assoc, List.isPrefixOf_iff_prefix]
    exact List.prefix_append ..
  have hdrop : (word.toList ++ (c :: w) ++ rest).drop word.length = c :: (w ++ rest) := by
    rw [List.append_assoc, ← String.length_toList, List.drop_left, List.cons_append]
  rw [afterWord?, if_pos hpre, hdrop]
  show (if Text.isBlank c then some ((w ++ rest).dropWhile Text.isBlank) else none) = some rest
  rw [if_pos hc, Text.dropWhile_blank_append hw hrest]

theorem eq_append_of_afterWord? (h : afterWord? word cs = some rest) :
    ∃ w, Text.Blank w ∧ w ≠ [] ∧ cs = word.toList ++ w ++ rest := by
  rw [afterWord?] at h
  split_ifs at h with hpre
  obtain ⟨behind, rfl⟩ := List.isPrefixOf_iff_prefix.mp hpre
  rw [← String.length_toList, List.drop_left] at h
  cases behind with
  | nil => cases h
  | cons c behind =>
    dsimp only at h
    split_ifs at h with hc
    cases h
    obtain ⟨w, hw, hbehind⟩ := Text.exists_blank_append_dropWhile behind
    exact ⟨c :: w, List.forall_mem_cons.mpr ⟨hc, hw⟩, List.cons_ne_nil c w, by
      rw [List.append_assoc, List.cons_append, hbehind]⟩

theorem isQuote_iff {c : Char} : isQuote c = true ↔ c = '"' ∨ c = '\'' := by simp [isQuote]

theorem not_isQuote_iff {c : Char} : (!isQuote c) = true ↔ c ≠ '"' ∧ c ≠ '\'' := by simp [isQuote]

theorem quoted_of_quotedName? (h : quotedName? cs = some name) : Quoted name cs := by
  cases cs with
  | nil => cases h
  | cons q cs =>
    rw [quotedName?] at h
    split_ifs at h with hquoted
    simp only [Bool.and_eq_true, Bool.not_eq_true', beq_iff_eq, List.isEmpty_eq_false_iff] at hquoted
    obtain ⟨⟨hq, hne⟩, hlength⟩ := hquoted
    have hname : cs.takeWhile (!isQuote ·) = name.toList := by rw [← Option.some.inj h, String.toList_ofList]
    obtain ⟨q', hbehind⟩ := List.length_eq_one_iff.mp hlength
    have hq' := List.head?_dropWhile_not (!isQuote ·) cs
    have hcs : name.toList ++ [q'] = cs := by rw [← hname, ← hbehind, List.takeWhile_append_dropWhile]
    rw [hbehind] at hq'
    rw [hname] at hne
    rw [← hcs]
    refine .mk (isQuote_iff.mp hq) (isQuote_iff.mp (by simpa using hq')) (mt String.toList_eq_nil_iff.mpr hne) ?_
    intro c hc
    rw [← hname] at hc
    have hinside := List.mem_takeWhile_imp hc
    exact not_isQuote_iff.mp hinside

theorem Quoted.quotedName? (h : Quoted name cs) : quotedName? cs = some name := by
  obtain @⟨q, q', hq, hq', hne, hname⟩ := h
  have hinside : ∀ c ∈ name.toList, (!isQuote c) = true := fun c hc => not_isQuote_iff.mpr (hname c hc)
  have hclose : isQuote q' = true := isQuote_iff.mpr hq'
  have htake : (name.toList ++ [q']).takeWhile (!isQuote ·) = name.toList := by
    rw [List.takeWhile_append_of_pos hinside]
    simp [hclose]
  have hdrop : (name.toList ++ [q']).dropWhile (!isQuote ·) = [q'] := by
    rw [List.dropWhile_append_of_pos hinside]
    simp [hclose]
  have hfull : name.toList.isEmpty = false := List.isEmpty_eq_false_iff.mpr (mt String.toList_eq_nil_iff.mp hne)
  rw [Directive.quotedName?, htake, hdrop, isQuote_iff.mpr hq, hfull]
  exact congrArg some String.ofList_toList

theorem named_of_blockName? (h : blockName? cs = some name) : Named name cs := by
  unfold blockName? at h
  dsimp only at h
  split at h
  · next rest =>
    split_ifs at h with hident
    obtain rfl : rest = name.toList := by rw [← Option.some.inj h, String.toList_ofList]
    exact .colon hident
  · split_ifs at h with hident
    obtain rfl : cs = name.toList := by rw [← Option.some.inj h, String.toList_ofList]
    exact .plain hident

theorem Named.blockName? (h : Named name cs) : blockName? cs = some name := by
  have hsome : some (String.ofList name.toList) = some name := congrArg some String.ofList_toList
  rcases h with hident | hident
  · unfold Directive.blockName?
    dsimp only
    split
    · next hcolon =>
      rw [hcolon] at hident
      cases hident
    · rw [if_pos hident, hsome]
  · rw [← hsome]
    exact if_pos hident

theorem Quoted.trimmed (h : Quoted name cs) : Text.Trimmed cs := by
  obtain ⟨hq, hq', -, -⟩ := h
  have hquote {q : Char} (hq : q = '"' ∨ q = '\'') : Text.Trimmed [q] := by
    rcases hq with rfl | rfl <;> exact Text.trimmed_singleton rfl
  exact (hquote hq).append name.toList (hquote hq')

theorem Named.trimmed (h : Named name cs) : Text.Trimmed cs := by
  rcases h with hident | hident
  · exact Text.trimmed_of_isIdent hident
  · exact (Text.trimmed_singleton (by decide : Text.isBlank ':' = false)).append [] (Text.trimmed_of_isIdent hident)

theorem Words.trimmed (h : Words d cs) : Text.Trimmed cs := by
  have hword : ∀ word ∈ ["extends", "block", "endblock", "blocksuper", "block_super"], Text.Trimmed word.toList :=
    fun word hword => Text.trimmed_of_isIdent (by revert word; decide)
  cases h with
  | inherits _ _ hname => exact (hword _ (by decide)).append _ hname.trimmed
  | openBlock _ _ hname => exact (hword _ (by decide)).append _ hname.trimmed
  | closeBlock => exact hword _ (by decide)
  | closeNamed _ _ hname => exact (hword _ (by decide)).append _ hname.trimmed
  | superBlock => exact hword _ (by decide)
  | superBlockApart => exact hword _ (by decide)

theorem words_of_ofTrimmed? (h : ofTrimmed? cs = some d) : Words d cs := by
  rw [ofTrimmed?] at h
  split_ifs at h with hclose hsuper
  · cases h
    subst hclose
    exact .closeBlock
  · cases h
    rcases hsuper with rfl | rfl
    · exact .superBlock
    · exact .superBlockApart
  · split at h
    · next rest hrest =>
      obtain ⟨name, hname, rfl⟩ := Option.map_eq_some_iff.mp h
      obtain ⟨w, hw, hne, rfl⟩ := eq_append_of_afterWord? hrest
      exact .inherits hw hne (quoted_of_quotedName? hname)
    · split at h
      · next rest hrest =>
        obtain ⟨name, hname, rfl⟩ := Option.map_eq_some_iff.mp h
        obtain ⟨w, hw, hne, rfl⟩ := eq_append_of_afterWord? hrest
        exact .openBlock hw hne (named_of_blockName? hname)
      · split at h
        · next rest hrest =>
          obtain ⟨name, hname, rfl⟩ := Option.map_eq_some_iff.mp h
          obtain ⟨w, hw, hne, rfl⟩ := eq_append_of_afterWord? hrest
          exact .closeNamed hw hne (named_of_blockName? hname)
        · cases h

/-- Words with blanks between them are no directive of one word. -/
theorem not_single (hw : Text.Blank w) (hne : w ≠ []) (front behind : List Char) :
    front ++ w ++ behind ≠ "endblock".toList ∧
      ¬(front ++ w ++ behind = "blocksuper".toList ∨ front ++ w ++ behind = "block_super".toList) :=
  have hsingle {word : List Char} (h : Text.isIdent word = true) : front ++ w ++ behind ≠ word :=
    Text.append_blank_ne hw hne h
  ⟨hsingle rfl, not_or.mpr ⟨hsingle rfl, hsingle rfl⟩⟩

theorem Words.ofTrimmed? (h : Words d cs) : ofTrimmed? cs = some d := by
  cases h with
  | @inherits w cs name hw hne hname =>
    obtain ⟨hclose, hsuper⟩ := not_single hw hne "extends".toList cs
    rw [Directive.ofTrimmed?, if_neg hclose, if_neg hsuper, afterWord?_append hw hne hname.trimmed.head]
    exact Option.map_eq_some_iff.mpr ⟨name, hname.quotedName?, rfl⟩
  | @openBlock w cs name hw hne hname =>
    obtain ⟨hclose, hsuper⟩ := not_single hw hne "block".toList cs
    -- The words that are tried before are found not to be there at their first different character.
    have hextends : afterWord? "extends" ("block".toList ++ w ++ cs) = none := rfl
    rw [Directive.ofTrimmed?, if_neg hclose, if_neg hsuper, hextends, afterWord?_append hw hne hname.trimmed.head]
    exact Option.map_eq_some_iff.mpr ⟨name, hname.blockName?, rfl⟩
  | closeBlock => rfl
  | @closeNamed w cs name hw hne hname =>
    obtain ⟨hclose, hsuper⟩ := not_single hw hne "endblock".toList cs
    have hextends : afterWord? "extends" ("endblock".toList ++ w ++ cs) = none := rfl
    have hblock : afterWord? "block" ("endblock".toList ++ w ++ cs) = none := rfl
    rw [Directive.ofTrimmed?, if_neg hclose, if_neg hsuper, hextends, hblock,
      afterWord?_append hw hne hname.trimmed.head]
    exact Option.map_eq_some_iff.mpr ⟨name, hname.blockName?, rfl⟩
  | superBlock => rfl
  | superBlockApart => rfl

theorem ofBody?_eq_some_iff {body : String} : ofBody? body = some d ↔ Grammar d body.toList := by
  constructor
  · intro h
    obtain ⟨w, w', hw, hw', hbody⟩ := Text.exists_trim body.toList
    rw [hbody]
    exact ⟨hw, words_of_ofTrimmed? h, hw'⟩
  · intro h
    rw [ofBody?]
    generalize body.toList = cs at h
    obtain ⟨hw, hwords, hw'⟩ := h
    rw [Text.trim_append hw hw' hwords.trimmed]
    exact hwords.ofTrimmed?

/-- No text spells two directives. -/
theorem Grammar.unique (h : Grammar d cs) (h' : Grammar d' cs) : d = d' := by
  rw [← String.toList_ofList (l := cs)] at h h'
  exact Option.some.inj ((ofBody?_eq_some_iff.mpr h).symm.trans (ofBody?_eq_some_iff.mpr h'))

end Directive

/-! ## Nodes -/

namespace Node

theorem ofStatement_eq_directive_iff {body : String} {d : Directive} :
    ofStatement body = .directive d ↔ d.Grammar body.toList := by
  rw [← Directive.ofBody?_eq_some_iff, ofStatement]
  cases Directive.ofBody? body <;> simp

theorem ofStatement_of_forall_not {body : String} (h : ∀ d : Directive, ¬d.Grammar body.toList) :
    ofStatement body = .statement body := by
  have hnone : Directive.ofBody? body = none :=
    Option.eq_none_iff_forall_ne_some.mpr fun d hd => h d (Directive.ofBody?_eq_some_iff.mp hd)
  rw [ofStatement, hnone]

/-- The token in front of the one at a place is a tag with a strip marker; in front of the first one, `strip` says it. -/
def follows (strip : Bool) (tokens : List Token) : Nat → Bool
  | 0 => strip
  | i + 1 => tokens[i]?.any strips

theorem getElem?_ofTokensFrom {strip : Bool} {tokens : List Token} {i : Nat} {token : Token}
    (h : tokens[i]? = some token) :
    (ofTokensFrom strip tokens)[i]? = some (ofToken (follows strip tokens i) token) := by
  induction tokens generalizing strip i with
  | nil => cases h
  | cons t rest ih =>
    cases i with
    | zero =>
      cases h
      rfl
    | succ i =>
      have hfollows : follows (strips t) rest i = follows strip (t :: rest) (i + 1) := by cases i <;> rfl
      rw [← hfollows]
      exact ih h

theorem follows_iff {tokens : List Token} {i : Nat} : follows false tokens i = true ↔
    ∃ j before, i = j + 1 ∧ tokens[j]? = some before ∧ before.kind ≠ .text ∧ before.strip = true := by
  cases i with
  | zero => simp [follows]
  | succ i => simp [follows, strips, Option.any_eq_true]

end Node

/-- **Statements are classified by the grammar.** There is one node for each token, and the mark of a text says that a
strip marker stands right before it. -/
theorem classification_exact :
    (∀ body (d : Directive), Node.ofStatement body = .directive d ↔ d.Grammar body.toList) ∧
      (∀ cs (d d' : Directive), d.Grammar cs → d'.Grammar cs → d = d') ∧
      (∀ body, (∀ d : Directive, ¬d.Grammar body.toList) → Node.ofStatement body = .statement body) ∧
      ∀ tokens, (Node.ofTokens tokens).length = tokens.length ∧
        ∀ (i : Nat) token, tokens[i]? = some token →
          ∃ node, (Node.ofTokens tokens)[i]? = some node ∧ node.line = token.line ∧
            match token.kind with
            | .text => ∃ strip, node.kind = .text token.body strip ∧
                (strip = true ↔ ∃ j before, i = j + 1 ∧ tokens[j]? = some before ∧ before.kind ≠ .text ∧
                  before.strip = true)
            | .tag .expression => node.kind = .expression token.body
            | .tag .escapedExpression => node.kind = .escapedExpression token.body
            | .tag .comment => node.kind = .comment token.body
            | .tag .statement => node.kind = Node.ofStatement token.body := by
  refine ⟨fun body d => Node.ofStatement_eq_directive_iff, fun cs d d' => Directive.Grammar.unique,
    fun body => Node.ofStatement_of_forall_not, fun tokens => ⟨Node.length_ofTokens tokens, fun i token htoken => ?_⟩⟩
  refine ⟨_, Node.getElem?_ofTokensFrom htoken, rfl, ?_⟩
  obtain ⟨kind, body, strip, line⟩ := token
  rcases kind with _ | (_ | _ | _ | _)
  · exact ⟨_, rfl, Node.follows_iff⟩
  all_goals exact rfl

/-- A name of two lines between quotes of either kind, with blanks outside ASCII around; and quotes without a blank in
front. -/
theorem classification_exact_quotes :
    let body := "\u00A0extends\t\"a\nb'\u3000"
    Directive.Grammar (.inherits "a\nb") body.toList ∧ Node.ofStatement body = .directive (.inherits "a\nb") ∧
      (∀ d : Directive, d.Grammar body.toList → d = .inherits "a\nb") ∧
      (∀ d : Directive, ¬d.Grammar "extends'a'".toList) ∧
      Node.ofStatement "extends'a'" = .statement "extends'a'" := by
  intro body
  obtain ⟨hdirective, hunique, hother, -⟩ := classification_exact
  have hbody : body.toList =
      ['\u00A0'] ++ ("extends".toList ++ ['\t'] ++ ('"' :: ("a\nb".toList ++ ['\'']))) ++ ['\u3000'] := by decide
  have hgrammar : Directive.Grammar (.inherits "a\nb") body.toList := by
    rw [hbody]
    exact .mk (by decide) (.inherits (by decide) (by decide) (.mk (by decide) (by decide) (by decide) (by simp)))
      (by decide)
  have hnone : ∀ d : Directive, ¬d.Grammar "extends'a'".toList := fun d hd =>
    nomatch ((hdirective "extends'a'" d).mpr hd).symm.trans (by decide : _ = NodeKind.statement "extends'a'")
  exact ⟨hgrammar, (hdirective body _).mpr hgrammar, fun d hd => hunique _ d _ hd hgrammar, hnone,
    hother _ hnone⟩

end Stencil
