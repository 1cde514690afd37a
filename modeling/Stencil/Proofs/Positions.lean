import Stencil.Proofs.Ancestors
import Stencil.Proofs.Scanning

/-!
# Where instructions stand

Every instruction comes from one segment of a text, and its line is that on which the segment starts. Only literal text
that loses its leading blank run has the line of the first character which is left (`Located.ComesFrom`). That character
is found in the text with its openers unescaped; `Markup.kept` says where it stands in the source, and since nothing but
backslashes is dropped, no line feed gets lost (`Markup.lineFeeds_of_kept`).

`Node.StandsIn.comesFrom` is about the nodes of one text and `Climb.comesFrom` about the flattening of a climb. From
them follows `Loader.comesFrom_of_template`: every instruction of a template that is compiled from texts in memory comes
from the text that its position names, which is that of the template or of one that it inherits from.
-/

namespace Stencil

open Segment (Laid Scans sources)

/-! ## What is left of literal text -/

namespace Markup

variable {m : Markup} {skip : Nat} {front before cs : List Char} {c : Char}

/-- The characters that are left once the backslashes in front of openers are dropped, each with what stands in front of
it in the source. The first `skip` characters are copied. -/
def kept (m : Markup) (skip : Nat) (front : List Char) : List Char → List (List Char × Char)
  | [] => []
  | c :: cs =>
    match skip with
    | skip + 1 => (front, c) :: kept m skip (front ++ [c]) cs
    | 0 =>
      match c == '\\', m.openerAt cs with
      | true, some k => kept m (m.opener k).length (front ++ [c]) cs
      | _, _ => (front, c) :: kept m 0 (front ++ [c]) cs

/-- At a character that is not copied, either a backslash is dropped and the opener behind it is copied, or the
character is left. -/
theorem kept_cons (m : Markup) (front : List Char) (c : Char) (cs : List Char) :
    (∃ k, c = '\\' ∧ m.kept 0 front (c :: cs) = m.kept (m.opener k).length (front ++ [c]) cs ∧
        m.unescapeFrom 0 (c :: cs) = m.unescapeFrom (m.opener k).length cs) ∨
      m.kept 0 front (c :: cs) = (front, c) :: m.kept 0 (front ++ [c]) cs ∧
        m.unescapeFrom 0 (c :: cs) = c :: m.unescapeFrom 0 cs := by
  simp only [kept, unescapeFrom_cons]
  rcases hc : c == '\\' with _ | _
  · exact .inr ⟨rfl, rfl⟩
  · rcases m.openerAt cs with _ | k
    · exact .inr ⟨rfl, rfl⟩
    · exact .inl ⟨k, beq_iff_eq.mp hc, rfl, rfl⟩

theorem map_snd_kept (m : Markup) (skip : Nat) (front cs : List Char) :
    (m.kept skip front cs).map Prod.snd = m.unescapeFrom skip cs := by
  induction cs generalizing skip front with
  | nil => rfl
  | cons c cs ih =>
    cases skip with
    | succ skip => exact congrArg (c :: ·) (ih skip _)
    | zero =>
      rcases m.kept_cons front c cs with ⟨k, -, hkept, hunescape⟩ | ⟨hkept, hunescape⟩
      · rw [hkept, hunescape]
        exact ih _ _
      · rw [hkept, hunescape]
        exact congrArg (c :: ·) (ih 0 _)

/-- A character that is left stands in the source behind what is said to be in front of it. -/
theorem prefix_of_mem_kept (h : (before, c) ∈ m.kept skip front cs) : before ++ [c] <+: front ++ cs := by
  induction cs generalizing skip front with
  | nil => cases h
  | cons a cs ih =>
    have hrest {skip : Nat} (h : (before, c) ∈ m.kept skip (front ++ [a]) cs) : before ++ [c] <+: front ++ a :: cs := by
      have := ih h
      rwa [List.append_assoc, List.singleton_append] at this
    have hcopy {skip : Nat} (h : (before, c) ∈ (front, a) :: m.kept skip (front ++ [a]) cs) :
        before ++ [c] <+: front ++ a :: cs := by
      rcases List.mem_cons.mp h with h | h
      · cases h
        exact ⟨cs, by rw [List.append_assoc, List.singleton_append]⟩
      · exact hrest h
    cases skip with
    | succ skip => exact hcopy h
    | zero =>
      rcases m.kept_cons front a cs with ⟨k, -, hkept, -⟩ | ⟨hkept, -⟩
      · rw [hkept] at h
        exact hrest h
      · rw [hkept] at h
        exact hcopy h

/-- Nothing but backslashes is dropped, so the line feeds in front of a character stay. -/
theorem lineFeeds_of_kept {i : Nat} (h : (m.kept skip front cs)[i]? = some (before, c)) :
    Text.lineFeeds before = Text.lineFeeds front + Text.lineFeeds ((m.unescapeFrom skip cs).take i) := by
  induction cs generalizing skip front i with
  | nil => cases h
  | cons a cs ih =>
    have hcopy {skip : Nat} (h : ((front, a) :: m.kept skip (front ++ [a]) cs)[i]? = some (before, c)) :
        Text.lineFeeds before = Text.lineFeeds front + Text.lineFeeds ((a :: m.unescapeFrom skip cs).take i) := by
      cases i with
      | zero =>
        cases h
        rfl
      | succ i =>
        rw [ih h, Text.lineFeeds_append, Nat.add_assoc, List.take_succ_cons, ← Text.lineFeeds_append]
        rfl
    cases skip with
    | succ skip => exact hcopy h
    | zero =>
      rcases m.kept_cons front a cs with ⟨k, rfl, hkept, hunescape⟩ | ⟨hkept, hunescape⟩
      · rw [hkept] at h
        rw [hunescape, ih h, Text.lineFeeds_append]
        rfl
      · rw [hkept] at h
        rw [hunescape]
        exact hcopy h

end Markup

/-! ## Where segments stand -/

theorem Segment.Laid.line_eq {m : Markup} {line i : Nat} {segments : List LocatedSegment} {s : LocatedSegment}
    (h : Laid m line segments) (hs : segments[i]? = some s) :
    s.line = line + Text.lineFeeds (sources m (segments.take i)) := by
  induction segments generalizing line i with
  | nil => cases hs
  | cons a rest ih =>
    cases i with
    | zero =>
      cases hs
      exact h.1
    | succ i =>
      rw [ih h.2 hs, List.take_succ_cons, Segment.sources_cons, Text.lineFeeds_append, Nat.add_assoc]

theorem Node.ofTokensFrom_eq_some {strip : Bool} {tokens : List Token} {i : Nat} {node : Node}
    (h : (ofTokensFrom strip tokens)[i]? = some node) :
    ∃ token strip, tokens[i]? = some token ∧ node = ofToken strip token := by
  induction tokens generalizing strip i with
  | nil => cases h
  | cons token rest ih =>
    cases i with
    | zero =>
      cases h
      exact ⟨token, strip, rfl, rfl⟩
    | succ i => exact ih h

/-- The node is that of a segment of the text, which stands behind the given part of it. -/
inductive Node.StandsIn (m : Markup) (text : String) : List Char → Segment → Node → Prop
  | mk {segments : List LocatedSegment} {i : Nat} {s : LocatedSegment} {node : Node} :
    Segment.scan m text.toList = .ok segments → segments[i]? = some s →
      (ofTokens (segments.map (Token.ofSegment m)))[i]? = some node →
        StandsIn m text (sources m (segments.take i)) s.segment node

/-- The text loses a blank run, because a strip marker stands before it. -/
def Node.Stripped (node : Node) (content : String) : Prop :=
  node.kind = .text content true ∧ Text.blankRun content.toList ≠ []

/-- The instruction is that of a segment of the text, and its line is that on which the segment starts; or else it is
literal text without its leading blank run, and its line is that of the first character which is left. -/
inductive Located.ComesFrom (m : Markup) (text : String) (l : Located) : Prop
  | whole {before : List Char} {segment : Segment} {node : Node} : node.StandsIn m text before segment →
    node.instruction? l.position.origin = some l → (∀ content, ¬ node.Stripped content) →
      before ++ segment.source m <+: text.toList → l.position.line = 1 + Text.lineFeeds before → ComesFrom m text l
  | stripped {before raw front rest : List Char} {node : Node} {content : String} {c : Char} :
    node.StandsIn m text before (.text raw) → node.instruction? l.position.origin = some l → node.Stripped content →
      (m.kept 0 [] raw)[(Text.blankRun content.toList).length]? = some (front, c) →
        l.instruction = .literal (String.ofList (c :: rest)) → before ++ front ++ [c] <+: text.toList →
          l.position.line = 1 + Text.lineFeeds (before ++ front) → ComesFrom m text l

section Stands

variable {m : Markup} {text : String} {before : List Char} {segment : Segment} {node : Node}

/-- The segment does stand there. -/
theorem Node.StandsIn.prefix (h : node.StandsIn m text before segment) :
    before ++ segment.source m <+: text.toList := by
  obtain @⟨segments, i, s, node, hscan, hs, -⟩ := h
  have hsources := (Segment.scans_of_scanFrom hscan).sources_eq
  rw [← List.take_append_drop (i + 1) segments, List.take_add_one, hs, Segment.sources_append, Segment.sources_append]
    at hsources
  refine ⟨sources m (segments.drop (i + 1)), ?_⟩
  rw [← hsources]
  simp [Segment.sources]

theorem Node.StandsIn.line_eq (h : node.StandsIn m text before segment) : node.line = 1 + Text.lineFeeds before := by
  obtain @⟨segments, i, s, node, hscan, hs, hnode⟩ := h
  obtain ⟨token, strip, htoken, rfl⟩ := ofTokensFrom_eq_some hnode
  rw [List.getElem?_map, hs] at htoken
  cases htoken
  have hline : (Token.ofSegment m s).line = s.line := by
    unfold Token.ofSegment
    split <;> rfl
  exact hline.trans ((Segment.scans_of_scanFrom hscan).laid.line_eq hs)

/-- Literal text is that of the segment with its openers unescaped. -/
theorem Node.StandsIn.of_text (h : node.StandsIn m text before segment) {content : String} {strip : Bool}
    (hk : node.kind = .text content strip) :
    ∃ raw, segment = .text raw ∧ content = String.ofList (m.unescapeFrom 0 raw) := by
  obtain @⟨segments, i, ⟨line, segment⟩, node, hscan, hs, hnode⟩ := h
  obtain ⟨token, strip, htoken, rfl⟩ := ofTokensFrom_eq_some hnode
  rw [List.getElem?_map, hs] at htoken
  cases htoken
  cases segment with
  | text raw =>
    cases hk
    exact ⟨raw, rfl, rfl⟩
  | tag kind body =>
    cases kind with
    | statement =>
      unfold ofToken at hk
      dsimp only [Token.ofSegment, ofStatement] at hk
      split at hk <;> cases hk
    | expression | escapedExpression | comment => cases hk

/-- The first character that is left behind a blank run. -/
theorem Markup.exists_kept {raw : List Char} {content : String} (hc : content = String.ofList (m.unescapeFrom 0 raw))
    {c : Char} {rest : List Char} (hrest : Text.afterBlankRun content.toList = c :: rest) :
    ∃ front, (m.kept 0 [] raw)[(Text.blankRun content.toList).length]? = some (front, c) ∧ front ++ [c] <+: raw ∧
      Text.lineFeeds front = Text.lineFeeds (Text.blankRun content.toList) := by
  have hlist : m.unescapeFrom 0 raw = Text.blankRun content.toList ++ c :: rest := by
    rw [← hrest, Text.blankRun_append_afterBlankRun, hc, String.toList_ofList]
  generalize Text.blankRun content.toList = run at hlist
  have hlast : (m.unescapeFrom 0 raw)[run.length]? = some c := by
    rw [hlist, List.getElem?_append_right (Nat.le_refl _), Nat.sub_self]
    rfl
  rw [← m.map_snd_kept 0 [] raw, List.getElem?_map] at hlast
  obtain ⟨⟨front, c⟩, hkept, rfl⟩ := Option.map_eq_some_iff.mp hlast
  refine ⟨front, hkept, prefix_of_mem_kept (List.mem_of_getElem? hkept), ?_⟩
  rw [lineFeeds_of_kept hkept, hlist, List.take_left, Text.lineFeeds_nil, Nat.zero_add]

/-- An instruction that a node of the text gives comes from the text. -/
theorem Node.StandsIn.comesFrom (h : node.StandsIn m text before segment) {origin : String} {l : Located}
    (hl : node.instruction? origin = some l) : l.position.origin = origin ∧ l.ComesFrom m text := by
  have hwhole {i : Instruction} (hi : some ⟨i, ⟨origin, node.line⟩⟩ = some l)
      (hn : ∀ content, ¬ node.Stripped content) : l.position.origin = origin ∧ l.ComesFrom m text := by
    cases hi
    exact ⟨rfl, .whole h hl hn h.prefix h.line_eq⟩
  have hother (hk : ∀ content, node.kind ≠ .text content true) (content : String) : ¬ node.Stripped content :=
    fun hstripped => hk content hstripped.1
  rcases hkind : node.kind with ⟨content, strip⟩ | _ | _ | _ | _ | _
  all_goals
    have hi := hl
    unfold Node.instruction? at hi
    rw [hkind] at hi
  case text =>
    cases strip with
    | false =>
      simp only [Bool.false_eq_true, ↓reduceIte] at hi
      split at hi
      · cases hi
      · exact hwhole hi (hother (by simp [hkind]))
    | true =>
      simp only [↓reduceIte, Text.stripBlankRun] at hi
      split at hi
      · cases hi
      · next hne =>
        by_cases hrun : Text.blankRun content.toList = []
        · rw [hrun] at hi
          refine hwhole hi fun content' hstripped => ?_
          have hsame := hkind.symm.trans hstripped.1
          cases hsame
          exact hstripped.2 hrun
        · rcases hrest : Text.afterBlankRun content.toList with _ | ⟨c, rest⟩
          · rw [hrest] at hne
            exact absurd rfl hne
          · obtain ⟨raw, rfl, hcontent⟩ := h.of_text hkind
            obtain ⟨front, hkept, hfront, hfeeds⟩ := Markup.exists_kept hcontent hrest
            obtain ⟨behind, hraw⟩ := hfront
            obtain ⟨after, htext⟩ := h.prefix
            cases hi
            refine ⟨rfl, .stripped h hl ⟨hkind, hrun⟩ hkept (by rw [hrest]) ⟨behind ++ after, ?_⟩ ?_⟩
            · rw [← htext, Segment.source, ← hraw]
              simp only [List.append_assoc]
            · rw [Text.lineFeeds_append, hfeeds, ← Nat.add_assoc, ← h.line_eq]
  case directive => cases hi
  all_goals exact hwhole hi (hother (by simp [hkind]))

end Stands

/-! ## Where the instructions of pages stand -/

/-- The instruction is that of a node of the page. -/
def Page.Gives (page : Page) (l : Located) : Prop :=
  ∃ part ∈ page.parts, ∃ n ∈ part.nodes, n.instruction? page.origin = some l

section Pages

variable {m : Markup} {texts : Bindings String} {pages : List Page} {page : Page} {l : Located}

theorem mem_fill {origin : String} {above : List Located} {nodes : List Node} (h : l ∈ fill origin above nodes) :
    l ∈ above ∨ ∃ n ∈ nodes, n.instruction? origin = some l := by
  obtain ⟨n, hn, hl⟩ := List.mem_flatMap.mp h
  split at hl
  · exact .inl hl
  · exact .inr ⟨n, hn, Option.mem_toList.mp hl⟩

theorem mem_content {name : String} (h : l ∈ content pages name) : ∃ page ∈ pages, page.Gives l := by
  induction pages with
  | nil => cases h
  | cons page above ih =>
    have habove (h : l ∈ content above name) : ∃ page' ∈ page :: above, page'.Gives l := by
      obtain ⟨page', hpage, hl⟩ := ih h
      exact ⟨page', List.mem_cons_of_mem _ hpage, hl⟩
    rw [content] at h
    split at h
    · next part hpart =>
      have hmem : part ∈ page.parts := (List.mem_filter.mp (List.mem_of_getLast? hpart)).1
      rcases mem_fill h with h | ⟨n, hn, hl⟩
      · exact habove h
      · exact ⟨page, List.mem_cons_self, part, hmem, n, hn, hl⟩
    · exact habove h

/-- Every instruction of a flattening is that of a node of one of the pages. -/
theorem mem_flatten (h : l ∈ flatten pages) : ∃ page ∈ pages, page.Gives l := by
  unfold flatten at h
  split at h
  · cases h
  · next root hroot =>
    obtain ⟨part, hpart, hl⟩ := List.mem_flatMap.mp h
    split at hl
    · exact mem_content hl
    · rcases mem_fill hl with hl | ⟨n, hn, hl⟩
      · cases hl
      · exact ⟨root, List.mem_of_getLast? hroot, part, hpart, n, hn, hl⟩

theorem Part.mem_of_mem_cut {name : Option String} {nodes : List Node} {part : Part} {n : Node}
    (h : part ∈ cut name nodes) (hn : n ∈ part.nodes) : n ∈ nodes := by
  induction nodes generalizing name part with
  | nil =>
    rw [List.mem_singleton.mp h] at hn
    cases hn
  | cons a rest ih =>
    rw [cut] at h
    split at h
    · rcases List.mem_cons.mp h with rfl | h
      · cases hn
      · exact List.mem_cons_of_mem _ (ih h hn)
    · obtain ⟨first, parts, hcut⟩ := List.exists_cons_of_ne_nil (cut_ne_nil name rest)
      rw [hcut, List.modifyHead_cons] at h
      rcases List.mem_cons.mp h with rfl | h
      · rcases List.mem_cons.mp hn with rfl | hn
        · exact List.mem_cons_self
        · exact List.mem_cons_of_mem _ (ih (by rw [hcut]; exact List.mem_cons_self) hn)
      · exact List.mem_cons_of_mem _ (ih (by rw [hcut]; exact List.mem_cons_of_mem _ h) hn)

/-- Every page of a climb is that of a text. -/
theorem Climb.exists_find? {start next : Option String} (h : Climb m texts start pages next) (hm : page ∈ pages) :
    ∃ name, Page.find? m texts name = some page := by
  induction h with
  | here => cases hm
  | up hp _ ih =>
    rcases List.mem_cons.mp hm with rfl | hm
    · exact ⟨_, hp⟩
    · exact ih hm

/-- The nodes of a page stand in its text. -/
theorem Page.Gives.comesFrom (h : page.Gives l) {name : String} (hp : Page.find? m texts name = some page) :
    l.position.origin = page.origin ∧ ∃ text, Bindings.get? texts page.origin = some text ∧ l.ComesFrom m text := by
  simp only [Page.find?, Option.bind_eq_bind, Option.bind_eq_some_iff] at hp
  obtain ⟨text, htext, tokens, htokens, hpage⟩ := hp
  cases hpage
  obtain ⟨part, hpart, n, hn, hl⟩ := h
  have hmem : n ∈ Node.ofTokens tokens := (List.rtakeWhile_suffix _ _).subset (Part.mem_of_mem_cut hpart hn)
  obtain ⟨i, hi⟩ := List.getElem?_of_mem hmem
  have hscan := eq_ok_of_toOption htokens
  rcases hsegments : Segment.scan m text.toList with fault | segments
  · rw [Token.scan, hsegments] at hscan
    cases hscan
  · rw [Token.scan, hsegments] at hscan
    cases hscan
    have hlt : i < segments.length := by
      have := (List.getElem?_eq_some_iff.mp hi).1
      rwa [Node.length_ofTokens, List.length_map] at this
    have hstands := Node.StandsIn.mk hsegments (List.getElem?_eq_getElem hlt) hi
    obtain ⟨horigin, hcomes⟩ := hstands.comesFrom hl
    exact ⟨horigin, text, htext, hcomes⟩

/-- Every instruction of the flattening of a climb comes from the text of one of its pages. -/
theorem Climb.comesFrom {start next : Option String} (h : Climb m texts start pages next) (hl : l ∈ flatten pages) :
    ∃ page ∈ pages, l.position.origin = page.origin ∧
      ∃ text, Bindings.get? texts page.origin = some text ∧ l.ComesFrom m text := by
  obtain ⟨page, hpage, hgives⟩ := mem_flatten hl
  obtain ⟨name, hname⟩ := h.exists_find? hpage
  exact ⟨page, hpage, hgives.comesFrom hname⟩

end Pages

/-! ## Where the instructions of a template stand -/

section Compiled

variable {σ : Type} {m : Markup} {texts : Bindings String} {s s' : Session σ} {t : Template}

/-- What compiling a source goes through. -/
theorem Template.of_compile {sources : Sources σ} {source : Source}
    (h : (compile sources source).run.run s = (.ok t, s')) :
    ∃ tokens set l s₁ s₂, source.tokens sources.markup = .ok tokens ∧
      (BlockSet.build sources [source.name] source.origin (Node.ofTokens tokens)).run.run s = (.ok set, s₁) ∧
        (set.instructions sources).run.run (set.lineage, s₁) = (.ok t.program.instructions, l, s₂) := by
  obtain ⟨tokens, _, htokens, h⟩ := of_run_bind_eq_ok h
  obtain ⟨set, s₁, hset, h⟩ := of_run_bind_eq_ok h
  obtain ⟨⟨instructions, l⟩, s₂, hinstructions, h⟩ := of_run_bind_eq_ok h
  obtain ⟨program, _, hprogram, h⟩ := of_run_bind_eq_ok h
  cases h
  rw [Load.run_ofExcept s rfl] at htokens
  obtain ⟨hscan, rfl⟩ := Prod.mk.inj htokens
  refine ⟨tokens, set, l, s₁, s₂, hscan, hset, ?_⟩
  rw [(Program.of_link (congrArg Prod.fst hprogram)).2]
  exact Work.of_run_runFrom hinstructions

/-- The block set of a template is that of its page. -/
theorem BlockSet.shows_build {name origin : String} {nodes : List Node} {set : BlockSet}
    (h : (build (Sources.inMemory m texts) [name] origin nodes).run.run s = (.ok set, s')) :
    set.Shows m texts (Page.ofNodes origin nodes) := by
  obtain ⟨d, _, hbuild, h⟩ := of_run_bind_eq_ok h
  cases h
  obtain ⟨hd, -⟩ := Draft.shows_build (ancestry_finds m texts _) (Nat.le_of_ble_eq_true rfl) hbuild
  exact ⟨hd.reads, hd.parent, fun _ hc => hd.layer_eq hc⟩

/-- The parents of the template of a name lead to the end, and every instruction comes from the text of one of the pages
on the way. -/
def Template.ComesFrom (m : Markup) (texts : Bindings String) (name : String) (t : Template) : Prop :=
  ∃ pages, Climb m texts (some name) pages none ∧ ∀ l ∈ t.program.instructions, ∃ page ∈ pages,
    l.position.origin = page.origin ∧ ∃ text, Bindings.get? texts page.origin = some text ∧ l.ComesFrom m text

theorem Loader.comesFrom_of_template {name : String}
    (h : ((Loader.direct (Sources.inMemory m texts)).template name).run.run s = (.ok t, s')) :
    t.ComesFrom m texts name := by
  obtain ⟨source, s₁, hsource, h⟩ := of_run_bind_eq_ok h
  obtain ⟨text, htext, rfl⟩ := Sources.of_run_inMemory hsource
  obtain ⟨tokens, set, l, s₂, s₃, htokens, hset, hinstructions⟩ := Template.of_compile h
  have hpage := Page.find?_eq_some htext htokens
  obtain ⟨chain, hc, hflat⟩ := (BlockSet.shows_build hset).instructions_eq hpage hinstructions
  have hclimb := Climb.up hpage hc
  exact ⟨_, hclimb, fun l hl => hclimb.comesFrom (hflat ▸ hl)⟩

end Compiled

end Stencil
