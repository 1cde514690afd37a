import Stencil.Proofs.Fetching
import Stencil.Proofs.Interpretation
import Stencil.Proofs.Tiling

/-!
# Text that is rendered as it is

Any text can be put into a template so that it comes out as it is: its openers are escaped. This goes for every markup
whose openers hold no backslash, whatever backslashes and openers the text holds.

- Escaped text is scanned as one piece of text, and what it stands for is the text itself (`Token.scan_escape`).
- Nodes without directives make up one block, so that the template does what they say one after the other, and no
  source is asked for (`Template.run_compile_of_plain`).

The main statement is `render_escape`.
-/

namespace Stencil

/-! ## Escaped text -/

section Scan

variable {m : Markup}

theorem Markup.toList_escape (text : String) : (m.escape text).toList = m.escapeFrom 0 text.toList :=
  String.toList_ofList

/-- Escaped text holds no tag. -/
theorem Markup.isDynamic_escape (hm : m.Bare) (text : String) : m.isDynamic (m.escape text) = false := by
  have hstart : Markup.fromByte 0 0 false (m.escape text).toList = (0, false, (m.escape text).toList) := by
    cases (m.escape text).toList with
    | nil => rfl
    | cons c cs => simp [Markup.fromByte]
  unfold isDynamic findTag
  rw [hstart, toList_escape]
  simp only [untilTag_escapeFrom hm, Option.isSome_none]

theorem Markup.unescape_escape (hm : m.Bare) (text : String) : m.unescape (m.escape text) = text := by
  rw [unescape, toList_escape, unescapeFrom_escapeFrom hm, String.ofList_toList]

theorem Markup.isEmpty_escapeFrom (m : Markup) (cs : List Char) : (m.escapeFrom 0 cs).isEmpty = cs.isEmpty := by
  cases cs with
  | nil => rfl
  | cons c cs =>
    rw [escapeFrom_cons]
    split <;> rfl

/-- The tokens of a text without tags: the text, or none if it is empty. -/
def Token.ofText (text : String) : List Token := if text = "" then [] else [⟨.text, text, false, 1⟩]

/-- Escaped text is scanned as the text that it stands for. -/
theorem Token.scan_escape (hm : m.Bare) (text : String) : scan m (m.escape text) = .ok (ofText text) := by
  have hscan : Segment.scan m (m.escape text).toList = .ok (Segment.literal 1 (m.escapeFrom 0 text.toList)) := by
    rw [Markup.toList_escape]
    exact Segment.scanFrom_last (Markup.untilTag_escapeFrom hm 0 false text.toList)
  rw [scan, hscan, Segment.literal, Markup.isEmpty_escapeFrom, ofText]
  by_cases h : text = ""
  · simp [h, Except.map]
  · have hne : text.toList.isEmpty = false := by simpa using h
    simp [h, hne, Except.map, ofSegment, Markup.unescapeFrom_escapeFrom hm]

end Scan

/-! ## Templates without directives -/

section Compile

variable {σ : Type} {nodes : List Node}

/-- The node directs no inheritance. -/
def Node.Plain (node : Node) : Prop := ∀ d, node.kind ≠ .directive d

/-- The set of one anonymous block that holds the nodes. -/
def BlockSet.sole (chain : List String) (origin : String) (nodes : List Node) : BlockSet :=
  ⟨⟨chain, origin, none, []⟩, [⟨.anonymous 0, origin, nodes.map .node⟩]⟩

/-- Without directives, the nodes are added to the open block. -/
theorem Draft.foldlM_add_of_plain (ancestor : Ancestry σ) (h : ∀ node ∈ nodes, node.Plain) (d : Draft) :
    nodes.foldlM (add ancestor) d = pure { d with items := (nodes.map .node).reverse ++ d.items } := by
  induction nodes generalizing d with
  | nil => rfl
  | cons node nodes ih =>
    obtain ⟨hnode, hnodes⟩ := List.forall_mem_cons.mp h
    have hadd : d.add ancestor node = pure (d.push (.node node)) := by
      unfold add
      split
      all_goals first
        | rfl
        | next hkind => exact absurd hkind (hnode _)
    rw [List.foldlM_cons, hadd, pure_bind, ih hnodes]
    simp [push]

theorem BlockSet.build_of_plain (sources : Sources σ) (chain : List String) (origin : String)
    (h : ∀ node ∈ nodes, node.Plain) : build sources chain origin nodes = pure (sole chain origin nodes) := by
  rw [build, Draft.build, Draft.foldlM_add_of_plain _ h, pure_bind]
  simp [sole, Draft.start, Draft.blocks, Draft.current]

/-- The one block stands alone, and no parent is read for it. -/
theorem BlockSet.run_instructions_sole (sources : Sources σ) (chain : List String) (origin : String)
    (nodes : List Node) (s : Session σ) :
    (((sole chain origin nodes).instructions sources).runFrom (sole chain origin nodes).lineage).run.run s =
      (.ok (nodes.flatMap fun node => (node.instruction? origin).toList, (sole chain origin nodes).lineage), s) := by
  have horder : ((sole chain origin nodes).order sources).run.run ((sole chain origin nodes).lineage, s) =
      (.ok [.anonymous 0], (sole chain origin nodes).lineage, s) :=
    run_bind_of_ok (run_nearest_of_next? rfl rfl)
  have hat : (sole chain origin nodes).instructionsAt sources (.anonymous 0) =
      pure (nodes.flatMap fun node => (node.instruction? origin).toList) := by
    have hsettles : (sole chain origin nodes).layer.settles (.anonymous 0) = true := rfl
    have hblock : (sole chain origin nodes).layer.block? (.anonymous 0) =
        some ⟨.anonymous 0, origin, nodes.map .node⟩ := rfl
    rw [instructionsAt, block, if_pos hsettles, pure_bind, hblock]
    simp [Block.instructions, List.flatMap_map, Item.instructions]
  have hrun : ((sole chain origin nodes).instructions sources).run.run ((sole chain origin nodes).lineage, s) =
      (.ok (nodes.flatMap fun node => (node.instruction? origin).toList), (sole chain origin nodes).lineage, s) := by
    unfold instructions
    rw [run_bind_of_ok horder]
    rw [show (sole chain origin nodes).lineage.parent.isSome = false from rfl]
    simp only [Bool.false_eq_true, ↓reduceIte, List.mapM_cons, List.mapM_nil, hat, bind_pure_comp, map_pure,
      List.flatten_cons, List.flatten_nil, List.append_nil]
    rfl
  rw [Work.run_runFrom hrun]
  rfl

/-- A template without directives says what its nodes say, and nothing is asked for when it is compiled. -/
theorem Template.run_compile_of_plain (sources : Sources σ) {source : Source} {tokens : List Token} {p : Program}
    (htokens : source.tokens sources.markup = .ok tokens) (h : ∀ node ∈ Node.ofTokens tokens, node.Plain)
    (hlink : Program.link source.origin
      ((Node.ofTokens tokens).flatMap fun node => (node.instruction? source.origin).toList) = .ok p)
    (s : Session σ) :
    (compile sources source).run.run s = (.ok ⟨source.name, source.origin, tokens, [], p⟩, s) := by
  unfold compile
  rw [run_bind_of_ok (Load.run_ofExcept s htokens), BlockSet.build_of_plain _ _ _ h, pure_bind,
    run_bind_of_ok (BlockSet.run_instructions_sole ..), run_bind_of_ok (Load.run_ofExcept s hlink)]
  rfl

end Compile

/-! ## Literal text -/

section Render

variable {σ : Type}

/-- The code that writes a text. -/
def Code.ofText (text : String) : Code := if text = "" then done else literal 0 text done

theorem Node.plain_of_text (text : String) : ∀ node ∈ Node.ofTokens (Token.ofText text), node.Plain := by
  intro node hnode d
  unfold Token.ofText at hnode
  split at hnode
  · cases hnode
  · rw [List.mem_singleton.mp hnode]
    exact nofun

/-- The nodes of a text are linked to the code that writes it. -/
theorem Code.ofInstructions_ofText (origin text : String) :
    ofInstructions ((Node.ofTokens (Token.ofText text)).flatMap fun node => (node.instruction? origin).toList) =
      .ok (ofText text) := by
  rw [ofInstructions_eq_ok_iff, ofText, Token.ofText]
  by_cases h : text = ""
  · rw [if_pos h, if_pos h]
    exact .done
  · rw [if_neg h, if_neg h]
    simp [Node.ofTokens, Node.ofTokensFrom, Node.ofToken, Node.instruction?, h]
    exact .literal rfl .done

theorem Code.run_interpret_ofText (position : Nat → Position) (inclusion : Inclusion σ) (text : String) (ctx : Context)
    (session : Session σ) :
    ((ofText text).interpret position inclusion).run.run (ctx, session) = (.ok (), ctx.write text, session) := by
  unfold ofText
  by_cases h : text = ""
  · subst h
    simp [interpret, Context.write]
    rfl
  · rw [if_neg h]
    rfl

/-- A template whose code writes a text renders to it where nothing has been written. -/
theorem Template.run_render_ofText (loader : Loader σ) {t : Template} {text : String}
    (h : t.program.code = .ofText text) {ctx : Context} (hbuffer : ctx.buffer = "") (session : Session σ) :
    (t.render loader).run.run (ctx, session) = (.ok text, ctx, session) := by
  have hrun : (t.program.run (inclusion loader (maxIncludes - ctx.depth))).run.run (ctx, session) =
      (.ok (), ctx.write text, session) := by
    rw [Program.run_eq_interpret, Program.interpret, h]
    exact Code.run_interpret_ofText ..
  rw [run_render hrun]
  cases ctx
  simp_all [Context.write, Except.map]

/-- **Any text can be put into a template literally.** The openers of the text are escaped; then no tag is left in it,
unescaping gives the text back, and a template that consists of it compiles without asking for anything and renders to
the text in every context in which nothing has been written, which it leaves as it is. -/
theorem render_escape {m : Markup} (hm : m.Bare) (text : String) :
    m.isDynamic (m.escape text) = false ∧ m.unescape (m.escape text) = text ∧
      ∀ (sources : Sources σ) (source : Source) (session : Session σ), sources.markup = m →
        source.text = m.escape text → ∃ t, (Template.compile sources source).run.run session = (.ok t, session) ∧
          ∀ (loader : Loader σ) (ctx : Context) (session : Session σ), ctx.buffer = "" →
            (t.render loader).run.run (ctx, session) = (.ok text, ctx, session) := by
  refine ⟨m.isDynamic_escape hm text, m.unescape_escape hm text, ?_⟩
  rintro sources source session rfl htext
  have htokens : source.tokens sources.markup = .ok (Token.ofText text) := by
    rw [Source.tokens_eq_ok_iff, htext]
    exact Token.scan_escape hm text
  have hlink := Program.link_of_ofInstructions source.origin (Code.ofInstructions_ofText source.origin text)
  refine ⟨_, Template.run_compile_of_plain sources htokens (Node.plain_of_text text) hlink session, ?_⟩
  intro loader ctx session hbuffer
  exact Template.run_render_ofText loader rfl hbuffer session

/-- Overlapping openers, backslashes in front of openers, and a brace that is no opener. -/
theorem render_escape_overlapping :
    let text := "\\\x7b\x7b\x7b\x7b\x7b $$$\x7b\\!\x7b"
    let escaped := "\\\\\x7b\x7b\x7b\\\x7b\x7b $$$\x7b\\\\!\x7b"
    let sources : Sources Unit := .inMemory .secondPass [("page", escaped)]
    Markup.secondPass.Bare ∧ Markup.secondPass.escape text = escaped ∧
      Markup.secondPass.isDynamic escaped = false ∧ Markup.secondPass.unescape escaped = text ∧
        ∃ t, (Template.compile sources (.inMemory "page" escaped)).run.run ⟨(), []⟩ = (.ok t, ⟨(), []⟩) ∧
          ((t.render (.direct sources)).run.run (.fresh (fun _ => none) [] id true, ⟨(), []⟩)).1 = .ok text := by
  intro text escaped sources
  have hescaped : Markup.secondPass.escape text = escaped := by decide +kernel
  obtain ⟨hdynamic, hunescape, hcompiles⟩ := render_escape (σ := Unit) bare_secondPass text
  obtain ⟨t, hcompile, hrender⟩ :=
    hcompiles sources (.inMemory "page" escaped) ⟨(), []⟩ rfl hescaped.symm
  rw [hescaped] at hdynamic hunescape
  exact ⟨bare_secondPass, hescaped, hdynamic, hunescape, t, hcompile, congrArg Prod.fst (hrender _ _ _ rfl)⟩

end Render

end Stencil
