import Stencil.Proofs.Dependence
import Stencil.Proofs.Descent
import Stencil.Proofs.Retracing

/-!
# The recorded parents are all that matters

A source is compiled with one loader, and then with another one that gives the same text for every parent that the
first template records. The second template is the first one but for the places that its parts come from, and where no
template of the chain extends more than once, there is one (`compile_of_recorded`).

The second compiling goes behind the first (`Template.compile_retraces`). It is off if a recorded parent has another
text, and stuck if such a parent, or the template itself, extends more than once.
-/

namespace Stencil

/-! ## Compiling behind another compiling -/

/-- The same text is read under the name in both ways. -/
def SameText (read read' : String → Except Error Source) (name : String) : Prop :=
  ∃ source source', read name = .ok source ∧ read' name = .ok source' ∧ source'.text = source.text

/-- The template of the name extends no more than once. -/
def ExtendsOnceAt (read : String → Except Error Source) (m : Markup) (name : String) : Prop :=
  ∀ source tokens, read name = .ok source → source.tokens m = .ok tokens → ExtendsOnce (Node.ofTokens tokens)

section Sources

variable {σ σ' : Type} {read read' : String → Except Error Source} {A : Sources σ} {B : Sources σ'}

/-- Where other things are read under a name, nothing is known of the second reading. -/
def Strayed (read read' : String → Except Error Source) (name : String) : Prop := ¬SameText read read' name

/-- The second reading may fail under a name: other things are read, or its template extends more than once. -/
def Hindered (read read' : String → Except Error Source) (m : Markup) (name : String) : Prop :=
  ¬(SameText read read' name ∧ ExtendsOnceAt read m name)

/-- The text of a source decides its tokens. -/
theorem Source.tokens_of_text_eq {m : Markup} {source source' : Source} {tokens : List Token}
    (h : source'.text = source.text) (ht : source.tokens m = .ok tokens) : source'.tokens m = .ok tokens := by
  rw [Source.tokens_eq_ok_iff] at ht ⊢
  rw [h]
  exact ht

/-- The lineages are the same behind a parent of one name, if what has been built for it is. -/
theorem Lineage.bare_extend_eq {l l' : Lineage} {source source' : Source} {d d' : Draft} (hl : l.bare = l'.bare)
    (hname : source.name = source'.name) (hd : d.bare = d'.bare) :
    (l.extend (⟨source.dependency, d.layer⟩ :: d.lineage.ancestors)).bare =
      (l'.extend (⟨source'.dependency, d'.layer⟩ :: d'.lineage.ancestors)).bare := by
  have hancestors : d.lineage.ancestors.map Ancestor.bare = d'.lineage.ancestors.map Ancestor.bare :=
    congrArg Lineage.ancestors (Draft.bare_lineage_eq hd)
  have hdependency : source.dependency.bare = source'.dependency.bare := by
    simp only [Dependency.bare, Source.dependency, hname]
  rw [bare_extend, bare_extend, hl, List.map_cons, List.map_cons, hancestors, Ancestor.bare, Ancestor.bare,
    hdependency, ← Draft.layer_bare, hd, Draft.layer_bare]

theorem readParent_retraces (h : Sources.Coupled read read' A B) {steps : Nat}
    (ih : Ancestry.Retraces read read' (Strayed read read') (Hindered read read' A.markup) (nearest A steps)
      (nearest B steps))
    {stops : Layer → Bool} (hstops : Unplaced stops) {l l' : Lineage} (hl : l.bare = l'.bare) (p : Parent) :
    Load.Retraces (fun r => r.2.Has (Strayed read read')) (fun r => r.2.Has (Hindered read read' A.markup))
      (fun r r' => r.1.map Layer.bare = r'.1.map Layer.bare ∧ r.2.bare = r'.2.bare)
      ((readParent A steps stops l p).runFrom l) ((readParent B steps stops l' p).runFrom l') := by
  by_cases hsame : SameText read read' p.name
  · obtain ⟨source, source', hread, hread', htext⟩ := hsame
    have hnames : l.names = l'.names := by rw [← Lineage.names_bare, hl, Lineage.names_bare]
    have hname : source.name = source'.name := (h.left.name_eq hread).trans (h.right.name_eq hread').symm
    rw [runFrom_readParent, runFrom_readParent, h.left.source_eq, h.right.source_eq, hread, hread', ← hnames,
      ← h.markup, Load.ofExcept_ok, Load.ofExcept_ok, pure_bind, pure_bind]
    rcases htokens : source.tokens A.markup with e | tokens
    · exact Load.retraces_of_error e _ _
    · rw [Source.tokens_of_text_eq htext htokens, Load.ofExcept_ok, Load.ofExcept_ok, pure_bind, pure_bind]
      refine (Draft.build_retraces ih (fun _ hlost hsame => hlost hsame.1) _ source.origin source'.origin
        (Node.ofTokens tokens)).bind (fun d hd => ?_) (fun d hd => ?_) fun d d' hd => ?_
      · exact (ih.left stops).has hd.extend
      · refine (ih.left stops).has ?_
        rcases hd with hd | hmany
        · exact hd.extend
        · refine ⟨_, List.mem_append_right _ List.mem_cons_self, fun hboth => hmany ?_⟩
          rw [Source.dependency, h.left.name_eq hread] at hboth
          exact hboth.2 source tokens hread htokens
      · exact ih.retraces stops hstops _ _ (Lineage.bare_extend_eq hl hname hd)
  · -- the parent itself is now among the ancestors
    refine Load.Ensures.retraces ?_ _
    refine (readParent_ensures h.left ih.left stops l p l).mono ?_
    rintro r ⟨-, source, layer, more, hread, hancestors⟩
    refine ⟨⟨source.dependency, layer⟩, ?_, ?_⟩
    · rw [hancestors]
      exact List.mem_append_right _ List.mem_cons_self
    · rw [Source.dependency, h.left.name_eq hread]
      exact hsame

theorem nearest_retraces (h : Sources.Coupled read read' A B) (steps : Nat) :
    Ancestry.Retraces read read' (Strayed read read') (Hindered read read' A.markup) (nearest A steps)
      (nearest B steps) := by
  refine ⟨nearest_grows h.left steps, nearest_grows h.right steps, ?_⟩
  induction steps with
  | zero => exact fun _ _ => .pure rfl
  | succ steps ih =>
    intro stops hstops l l' hl
    have hfind : (l.find? stops).map Layer.bare = (l'.find? stops).map Layer.bare := by
      rw [← Lineage.find?_bare l hstops, hl, Lineage.find?_bare l' hstops]
    have hnext : l.next?.map Prod.snd = l'.next?.map Prod.snd := by
      rw [← Lineage.next?_bare, hl, Lineage.next?_bare]
    have hread := readParent_retraces h ⟨nearest_grows h.left steps, nearest_grows h.right steps, ih⟩ hstops hl
    unfold nearest
    rw [Work.runFrom_bind, Work.runFrom_own, pure_bind, Work.runFrom_bind, Work.runFrom_own, pure_bind]
    rcases hf : l.find? stops with _ | layer
    · have hf' : l'.find? stops = none := by
        rw [hf] at hfind
        exact Option.map_eq_none_iff.mp hfind.symm
      rw [hf']
      rcases hn : l.next? with _ | ⟨origin, p⟩
      · have hn' : l'.next? = none := by
          rw [hn] at hnext
          exact Option.map_eq_none_iff.mp hnext.symm
        rw [hn']
        exact .pure ⟨rfl, hl⟩
      · obtain ⟨⟨origin', p'⟩, hn', rfl⟩ : ∃ o, l'.next? = some o ∧ o.2 = p := by
          rw [hn] at hnext
          exact Option.map_eq_some_iff.mp hnext.symm
        have hrefusal := Lineage.isSome_refusal?_eq hl origin origin' p'
        rw [hn']
        dsimp only
        rcases hr : l.refusal? origin p' with _ | e
        · have hr' : l'.refusal? origin' p' = none := by
            rw [hr] at hrefusal
            exact Option.isNone_iff_eq_none.mp (Option.isSome_eq_false_iff.mp hrefusal.symm)
          rw [hr']
          exact hread p'
        · exact .throw e _
    · obtain ⟨layer', hf', hlayer⟩ : ∃ layer', l'.find? stops = some layer' ∧ layer'.bare = layer.bare := by
        rw [hf] at hfind
        exact Option.map_eq_some_iff.mp hfind.symm
      rw [hf']
      exact .pure ⟨congrArg some hlayer.symm, hl⟩

theorem ancestry_retraces (h : Sources.Coupled read read' A B) :
    Ancestry.Retraces read read' (Strayed read read') (Hindered read read' A.markup) (ancestry A) (ancestry B) :=
  nearest_retraces h _

section BlockSet

variable {set set' : BlockSet}

theorem BlockSet.bare_layer_eq (h : set.bare = set'.bare) : set.layer.bare = set'.layer.bare :=
  congrArg BlockSet.layer h

theorem BlockSet.order_retraces (h : Sources.Coupled read read' A B) (hs : set.bare = set'.bare) :
    Ascent.Retraces (Strayed read read') (Hindered read read' A.markup) Eq (set.order A) (set'.order B) := by
  refine ((ancestry_retraces h).retraces _ (unplaced_const false)).map fun r r' hr => ?_
  have horder : (r.getD set.layer).bare = (r'.getD set'.layer).bare := by
    rw [← Option.getD_map Layer.bare, hr, bare_layer_eq hs, Option.getD_map]
  rw [← Layer.order_bare, horder, Layer.order_bare]

theorem BlockSet.instructionsAt_retraces (h : Sources.Coupled read read' A B) (hs : set.bare = set'.bare)
    (name : BlockName) :
    Ascent.Retraces (Strayed read read') (Hindered read read' A.markup)
      (fun as bs => as.map Located.bare = bs.map Located.bare) (set.instructionsAt A name)
      (set'.instructionsAt B name) := by
  have hlayer := bare_layer_eq hs
  have hsettles : set.layer.settles name = set'.layer.settles name := by
    rw [← Layer.settles_bare, hlayer, Layer.settles_bare]
  have hblock : Ascent.Retraces (Strayed read read') (Hindered read read' A.markup)
      (fun b b' => b.map Block.bare = b'.map Block.bare) (set.block A name) (set'.block B name) := by
    unfold BlockSet.block
    rw [← hsettles]
    split
    · refine .pure ?_
      rw [← Layer.block?_bare, hlayer, Layer.block?_bare]
    · refine ((ancestry_retraces h).retraces _ (unplaced_settles name)).map fun r r' hr => ?_
      rw [← Layer.map_bare_bind_block?, hr, Layer.map_bare_bind_block?]
  refine hblock.map fun b b' hb => ?_
  rw [← Block.elim_map_bare, hb, Block.elim_map_bare]

/-- Warnings never fail. -/
theorem BlockSet.warnOrphans_ok (set : BlockSet) (order : List BlockName) (s : Session σ) :
    ((set.warnOrphans order).run.run s).1 = .ok () := by
  unfold warnOrphans
  induction set.namedBlocks generalizing s with
  | nil => rfl
  | cons b bs ih =>
    simp only [List.forM_eq_forM, List.forM_cons] at ih ⊢
    split
    · exact ih s
    · exact ih _

theorem BlockSet.gather_retraces (h : Sources.Coupled read read' A B) (hs : set.bare = set'.bare)
    (order : List BlockName) :
    Ascent.Retraces (Strayed read read') (Hindered read read' A.markup)
      (fun as bs => as.map Located.bare = bs.map Located.bare) (set.gather A order) (set'.gather B order) := by
  have hparent : set.lineage.parent = set'.lineage.parent := congrArg (fun set => set.lineage.parent) hs
  have hgrows : Ascent.Grows read (do return (← order.mapM (set.instructionsAt A)).flatten) :=
    (Ascent.Grows.mapM (BlockSet.instructionsAt_grows h.left set) order).bind fun _ => .pure _
  have hparts : Ascent.Retraces (Strayed read read') (Hindered read read' A.markup)
      (fun as bs => as.map Located.bare = bs.map Located.bare)
      (do return (← order.mapM (set.instructionsAt A)).flatten)
      (do return (← order.mapM (set'.instructionsAt B)).flatten) := by
    refine (Ascent.Retraces.mapM (BlockSet.instructionsAt_grows h.left set)
      (BlockSet.instructionsAt_retraces h hs) order).map fun as bs hab => ?_
    rw [List.map_flatten, List.map_flatten, map_eq_of_forall₂ hab fun _ _ h => h]
  have hwarn : Load.Retraces (fun _ => False) (fun _ => False) Eq (set.warnOrphans order : Load σ Unit)
      (set'.warnOrphans order : Load σ' Unit) := by
    intro s t
    rw [warnOrphans_ok, warnOrphans_ok]
    exact .same rfl
  unfold BlockSet.gather
  rw [← hparent]
  split
  · exact (Ascent.Retraces.ofLoad hwarn).bind (fun _ => hgrows) fun _ _ _ => hparts
  · exact hparts

theorem BlockSet.instructions_retraces (h : Sources.Coupled read read' A B) (hs : set.bare = set'.bare) :
    Ascent.Retraces (Strayed read read') (Hindered read read' A.markup)
      (fun as bs => as.map Located.bare = bs.map Located.bare) (set.instructions A) (set'.instructions B) := by
  refine (order_retraces h hs).bind (set.gather_grows h.left) fun order order' horder => ?_
  subst horder
  exact gather_retraces h hs order

end BlockSet

/-- The templates differ in nothing but the places that their parts come from. -/
structure Template.Resembles (t t' : Template) : Prop where
  name : t'.name = t.name
  origin : t'.origin = t.origin
  tokens : t'.tokens = t.tokens
  parents : t'.parents.map Dependency.name = t.parents.map Dependency.name
  instructions : t'.program.instructions.map Located.bare = t.program.instructions.map Located.bare

/-- The template that instructions make up once they are linked. -/
def Template.finish (source : Source) (tokens : List Token) (r : List Located × Lineage) : Load σ Template := do
  let program ← Load.ofExcept (Program.link source.origin r.1)
  return ⟨source.name, source.origin, tokens, r.2.ancestors.map Ancestor.dependency, program⟩

theorem Template.ensures_finish (source : Source) (tokens : List Token) (r : List Located × Lineage) :
    Load.Ensures (fun t => t.tokens = tokens ∧ t.parents = r.2.ancestors.map Ancestor.dependency)
      (finish source tokens r : Load σ Template) :=
  (Load.ensures_ofExcept fun _ _ => trivial).bind fun _ _ => .pure ⟨rfl, rfl⟩

theorem Template.finish_retraces {lost torn : Template → Prop} (source : Source) (tokens : List Token)
    {r r' : List Located × Lineage} (hinstructions : r.1.map Located.bare = r'.1.map Located.bare)
    (hlineage : r.2.bare = r'.2.bare) :
    Load.Retraces lost torn Template.Resembles (finish source tokens r : Load σ Template)
      (finish source tokens r' : Load σ' Template) := by
  have hancestors : r.2.ancestors.map Ancestor.bare = r'.2.ancestors.map Ancestor.bare :=
    congrArg Lineage.ancestors hlineage
  have hnames := congrArg (List.map fun a : Ancestor => a.dependency.name) hancestors
  simp only [List.map_map] at hnames
  unfold finish
  rcases hp : Program.link source.origin r.1 with e | p
  · exact Load.retraces_of_error e _ _
  · obtain ⟨p', hp'⟩ := Program.exists_link_of_bare_eq hinstructions hp
    rw [hp', Load.ofExcept_ok, Load.ofExcept_ok, pure_bind, pure_bind]
    refine .pure ⟨rfl, rfl, rfl, ?_, ?_⟩
    · simp only [List.map_map]
      exact hnames.symm
    · rw [(Program.of_link hp).2, (Program.of_link hp').2]
      exact hinstructions.symm

/-- Compiling goes behind compiling. That nothing is known of the second template is put down to a recorded parent with
another text, and that there is none, to such a parent or to a template of the chain that extends more than once. -/
theorem Template.compile_retraces (h : Sources.Coupled read read' A B) (source : Source) :
    Load.Retraces (fun t => ∃ d ∈ t.parents, Strayed read read' d.name)
      (fun t => (∃ d ∈ t.parents, Hindered read read' A.markup d.name) ∨ ¬ExtendsOnce (Node.ofTokens t.tokens))
      Template.Resembles (Template.compile A source) (Template.compile B source) := by
  have hfinish {P : String → Prop} (tokens : List Token) (r : List Located × Lineage) (hr : r.2.Has P) :
      Load.Ensures (fun t => ∃ d ∈ t.parents, P d.name) (finish source tokens r : Load σ Template) := by
    refine (ensures_finish source tokens r).mono fun t ht => ?_
    obtain ⟨a, ha, hP⟩ := hr
    rw [ht.2]
    exact ⟨a.dependency, List.mem_map_of_mem ha, hP⟩
  have hgrows {P : String → Prop} (tokens : List Token) (set : BlockSet) (hset : set.lineage.Has P) :
      Load.Ensures (fun t => ∃ d ∈ t.parents, P d.name)
        ((set.instructions A).runFrom set.lineage >>= finish source tokens) :=
    ((set.instructions_grows h.left).has hset).bind fun r hr => hfinish tokens r hr
  have htokens (tokens : List Token) (set : BlockSet) : Load.Ensures (fun t => t.tokens = tokens)
      ((set.instructions A).runFrom set.lineage >>= finish source tokens) :=
    (set.instructions_grows h.left set.lineage).bind fun r _ => (ensures_finish source tokens r).mono fun _ => And.left
  unfold Template.compile
  rw [← h.markup]
  refine (Load.retraces_ofExcept _).bind_eq fun tokens => ?_
  have hset : Load.Retraces (fun set : BlockSet => set.lineage.Has (Strayed read read'))
      (fun set => set.lineage.Has (Hindered read read' A.markup) ∨ ¬ExtendsOnce (Node.ofTokens tokens))
      (fun set set' => set.bare = set'.bare)
      (BlockSet.build A [source.name] source.origin (Node.ofTokens tokens))
      (BlockSet.build B [source.name] source.origin (Node.ofTokens tokens)) := by
    refine (Draft.build_retraces (ancestry_retraces h) (fun _ hlost hsame => hlost hsame.1) _ _ _ _).bind
      (fun _ hd => .pure hd) (fun _ hd => .pure hd) fun d d' hd => .pure ?_
    rw [BlockSet.bare, BlockSet.bare, ← Draft.blocks_bare, ← Draft.blocks_bare, hd, Draft.bare_lineage_eq hd]
  refine hset.bind (hgrows tokens) (fun set hset => ?_) fun set set' hset => ?_
  · rcases hset with hset | hmany
    · exact (hgrows tokens set hset).mono fun _ => .inl
    · refine (htokens tokens set).mono fun t ht => .inr ?_
      rwa [ht]
  · have hinstructions := BlockSet.instructions_retraces h hset _ _ (congrArg BlockSet.lineage hset)
    exact hinstructions.bind (hfinish tokens) (fun r hr => (hfinish tokens r hr).mono fun _ => .inl) fun r r' hr =>
      finish_retraces source tokens hr.1 hr.2

/-- Where the recorded parents have the same texts, the second template resembles the first one. If there is none, a
template of the chain extends more than once. -/
theorem Template.compile_cases_of_sameText (h : Sources.Coupled read read' A B) {source : Source} {t : Template}
    {s s₁ : Session σ} (ht : (compile A source).run.run s = (.ok t, s₁))
    (hsame : ∀ d ∈ t.parents, SameText read read' d.name) (s' : Session σ') :
    (∃ t' s₁', (compile B source).run.run s' = (.ok t', s₁') ∧ t.Resembles t') ∨
      (∃ e s₁', (compile B source).run.run s' = (.error e, s₁')) ∧
        ¬(ExtendsOnce (Node.ofTokens t.tokens) ∧ ∀ d ∈ t.parents, ExtendsOnceAt read A.markup d.name) := by
  have hretrace := compile_retraces h source s s'
  rcases hrun : (compile B source).run.run s' with ⟨r, s₁'⟩
  rw [ht, hrun] at hretrace
  cases hretrace with
  | same hresembles => exact .inl ⟨_, s₁', rfl, hresembles⟩
  | off _ hlost =>
    obtain ⟨d, hd, hstrayed⟩ := hlost
    exact absurd (hsame d hd) hstrayed
  | stuck e htorn =>
    refine .inr ⟨⟨e, s₁', rfl⟩, fun ⟨hone, hparents⟩ => ?_⟩
    rcases htorn with ⟨d, hd, hhindered⟩ | hmany
    · exact hhindered ⟨hsame d hd, hparents d hd⟩
    · exact hmany hone

end Sources

/-! ## What is recorded -/

/-- **Compiling reads nothing but the recorded chain.** Let a template be compiled from a source, and let the texts of
its recorded parents be held in memory under their names, beside any others.

- A template that is compiled from the source with these texts has the same tokens, parents of the same names and the
  same instructions on the same lines. If the recorded parents came from memory before, too, it is the same template.
- If neither the source nor a recorded parent extends more than once, the source compiles with these texts.
- The recorded parents are the ancestors, nearest first, each of them once. The last one extends nothing. -/
theorem compile_of_recorded {σ τ : Type} {sources : Sources σ} {read : String → Except Error Source}
    (hreads : sources.Reads read) {source : Source} {t : Template} {session session' : Session σ}
    (ht : (Template.compile sources source).run.run session = (.ok t, session')) {texts : Bindings String}
    (htexts : ∀ d ∈ t.parents, ∀ parent, read d.name = .ok parent → Bindings.get? texts d.name = some parent.text) :
    (∀ (other other' : Session τ) (t' : Template),
      (Template.compile (Sources.inMemory sources.markup texts) source).run.run other = (.ok t', other') →
        t.Resembles t' ∧
          ((∀ d ∈ t.parents, ∀ parent, read d.name = .ok parent → parent = Source.inMemory d.name parent.text) →
            t' = t)) ∧
    (ExtendsOnce (Node.ofTokens t.tokens) → (∀ d ∈ t.parents, ExtendsOnceAt read sources.markup d.name) →
      ∀ other : Session τ, ∃ t' other',
        (Template.compile (Sources.inMemory sources.markup texts) source).run.run other = (.ok t', other')) ∧
    source.tokens sources.markup = .ok t.tokens ∧
      Lineal read sources.markup (lastParent? (Node.ofTokens t.tokens)) t.parents none ∧
        (source.name :: t.parents.map Dependency.name).Nodup := by
  have hcoupled : Sources.Coupled read (Source.ofTexts texts) sources
      (Sources.inMemory sources.markup texts : Sources τ) := ⟨hreads, Sources.reads_inMemory _ _, rfl⟩
  have hread : ∀ d ∈ t.parents, ∃ parent, read d.name = .ok parent ∧
      Source.ofTexts texts d.name = .ok (Source.inMemory d.name parent.text) := by
    intro d hd
    obtain ⟨parent, hparent, -⟩ := (Template.ensures_compile hreads source session).2 t (congrArg Prod.fst ht) d hd
    exact ⟨parent, hparent, Source.ofTexts_eq_ok_iff.mpr ⟨_, htexts d hd parent hparent, rfl⟩⟩
  have hsame : ∀ d ∈ t.parents, SameText read (Source.ofTexts texts) d.name := by
    intro d hd
    obtain ⟨parent, hparent, htext⟩ := hread d hd
    exact ⟨parent, _, hparent, htext, rfl⟩
  refine ⟨fun other other' t' ht' => ⟨?_, fun hmemory => ?_⟩, fun hone hparents other => ?_,
    Template.lineal_of_compile hreads ht⟩
  · rcases Template.compile_cases_of_sameText hcoupled ht hsame other with ⟨_, _, hrun, h⟩ | ⟨⟨_, _, hrun⟩, -⟩
    · rw [ht'] at hrun
      cases hrun
      exact h
    · rw [ht'] at hrun
      cases hrun
  · refine (Template.eq_of_parents_read hcoupled ht ht' fun d hd => ?_).symm
    obtain ⟨parent, hparent, htext⟩ := hread d hd
    rw [hparent, htext, ← hmemory d hd parent hparent]
  · rcases Template.compile_cases_of_sameText hcoupled ht hsame other with ⟨t', other', hrun, -⟩ | ⟨-, hnot⟩
    · exact ⟨t', other', hrun⟩
    · exact absurd ⟨hone, hparents⟩ hnot

/-- The parent of a template is read from a file first, and then from memory, beside another text. -/
theorem compile_of_recorded_moved :
    let m := Markup.firstPass
    let leaf := Source.inMemory "leaf"
      "%\x7bextends 'root'\x7d-%\x7bblock x\x7d<%\x7bblocksuper\x7d>%\x7bendblock\x7d"
    let root : Source := ⟨"root", "site/root", "(%\x7bblock x\x7dy%\x7bendblock\x7d)", some "site/root", none⟩
    let files : Sources Unit :=
      ⟨m, fun name => Load.ofExcept (if name = "root" then .ok root else .error (.unreadable name))⟩
    let memory : Sources Unit := Sources.inMemory m [("other", "%\x7b"), ("root", root.text)]
    ∃ t session, (Template.compile files leaf).run.run ⟨(), []⟩ = (.ok t, session) ∧ t.parents = [root.dependency] ∧
      ∃ t' session', (Template.compile memory leaf).run.run ⟨(), []⟩ = (.ok t', session') ∧ t.Resembles t' := by
  intro m leaf root files memory
  let read : String → Except Error Source := fun name => if name = "root" then .ok root else .error (.unreadable name)
  have hread {name : String} {source : Source} (h : read name = .ok source) : name = "root" ∧ source = root := by
    by_cases hname : name = "root" <;> simp only [read, hname, if_true, if_false] at h <;> cases h
    exact ⟨hname, rfl⟩
  have hreads : files.Reads read := by
    refine ⟨fun _ => rfl, fun h => ?_⟩
    obtain ⟨rfl, rfl⟩ := hread h
    rfl
  obtain ⟨t, session, ht, hparts⟩ := exists_run_eq_ok (s := ⟨(), []⟩) (x := Template.compile files leaf)
    (g := fun t => (t.parents, decide (ExtendsOnce (Node.ofTokens t.tokens))))
    (b := ([root.dependency], true)) (by decide +kernel)
  have hroot : (Token.scan m root.text).toOption.map (fun tokens => decide (ExtendsOnce (Node.ofTokens tokens))) =
      some true := by decide +kernel
  have htexts : ∀ d ∈ t.parents, ∀ parent, read d.name = .ok parent →
      Bindings.get? [("other", "%\x7b"), ("root", root.text)] d.name = some parent.text := by
    intro d _ parent h
    rw [(hread h).1, (hread h).2]
    rfl
  obtain ⟨hthen, hcompiles, -⟩ := compile_of_recorded (τ := Unit) hreads ht htexts
  have hone : ∀ d ∈ t.parents, ExtendsOnceAt read m d.name := by
    intro d _ source tokens hsource htokens
    rw [Source.tokens_eq_ok_iff, (hread hsource).2] at htokens
    rw [htokens] at hroot
    exact of_decide_eq_true (Option.some.inj hroot)
  obtain ⟨t', session', ht'⟩ := hcompiles (of_decide_eq_true (congrArg Prod.snd hparts)) hone ⟨(), []⟩
  exact ⟨t, session, ht, congrArg Prod.fst hparts, t', session', ht', (hthen _ _ _ ht').1⟩

end Stencil
