import Mathlib.Logic.Relation
import Stencil.Proofs.Freshness

/-!
# A cache over files that change

A site is a file tree and a session with a cache over it. Step by step the files change, templates are asked for, and
what is held is dropped (`Site.Step`). Along every run, each entry of the cache was made from files that have become
those of the site (`Site.Reaches.sound`); a template that fails to compile leaves the cache as it is, so that entries
may lag behind by any number of changes.

- If files are only rewritten, with later times, a template that compiles now is what the cache gives
  (`cached_eq_of_rewritten`).
- If new files appear as well, this holds as long as the names of the recorded parents lead to the recorded paths
  (`cached_eq_of_renewed`). The path of the template itself is looked up again and needs no such condition. Those of the
  parents are not, so that a file that wins over a parent goes unnoticed (`not_all_cached_eq`).
-/

namespace Stencil

/-! ## Entries come from compiling -/

namespace Cache

variable {c : Cache} {name other : String} {t : Template} {modified : Option Int} {e : CacheEntry}

theorem of_find?_insert (h : (c.insert name t modified).find? other = some e) :
    other = name ∧ e.template = t ∧ e.modified = modified ∨ c.find? other = some e := by
  rw [find?, slot?, insert, Bindings.get?_set] at h
  split at h
  · next heq =>
    cases h
    exact .inl ⟨heq.symm, rfl, rfl⟩
  · exact .inr h

theorem of_find?_invalidate (h : (c.invalidate name).find? other = some e) : c.find? other = some e := by
  rw [find?, slot?, invalidate, Bindings.get?_erase] at h
  split at h
  · cases h
  · exact h

theorem find?_clear (c : Cache) (name : String) : c.clear.find? name = none := rfl

theorem run_change (f : Cache → Cache) (session : Session Cache) :
    (change f).run.run session = (.ok (), { session with state := f session.state }) := rfl

end Cache

namespace FileLoader

variable {files : FileLoader} {tree : FileTree} {name : String} {session session' : Session Cache}
  {r : Except Error Template}

/-- A template that is read and compiled is held. -/
theorem run_compileIntoCache_of_ok {source : Source} {t : Template} (hread : files.read tree name = .ok source)
    (hcompile : (Template.compile (files.sources tree) source).run.run session = (.ok t, session')) :
    (files.compileIntoCache tree name).run.run session =
      (.ok t, { session' with state := session'.state.insert name t source.modified }) := by
  refine run_tryCatch_of_ok ?_
  exact (run_bind_of_ok (Load.run_ofExcept session hread)).trans (run_bind_of_ok hcompile)

/-- Compiling into the cache fails and gives up a slot that is empty, or it holds what is compiled. -/
theorem of_run_compileIntoCache (h : (files.compileIntoCache tree name).run.run session = (r, session')) :
    (∃ e, r = .error e) ∧ session'.state = session.state.release name ∨
    ∃ source t s, files.read tree name = .ok source ∧
      (Template.compile (files.sources tree) source).run.run session = (.ok t, s) ∧ r = .ok t ∧
      session'.state = session.state.insert name t source.modified := by
  rcases hread : files.read tree name with e | source
  · have hsource := Load.run_ofExcept session hread
    have := (run_tryCatch_of_error (run_bind_of_error hsource)).symm.trans h
    cases this
    exact .inl ⟨⟨e, rfl⟩, rfl⟩
  · have hsource := Load.run_ofExcept session hread
    have hkeeps := (Template.ensures_compile (files.reads_sources tree) source session).1
    rcases hcompile : (Template.compile (files.sources tree) source).run.run session with ⟨_ | t, s⟩
    · rw [hcompile] at hkeeps
      have hfails : (files.fillSlot tree name).run.run session = (.error _, s) :=
        (run_bind_of_ok hsource).trans (run_bind_of_error hcompile)
      have := (run_tryCatch_of_error hfails).symm.trans h
      cases this
      exact .inl ⟨⟨_, rfl⟩, congrArg (Cache.release · name) hkeeps⟩
    · rw [hcompile] at hkeeps
      have := (run_compileIntoCache_of_ok hread hcompile).symm.trans h
      cases this
      exact .inr ⟨source, t, s, rfl, hcompile, rfl, congrArg (Cache.insert · name t source.modified) hkeeps⟩

/-- A template that is asked for is the one that is held as current, or it is compiled into the slot that it takes. -/
theorem run_cachedTemplate (files : FileLoader) (tree : FileTree) (name : String) (session : Session Cache) :
    (∃ e, session.state.find? name = some e ∧ e.isCurrent files tree name = true ∧
      (files.cachedTemplate tree name).run.run session = (.ok e.template, session)) ∨
    (∀ e, session.state.find? name = some e → e.isCurrent files tree name = false) ∧
      (files.cachedTemplate tree name).run.run session =
        (files.compileIntoCache tree name).run.run { session with state := session.state.take name } := by
  have hget (session : Session Cache) : (get : Load Cache (Session Cache)).run.run session = (.ok session, session) :=
    rfl
  unfold cachedTemplate
  rw [run_bind_of_ok (Cache.run_change _ session), run_bind_of_ok (hget _)]
  dsimp only
  rw [Cache.find?_take]
  rcases he : session.state.find? name with _ | e
  · exact .inr ⟨nofun, rfl⟩
  · dsimp only
    rw [Cache.take_of_find?_eq_some he]
    by_cases hc : e.isCurrent files tree name = true
    · rw [if_pos hc]
      exact .inl ⟨e, rfl, hc, rfl⟩
    · rw [if_neg hc]
      refine .inr ⟨?_, rfl⟩
      rintro _ ⟨⟩
      exact Bool.eq_false_iff.mpr hc

end FileLoader

/-! ## Files and a cache over them -/

/-- Files, and a session with a cache over them. -/
structure Site where
  tree : FileTree
  session : Session Cache

namespace Site

variable {files : FileLoader} {Changes : FileTree → FileTree → Prop}

/-- The files change, a template is asked for, or what is held is dropped. -/
inductive Step (files : FileLoader) (Changes : FileTree → FileTree → Prop) : Site → Site → Prop
  | change {tree tree' : FileTree} (session : Session Cache) :
      Changes tree tree' → Step files Changes ⟨tree, session⟩ ⟨tree', session⟩
  | request (tree : FileTree) (session : Session Cache) (name : String) :
      Step files Changes ⟨tree, session⟩ ⟨tree, (((files.cachedLoader tree).template name).run.run session).2⟩
  | invalidate (tree : FileTree) (session : Session Cache) (name : String) :
      Step files Changes ⟨tree, session⟩ ⟨tree, { session with state := session.state.invalidate name }⟩
  | clear (tree : FileTree) (session : Session Cache) :
      Step files Changes ⟨tree, session⟩ ⟨tree, { session with state := session.state.clear }⟩

/-- Any number of steps. -/
def Reaches (files : FileLoader) (Changes : FileTree → FileTree → Prop) : Site → Site → Prop :=
  Relation.ReflTransGen (Step files Changes)

/-- Nothing is held yet. -/
def start (tree : FileTree) (warnings : List Warning) : Site := ⟨tree, ⟨.empty, warnings⟩⟩

/-- Every entry was made from files that have become those of the site. -/
def Sound (files : FileLoader) (Changes : FileTree → FileTree → Prop) (site : Site) : Prop :=
  ∀ name e, site.session.state.find? name = some e →
    ∃ tree, Changes tree site.tree ∧ e.MadeAt files tree name

theorem sound_start (tree : FileTree) (warnings : List Warning) : (start tree warnings).Sound files Changes := nofun

/-- Entries that are made now are sound. -/
theorem Sound.request (hrefl : ∀ tree, Changes tree tree) {tree : FileTree} {session : Session Cache}
    (h : Sound files Changes ⟨tree, session⟩) (name : String) :
    Sound files Changes ⟨tree, (((files.cachedLoader tree).template name).run.run session).2⟩ := by
  change Sound files Changes ⟨tree, ((files.cachedTemplate tree name).run.run session).2⟩
  rcases files.run_cachedTemplate tree name session with ⟨e, -, -, hrun⟩ | ⟨-, hrun⟩
  · rw [hrun]
    exact h
  · rw [hrun]
    rcases hcompile : (files.compileIntoCache tree name).run.run { session with state := session.state.take name } with
      ⟨r, session'⟩
    rcases FileLoader.of_run_compileIntoCache hcompile with ⟨-, hstate⟩ | ⟨source, t, s, hread, ht, -, hstate⟩
    · intro other e he
      rw [hstate, Cache.find?_release, Cache.find?_take] at he
      exact h other e he
    · intro other e he
      rw [hstate] at he
      rcases Cache.of_find?_insert he with ⟨rfl, rfl, htime⟩ | he
      · exact ⟨tree, hrefl tree, source, _, s, hread, htime, ht⟩
      · rw [Cache.find?_take] at he
        exact h other e he

theorem Sound.step (hrefl : ∀ tree, Changes tree tree)
    (htrans : ∀ t t' t'', Changes t t' → Changes t' t'' → Changes t t'') {site site' : Site}
    (h : site.Sound files Changes) (hs : Step files Changes site site') : site'.Sound files Changes := by
  cases hs with
  | change session hchange =>
    intro name e he
    obtain ⟨tree, htree, hmade⟩ := h name e he
    exact ⟨tree, htrans _ _ _ htree hchange, hmade⟩
  | request tree session name => exact h.request hrefl name
  | invalidate tree session name =>
    intro other e he
    exact h other e (Cache.of_find?_invalidate he)
  | clear tree session =>
    intro name e he
    rw [Cache.find?_clear] at he
    cases he

/-- Along every run, the entries stay sound. -/
theorem Reaches.sound (hrefl : ∀ tree, Changes tree tree)
    (htrans : ∀ t t' t'', Changes t t' → Changes t' t'' → Changes t t'') {tree : FileTree} {warnings : List Warning}
    {site : Site} (h : Reaches files Changes (start tree warnings) site) : site.Sound files Changes := by
  induction h with
  | refl => exact sound_start tree warnings
  | tail _ hs ih => exact ih.step hrefl htrans hs

end Site

/-! ## Coherence -/

section Coherence

variable {σ : Type} {files : FileLoader} {tree : FileTree} {name : String} {t : Template} {s s' : Session σ}
  {session : Session Cache}

/-- What compiles without the cache compiles into the cache. -/
theorem FileLoader.run_compileIntoCache
    (hu : ((files.loader tree : Loader σ).template name).run.run s = (.ok t, s')) (session : Session Cache) :
    ∃ session', (files.compileIntoCache tree name).run.run session = (.ok t, session') := by
  obtain ⟨source, hread, hcompile⟩ := of_run_loader hu
  have hsame := Template.compile_outcome_eq
    ⟨files.reads_sources tree (σ := σ), files.reads_sources tree (σ := Cache), rfl⟩ source s session
  rw [hcompile] at hsame
  rcases hrun : (Template.compile (files.sources tree) source).run.run session with ⟨r, session₁⟩
  rw [hrun] at hsame
  subst hsame
  exact ⟨_, run_compileIntoCache_of_ok hread hrun⟩

/-- A loader with a cache gives what one without gives, as long as this is what is held as current. -/
theorem FileLoader.run_cachedLoader
    (hu : ((files.loader tree : Loader σ).template name).run.run s = (.ok t, s'))
    (hheld : ∀ e, session.state.find? name = some e → e.isCurrent files tree name = true → e.template = t) :
    ∃ session', ((files.cachedLoader tree).template name).run.run session = (.ok t, session') := by
  rcases files.run_cachedTemplate tree name session with ⟨e, he, hc, hrun⟩ | ⟨-, hrun⟩
  · refine ⟨session, ?_⟩
    rw [← hheld e he hc]
    exact hrun
  · obtain ⟨session', hcompile⟩ := run_compileIntoCache hu { session with state := session.state.take name }
    exact ⟨session', hrun.trans hcompile⟩

/-- The file of a template that compiles is found. -/
theorem FileLoader.exists_path?_of_run (hu : ((files.loader tree : Loader σ).template name).run.run s = (.ok t, s')) :
    ∃ path bytes time, files.path? tree name = some path ∧ tree.file? path = some (bytes, time) := by
  obtain ⟨source, hread, -⟩ := of_run_loader hu
  obtain ⟨path, bytes, time, hpath, hfile, -⟩ := exists_file?_of_read hread
  exact ⟨path, bytes, time, hpath, hfile⟩

/-- **A cache is coherent with files that are rewritten.** However files are rewritten with later times, templates are
asked for and what is held is dropped, a template that compiles now is what the cache gives. -/
theorem cached_eq_of_rewritten {tree₀ : FileTree} {warnings : List Warning} {site : Site}
    (h : Site.Reaches files FileTree.Rewritten (.start tree₀ warnings) site)
    (hu : ((files.loader site.tree : Loader σ).template name).run.run s = (.ok t, s')) :
    ∃ session', ((files.cachedLoader site.tree).template name).run.run site.session = (.ok t, session') := by
  have hsound := h.sound FileTree.Rewritten.refl fun _ _ _ => FileTree.Rewritten.trans
  refine FileLoader.run_cachedLoader hu fun e he hc => ?_
  obtain ⟨tree, hchanges, hmade⟩ := hsound name e he
  have hpath := files.path?_congr hchanges.isFile_eq
  refine hmade.eq_of_isCurrent hchanges.advances (hpath name) (fun d hd => ?_) hc hu
  obtain ⟨path, bytes, time, hfound, -, hrecorded, -⟩ := FileLoader.exists_file?_of_recorded (hmade.recorded d hd)
  rw [hpath, hfound, hrecorded]

/-- A parent is rewritten after the page that extends it has been compiled into the cache. -/
theorem cached_eq_of_rewritten_parent :
    let files : FileLoader := ⟨["views"], "html", "tpl", .firstPass⟩
    let before : FileTree := ⟨[], 0, [(["views"], .directory 0), (["views", "base.html.tpl"], .file "old".toUTF8 1),
      (["views", "page.html.tpl"], .file "%\x7b extends 'base' \x7d".toUTF8 1)]⟩
    let after := before.put ["views", "base.html.tpl"] (.file "new".toUTF8 2)
    let held := (((files.cachedLoader before).template "page").run.run ⟨.empty, []⟩).2
    Site.Reaches files FileTree.Rewritten (.start before []) ⟨after, held⟩ ∧
      ∃ t session', ((files.cachedLoader after).template "page").run.run held = (.ok t, session') ∧
        t.program.instructions = [⟨.literal "new", ⟨"views/base.html.tpl", 1⟩⟩] := by
  intro files before after held
  have hreaches : Site.Reaches files FileTree.Rewritten (.start before []) ⟨after, held⟩ :=
    (Relation.ReflTransGen.refl.tail (.request before ⟨.empty, []⟩ "page")).tail
      (.change held (FileTree.rewritten_put rfl (by decide)))
  obtain ⟨t, s', hu, ht⟩ := exists_run_eq_ok (x := (files.loader after : Loader Unit).template "page") (s := ⟨(), []⟩)
    (g := fun t => t.program.instructions) (b := [⟨.literal "new", ⟨"views/base.html.tpl", 1⟩⟩]) (by decide +kernel)
  obtain ⟨session', hrun⟩ := cached_eq_of_rewritten hreaches hu
  exact ⟨hreaches, t, session', hrun, ht⟩

/-- A file that is found at another path than before has a later time, so that what is held is not current. -/
theorem CacheEntry.MadeAt.path?_eq {tree₁ : FileTree} {e : CacheEntry} (h : e.MadeAt files tree₁ name)
    (hchanges : tree₁.Renewed tree) (hc : e.isCurrent files tree name = true) {path : String} {bytes : ByteArray}
    {time : Int} (hpath : files.path? tree name = some path) (hfile : tree.file? path = some (bytes, time)) :
    files.path? tree₁ name = some path := by
  obtain ⟨source, s, s', hread, htime, -⟩ := h
  obtain ⟨path₁, bytes₁, time₁, hpath₁, hfile₁, -, -, hmodified⟩ := FileLoader.exists_file?_of_read hread
  unfold CacheEntry.isCurrent at hc
  rw [hpath, htime, hmodified] at hc
  simp only [Bool.and_eq_true, Bool.not_eq_true', FileTree.modified?_of_file? hfile] at hc
  rcases hchanges path with heq | ⟨bytes', time', hnew, hlater⟩
  · exact FileLoader.path?_eq_of_advances hchanges.advances hpath (heq.symm.trans hfile)
  · rw [hfile] at hnew
    cases hnew
    exact absurd (hlater path₁ bytes₁ time₁ hfile₁) (of_decide_eq_false hc.1)

/-- **A cache is coherent with files that are renewed**, as long as the parents that it has recorded are found at the
paths at which they were read: then a template that compiles now is what the cache gives. That the template itself is
found at another path does not go unnoticed. -/
theorem cached_eq_of_renewed {tree₀ : FileTree} {warnings : List Warning} {site : Site}
    (h : Site.Reaches files FileTree.Renewed (.start tree₀ warnings) site)
    (hu : ((files.loader site.tree : Loader σ).template name).run.run s = (.ok t, s'))
    (hparents : ∀ e, site.session.state.find? name = some e → e.isCurrent files site.tree name = true →
      ∀ d ∈ e.template.parents, files.path? site.tree d.name = d.path) :
    ∃ session', ((files.cachedLoader site.tree).template name).run.run site.session = (.ok t, session') := by
  have hsound := h.sound FileTree.Renewed.refl fun _ _ _ => FileTree.Renewed.trans
  refine FileLoader.run_cachedLoader hu fun e he hc => ?_
  obtain ⟨tree, hchanges, hmade⟩ := hsound name e he
  obtain ⟨path, bytes, time, hpath, hfile⟩ := FileLoader.exists_path?_of_run hu
  have hfound := hmade.path?_eq hchanges hc hpath hfile
  exact hmade.eq_of_isCurrent hchanges.advances (hpath.trans hfound.symm) (hparents e he hc) hc hu

/-- A page in the second of two roots extends a template there. -/
def pageInSecondRoot : FileTree where
  working := []
  clock := 0
  entries := [(["a"], .directory 0), (["b"], .directory 0), (["b", "base.html.tpl"], .file "old".toUTF8 1),
    (["b", "page.html.tpl"], .file "%\x7b extends 'base' \x7d".toUTF8 1)]

/-- A loader with two roots. -/
def twoRoots : FileLoader := ⟨["a", "b"], "html", "tpl", .firstPass⟩

/-- The session once the page is compiled into the cache. -/
def pageHeld : Session Cache := (((twoRoots.cachedLoader pageInSecondRoot).template "page").run.run ⟨.empty, []⟩).2

/-- A new file is written once the page is held. -/
theorem reaches_put (l : Location) (text : String) (hl : pageInSecondRoot.isDirectoryAt l = false) :
    Site.Reaches twoRoots FileTree.Renewed (.start pageInSecondRoot [])
      ⟨pageInSecondRoot.put l (.file text.toUTF8 2), pageHeld⟩ := by
  have hbefore : pageInSecondRoot.Before 2 := by
    refine FileTree.before_of_entries ?_
    simp [pageInSecondRoot]
  exact (Relation.ReflTransGen.refl.tail (.request pageInSecondRoot ⟨.empty, []⟩ "page")).tail
    (.change pageHeld (FileTree.renewed_put hl hbefore))

/-- The page appears in the first root and extends the same template. -/
theorem cached_eq_of_renewed_page :
    let after := pageInSecondRoot.put ["a", "page.html.tpl"] (.file "%\x7b extends 'base' \x7d new".toUTF8 2)
    Site.Reaches twoRoots FileTree.Renewed (.start pageInSecondRoot []) ⟨after, pageHeld⟩ ∧
      ∃ t session', ((twoRoots.cachedLoader after).template "page").run.run pageHeld = (.ok t, session') ∧
        t.origin = "a/page.html.tpl" := by
  intro after
  have hreaches := reaches_put ["a", "page.html.tpl"] "%\x7b extends 'base' \x7d new" rfl
  obtain ⟨t, s', hu, ht⟩ := exists_run_eq_ok (x := (twoRoots.loader after : Loader Unit).template "page")
    (s := ⟨(), []⟩) (g := fun t => t.origin) (b := "a/page.html.tpl") (by decide +kernel)
  have hall : (pageHeld.state.find? "page").all (fun e =>
      e.template.parents.all fun d => twoRoots.path? after d.name == d.path) = true := by
    decide +kernel
  have hparents : ∀ e, pageHeld.state.find? "page" = some e → e.isCurrent twoRoots after "page" = true →
      ∀ d ∈ e.template.parents, twoRoots.path? after d.name = d.path := by
    intro e he _ d hd
    rw [he, Option.all_some, List.all_eq_true] at hall
    exact beq_iff_eq.mp (hall d hd)
  obtain ⟨session', hrun⟩ := cached_eq_of_renewed hreaches hu hparents
  exact ⟨hreaches, t, session', hrun, ht⟩

/-- Where a file that wins over a parent appears in an earlier root, what is held goes on to be given. -/
theorem not_all_cached_eq :
    ¬ ∀ (files : FileLoader) (tree₀ : FileTree) (warnings : List Warning) (site : Site) (name : String) (t : Template)
      (s s' : Session Unit), Site.Reaches files FileTree.Renewed (.start tree₀ warnings) site →
      ((files.loader site.tree : Loader Unit).template name).run.run s = (.ok t, s') →
      ∃ t' session', ((files.cachedLoader site.tree).template name).run.run site.session = (.ok t', session') ∧
        t'.program.instructions = t.program.instructions := by
  intro hall
  let after := pageInSecondRoot.put ["a", "base.html.tpl"] (.file "new".toUTF8 2)
  have hreaches : Site.Reaches twoRoots FileTree.Renewed (.start pageInSecondRoot []) ⟨after, pageHeld⟩ :=
    reaches_put ["a", "base.html.tpl"] "new" rfl
  obtain ⟨t, s', hu, ht⟩ := exists_run_eq_ok (x := (twoRoots.loader after : Loader Unit).template "page")
    (s := ⟨(), []⟩) (g := fun t => t.program.instructions) (b := [⟨.literal "new", ⟨"a/base.html.tpl", 1⟩⟩])
    (by decide +kernel)
  obtain ⟨u, s₁, hcached, hu'⟩ := exists_run_eq_ok (x := (twoRoots.cachedLoader after).template "page") (s := pageHeld)
    (g := fun t => t.program.instructions) (b := [⟨.literal "old", ⟨"b/base.html.tpl", 1⟩⟩]) (by decide +kernel)
  obtain ⟨t', session', hrun, heq⟩ := hall _ _ _ _ _ _ _ _ hreaches hu
  have hpair := hcached.symm.trans hrun
  rw [Prod.mk.injEq, Except.ok.injEq] at hpair
  rw [← hpair.1, hu', ht] at heq
  exact absurd heq (by decide)

end Coherence

end Stencil
