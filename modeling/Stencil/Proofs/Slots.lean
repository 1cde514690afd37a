import Stencil.Proofs.Coherence

/-!
# Slots of a cache

A template that is asked for takes a slot under its name before it is known whether there is such a template, and gives
it up if it fails and nothing was held. Between two requests no slot is empty (`Cache.Filled`, kept by every step:
`Site.filled_step`), and then taking a slot and releasing it again leaves the cache as it was (`Cache.release_take`).

So a failure leaves no trace in the cache, whatever has been done to it and to the files before, and a success changes
nothing but the slot of the template that was asked for (`cache_kept_by_failure`).
-/

namespace Stencil

namespace Cache

variable {c : Cache} {name other : String} {t : Template} {modified : Option Int}

/-- Something is held in every slot. -/
def Filled (c : Cache) : Prop := ∀ name, c.slot? name ≠ some none

theorem filled_empty : empty.Filled := nofun

@[simp] theorem compiled_take : (c.take name).compiled = c.compiled := by
  unfold take
  split <;> rfl

theorem slot?_take_of_ne (h : other ≠ name) : (c.take name).slot? other = c.slot? other := by
  unfold take
  split
  · rfl
  · exact Bindings.get?_set_of_ne h.symm none c.slots

theorem slot?_insert_of_ne (h : other ≠ name) : (c.insert name t modified).slot? other = c.slot? other :=
  Bindings.get?_set_of_ne h.symm _ c.slots

theorem slot?_insert_self : (c.insert name t modified).slot? name = some (some ⟨t, modified, c.compiled⟩) :=
  Bindings.get?_set_self name _ c.slots

/-- What a slot is taken for in vain is undone by releasing it. -/
theorem release_take (h : c.slot? name ≠ some none) : (c.take name).release name = c := by
  rcases hslot : c.slot? name with _ | _ | e
  · have hfind : c.find? name = none := by rw [find?, hslot]; rfl
    have htake : c.take name = { c with slots := Bindings.set name none c.slots } := by rw [take, hslot]
    rw [release, find?_take, hfind, htake]
    exact congrArg (Cache.mk · c.compiled) (Bindings.erase_set hslot none)
  · exact absurd hslot h
  · have hfind := find?_eq_some_iff.mpr hslot
    rw [take_of_find?_eq_some hfind, release, hfind]

/-- Slots that are taken and filled leave no empty one behind. -/
theorem Filled.insert_take (h : c.Filled) : ((c.take name).insert name t modified).Filled := by
  intro other
  by_cases heq : other = name
  · rw [heq, slot?_insert_self]
    exact nofun
  · rw [slot?_insert_of_ne heq, slot?_take_of_ne heq]
    exact h other

theorem Filled.invalidate (h : c.Filled) (name : String) : (c.invalidate name).Filled := by
  intro other
  rw [slot?, Cache.invalidate, Bindings.get?_erase]
  split
  · exact (Option.some_ne_none _).symm
  · exact h other

end Cache

/-! ## Requests -/

section Request

variable {files : FileLoader} {tree : FileTree} {name : String} {session session' : Session Cache}
  {r : Except Error Template}

/-- All that a request does to a cache without empty slots: a failure nothing, and a success nothing but that the
template is held in its slot. -/
theorem FileLoader.of_run_cachedTemplate (hc : session.state.Filled)
    (h : (files.cachedTemplate tree name).run.run session = (r, session')) :
    (∃ e, r = .error e) ∧ session'.state = session.state ∨
    ∃ t e, r = .ok t ∧ session'.state.slot? name = some (some e) ∧ e.template = t ∧
      (session'.state = session.state ∨
        ∃ modified, session'.state = (session.state.take name).insert name t modified) := by
  rcases files.run_cachedTemplate tree name session with ⟨e, he, -, hrun⟩ | ⟨-, hrun⟩
  · cases hrun.symm.trans h
    exact .inr ⟨e.template, e, rfl, Cache.find?_eq_some_iff.mp he, rfl, .inl rfl⟩
  · rcases of_run_compileIntoCache (hrun.symm.trans h) with ⟨hfails, hstate⟩ | ⟨source, t, s, -, -, rfl, hstate⟩
    · exact .inl ⟨hfails, hstate.trans (Cache.release_take (hc name))⟩
    · have hslot : session'.state.slot? name = some (some ⟨t, source.modified, session.state.compiled⟩) := by
        rw [hstate, Cache.slot?_insert_self, Cache.compiled_take]
      exact .inr ⟨t, _, rfl, hslot, rfl, .inr ⟨_, hstate⟩⟩

/-- No step leaves an empty slot behind. -/
theorem Site.filled_step {Changes : FileTree → FileTree → Prop} {site site' : Site}
    (hs : Site.Step files Changes site site') (hc : site.session.state.Filled) : site'.session.state.Filled := by
  cases hs with
  | change session _ => exact hc
  | request tree session name =>
    rcases hrun : (files.cachedTemplate tree name).run.run session with ⟨r, session'⟩
    have hsession : (((files.cachedLoader tree).template name).run.run session).2 = session' := congrArg Prod.snd hrun
    rw [hsession]
    rcases FileLoader.of_run_cachedTemplate hc hrun with
      ⟨-, hstate⟩ | ⟨t, e, -, -, -, hstate | ⟨modified, hstate⟩⟩ <;> dsimp only <;> rw [hstate]
    · exact hc
    · exact hc
    · exact hc.insert_take
  | invalidate tree session name => exact hc.invalidate name
  | clear tree session => exact Cache.filled_empty

/-- Along every run, no slot is empty. -/
theorem Site.Reaches.filled {Changes : FileTree → FileTree → Prop} {warnings : List Warning} {site : Site}
    (h : Site.Reaches files Changes (.start tree warnings) site) : site.session.state.Filled := by
  induction h with
  | refl => exact Cache.filled_empty
  | tail _ hs ih => exact Site.filled_step hs ih

/-- **A load that fails leaves the cache exactly as it was.** However the files have changed, templates have been asked
for and what was held has been dropped, every slot holds a template that was compiled from the files as they were at
some time. A request that fails leaves the cache alone; one that succeeds leaves the template in its slot and all other
slots alone. -/
theorem cache_kept_by_failure {warnings : List Warning} {site : Site}
    (h : Site.Reaches files (fun _ _ => True) (.start tree warnings) site) :
    (∀ name slot, site.session.state.slot? name = some slot →
      ∃ e before, slot = some e ∧ e.MadeAt files before name) ∧
    ∀ name r session', ((files.cachedLoader site.tree).template name).run.run site.session = (r, session') →
      (∀ e, r = .error e → session'.state = site.session.state) ∧
      ∀ t, r = .ok t → session'.state.holds name = true ∧
        (session'.state.find? name).map CacheEntry.template = some t ∧
        ∀ other, other ≠ name → session'.state.slot? other = site.session.state.slot? other := by
  have hfilled := h.filled
  have hsound := h.sound (fun _ => trivial) fun _ _ _ _ _ => trivial
  refine ⟨fun name slot hslot => ?_, fun name r session' hrun => ?_⟩
  · rcases slot with _ | e
    · exact absurd hslot (hfilled name)
    · obtain ⟨before, -, hmade⟩ := hsound name e (Cache.find?_eq_some_iff.mpr hslot)
      exact ⟨e, before, rfl, hmade⟩
  · rcases FileLoader.of_run_cachedTemplate hfilled hrun with ⟨⟨e, rfl⟩, hstate⟩ | ⟨t, e, rfl, hslot, rfl, hstate⟩
    · exact ⟨fun _ _ => hstate, nofun⟩
    · refine ⟨fun _ he => (nomatch he), ?_⟩
      rintro _ ⟨⟩
      have hfind := Cache.find?_eq_some_iff.mpr hslot
      refine ⟨?_, ?_, fun other hne => ?_⟩
      · rw [Cache.holds, hfind]
        rfl
      · rw [hfind]
        rfl
      · rcases hstate with hstate | ⟨modified, hstate⟩
        · rw [hstate]
        · rw [hstate, Cache.slot?_insert_of_ne hne, Cache.slot?_take_of_ne hne]

/-- The page is held when its parent gets a tag that never ends, so that it fails to compile; a page that has never
existed fails as well, and another one is compiled beside it. -/
theorem cache_kept_by_failure_page :
    let after := pageInSecondRoot.put ["b", "base.html.tpl"] (.file "%\x7b".toUTF8 2)
    let later := after.put ["a", "new.html.tpl"] (.file "new".toUTF8 2)
    Site.Reaches twoRoots (fun _ _ => True) (.start pageInSecondRoot []) ⟨later, pageHeld⟩ ∧
      (pageHeld.state.find? "page").isSome ∧
      (∃ e session', ((twoRoots.cachedLoader later).template "page").run.run pageHeld = (.error e, session') ∧
        session'.state = pageHeld.state) ∧
      (∃ e session', ((twoRoots.cachedLoader later).template "none").run.run pageHeld = (.error e, session') ∧
        session'.state = pageHeld.state) ∧
      ∃ t session', ((twoRoots.cachedLoader later).template "new").run.run pageHeld = (.ok t, session') ∧
        session'.state.holds "new" = true ∧ session'.state.slot? "page" = pageHeld.state.slot? "page" := by
  intro after later
  have hreaches : Site.Reaches twoRoots (fun _ _ => True) (.start pageInSecondRoot []) ⟨later, pageHeld⟩ :=
    (Relation.ReflTransGen.refl.tail (.request pageInSecondRoot ⟨.empty, []⟩ "page")).tail (.change pageHeld trivial)
  obtain ⟨-, hall⟩ := cache_kept_by_failure hreaches
  obtain ⟨e, s, hpage, -⟩ := exists_run_eq_error (x := (twoRoots.cachedLoader later).template "page") (s := pageHeld)
    (g := Error.position?) (b := some ⟨"b/base.html.tpl", 1⟩) (by decide +kernel)
  obtain ⟨e', s', hnone, -⟩ := exists_run_eq_error (x := (twoRoots.cachedLoader later).template "none") (s := pageHeld)
    (g := Error.position?) (b := none) (by decide +kernel)
  obtain ⟨t, s'', hnew, -⟩ := exists_run_eq_ok (x := (twoRoots.cachedLoader later).template "new") (s := pageHeld)
    (g := Template.origin) (b := "a/new.html.tpl") (by decide +kernel)
  obtain ⟨hholds, -, hothers⟩ := (hall _ _ _ hnew).2 t rfl
  exact ⟨hreaches, by decide +kernel, ⟨e, s, hpage, (hall _ _ _ hpage).1 e rfl⟩,
    ⟨e', s', hnone, (hall _ _ _ hnone).1 e' rfl⟩, t, s'', hnew, hholds, hothers "page" (by decide)⟩

end Request

end Stencil
