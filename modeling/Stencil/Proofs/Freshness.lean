import Stencil.Cache
import Stencil.Proofs.Dependence

/-!
# Files that change

A file tree is seen as a map from paths to files, each with its bytes and a time (`FileTree.file?`). What is read under
a name depends on the path at which its file is found, and on the file there (`FileLoader.read_congr`).

Trees change in two ways: files are rewritten with a later time (`FileTree.Rewritten`, `FileTree.rewritten_put`), or
files are written, new ones as well, with a time later than that of any file (`FileTree.Renewed`,
`FileTree.renewed_put`). Either way, a path with a time that is not later still leads to the same file
(`FileTree.Advances.file?_eq`). So a template that is held as current is the one that would be compiled now, as long as
its name and those of its parents are found at the same paths (`CacheEntry.MadeAt.eq_of_isCurrent`).
-/

namespace Stencil

namespace FileTree

/-- The file at the end of a path: its bytes, and the time of its last change. -/
def file? (t : FileTree) (path : String) : Option (ByteArray × Int) :=
  match t.look? path with
  | some (.file bytes modified) => some (bytes, modified)
  | _ => none

/-- At every path is the file that was there, or one with a later time. -/
def Advances (t t' : FileTree) : Prop :=
  ∀ path, t'.file? path = t.file? path ∨
    ∃ bytes time, t'.file? path = some (bytes, time) ∧ ∀ b old, t.file? path = some (b, old) → old < time

/-- No file comes or goes, and those that are not the same have a later time. -/
def Rewritten (t t' : FileTree) : Prop :=
  ∀ path, t'.file? path = t.file? path ∨
    ∃ b old bytes time, t.file? path = some (b, old) ∧ t'.file? path = some (bytes, time) ∧ old < time

/-- All files have an earlier time. -/
def Before (t : FileTree) (time : Int) : Prop := ∀ path bytes old, t.file? path = some (bytes, old) → old < time

/-- No file goes, and those that are not the same have a time later than any file had before. -/
def Renewed (t t' : FileTree) : Prop :=
  ∀ path, t'.file? path = t.file? path ∨ ∃ bytes time, t'.file? path = some (bytes, time) ∧ t.Before time

variable {t t' t'' : FileTree} {path : String} {bytes : ByteArray} {time : Int}

theorem file?_eq_some_iff : t.file? path = some (bytes, time) ↔
    ∃ l, t.locate? path = some l ∧ t.entryAt? l = some (.file bytes time) := by
  have hlook : t.file? path = some (bytes, time) ↔ t.look? path = some (.file bytes time) := by
    unfold file?
    rcases t.look? path with _ | (_ | _) <;> simp
  rw [hlook, look?, Option.bind_eq_some_iff]

theorem isFile_eq_isSome (t : FileTree) (path : String) : t.isFile path = (t.file? path).isSome := by
  unfold isFile file?
  rcases t.look? path with _ | (_ | _) <;> rfl

theorem text?_eq (t : FileTree) (path : String) :
    t.text? path = (t.file? path).bind fun file => String.fromUTF8? file.1 := by
  unfold text? bytes? file?
  rcases t.look? path with _ | (_ | _) <;> rfl

theorem modified?_of_file? (h : t.file? path = some (bytes, time)) : t.modified? path = some time := by
  obtain ⟨l, hl, hentry⟩ := file?_eq_some_iff.mp h
  rw [modified?, look?, hl, Option.bind_some, hentry]

theorem Rewritten.refl (t : FileTree) : t.Rewritten t := fun _ => .inl rfl

theorem Rewritten.trans (h : t.Rewritten t') (h' : t'.Rewritten t'') : t.Rewritten t'' := by
  intro path
  rcases h path with heq | ⟨b, old, bytes, time, hold, hnew, hlt⟩
  · have := h' path
    rwa [heq] at this
  · rcases h' path with heq' | ⟨b', old', bytes', time', hold', hnew', hlt'⟩
    · exact .inr ⟨b, old, bytes, time, hold, heq'.trans hnew, hlt⟩
    · rw [hnew] at hold'
      cases hold'
      exact .inr ⟨b, old, bytes', time', hold, hnew', Int.lt_trans hlt hlt'⟩

theorem Rewritten.advances (h : t.Rewritten t') : t.Advances t' := by
  intro path
  rcases h path with heq | ⟨b, old, bytes, time, hold, hnew, hlt⟩
  · exact .inl heq
  · refine .inr ⟨bytes, time, hnew, ?_⟩
    intro b' old' h'
    rw [hold] at h'
    cases h'
    exact hlt

theorem Rewritten.isFile_eq (h : t.Rewritten t') : t'.isFile = t.isFile := by
  funext path
  rw [isFile_eq_isSome, isFile_eq_isSome]
  rcases h path with heq | ⟨b, old, bytes, time, hold, hnew, -⟩
  · rw [heq]
  · rw [hold, hnew]
    rfl

theorem Renewed.refl (t : FileTree) : t.Renewed t := fun _ => .inl rfl

theorem Renewed.advances (h : t.Renewed t') : t.Advances t' := by
  intro path
  rcases h path with heq | ⟨bytes, time, hnew, hlater⟩
  · exact .inl heq
  · exact .inr ⟨bytes, time, hnew, hlater path⟩

/-- No file goes, and none gets an earlier time. -/
theorem Advances.exists_file? {b : ByteArray} {old : Int} (h : t.Advances t') (hf : t.file? path = some (b, old)) :
    ∃ bytes time, t'.file? path = some (bytes, time) ∧ old ≤ time := by
  rcases h path with heq | ⟨bytes, time, hnew, hlater⟩
  · exact ⟨b, old, heq.trans hf, Int.le_refl old⟩
  · exact ⟨bytes, time, hnew, Int.le_of_lt (hlater b old hf)⟩

theorem Renewed.trans (h : t.Renewed t') (h' : t'.Renewed t'') : t.Renewed t'' := by
  intro path
  rcases h' path with heq' | ⟨bytes, time, hnew, hlater⟩
  · have := h path
    rwa [← heq'] at this
  · refine .inr ⟨bytes, time, hnew, ?_⟩
    intro other b old hold
    obtain ⟨b', old', hold', hle⟩ := h.advances.exists_file? hold
    exact Int.lt_of_le_of_lt hle (hlater other b' old' hold')

/-- Where the time is not later than the one noted, the file is the same. -/
theorem Advances.file?_eq (h : t.Advances t') (hf : t.file? path = some (bytes, time))
    (hl : isLater (t'.modified? path) (some time) = false) : t'.file? path = t.file? path := by
  rcases h path with heq | ⟨bytes', time', hnew, hlater⟩
  · exact heq
  · rw [modified?_of_file? hnew] at hl
    exact absurd (hlater bytes time hf) (of_decide_eq_false hl)

/-! ## Writing a file -/

section Put

variable {l l' : Location} {entry : FileEntry}

theorem lookup_filter_ne (l l' : Location) (entries : List (Location × FileEntry)) (hne : l' ≠ l) :
    (entries.filter fun entry => entry.1 != l).lookup l' = entries.lookup l' := by
  induction entries with
  | nil => rfl
  | cons entry entries ih =>
    by_cases h : entry.1 = l
    · rw [List.filter_cons_of_neg (by simpa using h), ih, List.lookup_cons]
      rw [beq_eq_false_iff_ne.mpr (h ▸ hne)]
    · rw [List.filter_cons_of_pos (by simpa using h), List.lookup_cons, List.lookup_cons, ih]

theorem entryAt?_put (hl : l ≠ []) (t : FileTree) (entry : FileEntry) (l' : Location) :
    (t.put l entry).entryAt? l' = if l' = l then some entry else t.entryAt? l' := by
  unfold entryAt? put
  by_cases h : l' = l
  · subst h
    rw [if_neg (by simpa using hl), if_pos rfl, List.lookup_cons_self]
  · rw [if_neg h]
    split
    · rfl
    · rw [List.lookup_cons, beq_eq_false_iff_ne.mpr h, lookup_filter_ne l l' t.entries h]

theorem ne_nil_of_isDirectoryAt (hl : t.isDirectoryAt l = false) : l ≠ [] := by
  rintro rfl
  have hroot : t.isDirectoryAt [] = true := rfl
  rw [hroot] at hl
  exact Bool.false_ne_true hl.symm

/-- A file that is put where no directory is takes no directory away. -/
theorem isDirectoryAt_put (hl : t.isDirectoryAt l = false) (l' : Location) :
    (t.put l (.file bytes time)).isDirectoryAt l' = t.isDirectoryAt l' := by
  by_cases h : l' = l
  · subst h
    rw [hl, isDirectoryAt, entryAt?_put (ne_nil_of_isDirectoryAt hl), if_pos rfl]
  · rw [isDirectoryAt, entryAt?_put (ne_nil_of_isDirectoryAt hl), if_neg h, isDirectoryAt]

theorem follow?_congr (h : t'.isDirectoryAt = t.isDirectoryAt) (l : Location) (parts : List String) :
    t'.follow? l parts = t.follow? l parts := by
  induction parts generalizing l with
  | nil => rfl
  | cons part parts ih =>
    unfold follow?
    rw [h]
    simp only [ih]

/-- The file that is put is found at the paths that lead to its place, and everything else is as before. -/
theorem file?_put (hl : t.isDirectoryAt l = false) (path : String) : (t.put l (.file bytes time)).file? path =
    if t.locate? path = some l then some (bytes, time) else t.file? path := by
  have hlocate : (t.put l (.file bytes time)).locate? path = t.locate? path := by
    unfold locate?
    rw [follow?_congr (funext (isDirectoryAt_put hl))]
    rfl
  unfold file? look?
  rw [hlocate]
  rcases t.locate? path with _ | place
  · rfl
  · rw [Option.bind_some, Option.bind_some, entryAt?_put (ne_nil_of_isDirectoryAt hl)]
    by_cases h : place = l
    · rw [if_pos h, if_pos (congrArg some h)]
    · rw [if_neg h, if_neg fun heq => h (Option.some.inj heq)]

/-- A file is rewritten by putting one with a later time in its place. -/
theorem rewritten_put {b : ByteArray} {old : Int} (hl : t.entryAt? l = some (.file b old)) (hlater : old < time) :
    t.Rewritten (t.put l (.file bytes time)) := by
  have hdirectory : t.isDirectoryAt l = false := by
    unfold isDirectoryAt
    rw [hl]
  intro path
  rw [file?_put hdirectory]
  split
  · next hpath =>
    exact .inr ⟨b, old, bytes, time, file?_eq_some_iff.mpr ⟨l, hpath, hl⟩, rfl, hlater⟩
  · exact .inl rfl

/-- A file that is written with a time later than that of any file renews the tree, also where there was none. -/
theorem renewed_put (hl : t.isDirectoryAt l = false) (hbefore : t.Before time) :
    t.Renewed (t.put l (.file bytes time)) := by
  intro path
  rw [file?_put hl]
  split
  · exact .inr ⟨bytes, time, rfl, hbefore⟩
  · exact .inl rfl

/-- The times of all files in the tree are earlier. -/
theorem before_of_entries (h : ∀ entry ∈ t.entries, ∀ bytes old, entry.2 = .file bytes old → old < time) :
    t.Before time := by
  intro path bytes old hfile
  obtain ⟨l, -, hl⟩ := file?_eq_some_iff.mp hfile
  unfold entryAt? at hl
  split at hl
  · cases hl
  · obtain ⟨front, rest, hentries, -⟩ := List.lookup_eq_some_iff.mp hl
    refine h (l, .file bytes old) ?_ bytes old rfl
    rw [hentries]
    exact List.mem_append_right front List.mem_cons_self

end Put

end FileTree

/-! ## Reading -/

namespace FileLoader

variable {σ : Type} {files : FileLoader} {t t' : FileTree} {name : String} {source : Source}

/-- What is read is a file that is found at its path. -/
theorem exists_file?_of_read (h : files.read t name = .ok source) :
    ∃ path bytes time, files.path? t name = some path ∧ t.file? path = some (bytes, time) ∧
      source.name = name ∧ source.path = some path ∧ source.modified = some time := by
  unfold read at h
  rcases hp : files.path? t name with _ | path <;> rw [hp] at h
  · cases h
  · dsimp only at h
    rcases ht : t.text? path with _ | text <;> rw [ht] at h
    · cases h
    · cases h
      have hfile := List.find?_some hp
      rw [FileTree.isFile_eq_isSome, Option.isSome_iff_exists] at hfile
      obtain ⟨⟨bytes, time⟩, hfile⟩ := hfile
      exact ⟨path, bytes, time, rfl, hfile, rfl, rfl, FileTree.modified?_of_file? hfile⟩

theorem reads_sources (files : FileLoader) (t : FileTree) : (files.sources t : Sources σ).Reads (files.read t) where
  source_eq _ := rfl
  name_eq h := by
    obtain ⟨_, _, _, _, _, hname, _⟩ := exists_file?_of_read h
    exact hname

/-- What is read depends on the path of the file and on what is there. -/
theorem read_congr {path : String} {bytes : ByteArray} {time : Int} (hp : files.path? t name = some path)
    (hp' : files.path? t' name = some path) (hf : t.file? path = some (bytes, time))
    (heq : t'.file? path = t.file? path) : files.read t' name = files.read t name := by
  have hf' := heq.trans hf
  unfold read
  rw [hp, hp']
  simp only [FileTree.text?_eq, heq, FileTree.modified?_of_file? hf, FileTree.modified?_of_file? hf']

/-- Where the same paths lead to files, the file of a template is found at the same one. -/
theorem path?_congr (h : t'.isFile = t.isFile) (name : String) : files.path? t' name = files.path? t name := by
  rw [path?, path?, h]

theorem find?_eq_some_of_imp {α : Type} {p q : α → Bool} {as : List α} {a : α} (h : as.find? p = some a)
    (hqp : ∀ a, q a = true → p a = true) (ha : q a = true) : as.find? q = some a := by
  rw [List.find?_eq_some_iff_append] at h ⊢
  obtain ⟨-, front, rest, rfl, hfront⟩ := h
  refine ⟨ha, front, rest, rfl, fun b hb => ?_⟩
  have hp := hfront b hb
  rw [Bool.not_eq_true'] at hp ⊢
  by_contra hq
  rw [Bool.not_eq_false] at hq
  rw [hqp b hq] at hp
  exact Bool.false_ne_true hp.symm

/-- Where no file has gone, a file that is found now and was there before was found before. -/
theorem path?_eq_of_advances {path : String} {bytes : ByteArray} {time : Int} (h : t.Advances t')
    (hp : files.path? t' name = some path) (hf : t.file? path = some (bytes, time)) :
    files.path? t name = some path := by
  refine find?_eq_some_of_imp hp (fun other hother => ?_) ?_
  · rw [FileTree.isFile_eq_isSome, Option.isSome_iff_exists] at hother ⊢
    obtain ⟨⟨b, old⟩, hother⟩ := hother
    obtain ⟨bytes, time, hnew, -⟩ := h.exists_file? hother
    exact ⟨(bytes, time), hnew⟩
  · rw [FileTree.isFile_eq_isSome, hf]
    rfl

/-- A template that is compiled without a cache comes from what is read. -/
theorem of_run_loader {u : Template} {s s' : Session σ}
    (h : ((files.loader t : Loader σ).template name).run.run s = (.ok u, s')) :
    ∃ source, files.read t name = .ok source ∧ (Template.compile (files.sources t) source).run.run s = (.ok u, s') := by
  obtain ⟨source, s₁, hread, hcompile⟩ := of_run_bind_eq_ok h
  have hpair := (Load.run_ofExcept s rfl).symm.trans hread
  rw [Prod.mk.injEq] at hpair
  obtain ⟨hsource, rfl⟩ := hpair
  exact ⟨source, hsource, hcompile⟩

/-- What is recorded of a template that is read: the path at which it is found and the time of the file there. -/
theorem exists_file?_of_recorded {d : Dependency} (h : d.Recorded (files.read t)) :
    ∃ path bytes time, files.path? t d.name = some path ∧ t.file? path = some (bytes, time) ∧ d.path = some path ∧
      d.modified = some time := by
  obtain ⟨source, hread, rfl⟩ := h
  obtain ⟨path, bytes, time, hp, hf, -, hpath, htime⟩ := exists_file?_of_read hread
  exact ⟨path, bytes, time, hp, hf, hpath, htime⟩

end FileLoader

/-! ## What is held -/

section Entries

variable {σ : Type} {files : FileLoader} {t t' : FileTree} {name : String} {e : CacheEntry}

/-- The entry was made from the files of the tree. -/
def CacheEntry.MadeAt (files : FileLoader) (t : FileTree) (name : String) (e : CacheEntry) : Prop :=
  ∃ source, ∃ s s' : Session Cache, files.read t name = .ok source ∧ e.modified = source.modified ∧
    (Template.compile (files.sources t) source).run.run s = (.ok e.template, s')

/-- The parents of a template that is held are those that were read. -/
theorem CacheEntry.MadeAt.recorded (h : e.MadeAt files t name) :
    ∀ d ∈ e.template.parents, d.Recorded (files.read t) := by
  obtain ⟨source, s, s', -, -, hcompile⟩ := h
  have hensures := (Template.ensures_compile (files.reads_sources t) source) s
  rw [hcompile] at hensures
  exact hensures.2 e.template rfl

/-- A parent that has not changed since it was recorded is read as before, if its name leads to the path that is
recorded. -/
theorem Dependency.Recorded.read_eq {d : Dependency} (h : d.Recorded (files.read t)) (ht : t.Advances t')
    (hp : files.path? t' d.name = d.path) (hs : d.isStale t' = false) :
    files.read t' d.name = files.read t d.name := by
  obtain ⟨path, bytes, time, hpath, hf, hd, htime⟩ := FileLoader.exists_file?_of_recorded h
  rw [Dependency.isStale, hd, htime] at hs
  exact FileLoader.read_congr hpath (hp.trans hd) hf (ht.file?_eq hf hs)

/-- **What is held as current is what would be compiled now**, if the template and its parents are found at the paths
at which they were found. -/
theorem CacheEntry.MadeAt.eq_of_isCurrent {u : Template} {s s' : Session σ} (h : e.MadeAt files t name)
    (ht : t.Advances t') (hname : files.path? t' name = files.path? t name)
    (hparents : ∀ d ∈ e.template.parents, files.path? t' d.name = d.path) (hc : e.isCurrent files t' name = true)
    (hu : ((files.loader t' : Loader σ).template name).run.run s = (.ok u, s')) : e.template = u := by
  have hrecorded := h.recorded
  obtain ⟨source, s₀, s₁, hread, htime, hcompile⟩ := h
  obtain ⟨path, bytes, time, hp, hf, -, -, hmodified⟩ := FileLoader.exists_file?_of_read hread
  unfold CacheEntry.isCurrent at hc
  rw [hname, hp, htime, hmodified] at hc
  simp only [Bool.and_eq_true, Bool.not_eq_true', List.any_eq_false, Bool.not_eq_true] at hc
  obtain ⟨hown, hstale⟩ := hc
  have hsource := FileLoader.read_congr hp (hname.trans hp) hf (ht.file?_eq hf hown)
  obtain ⟨source', hread', hcompile'⟩ := FileLoader.of_run_loader hu
  rw [hsource, hread] at hread'
  cases hread'
  refine Template.eq_of_parents_read ⟨files.reads_sources t, files.reads_sources t', rfl⟩ hcompile hcompile' ?_
  intro d hd
  exact ((hrecorded d hd).read_eq ht (hparents d hd) (hstale d hd)).symm

end Entries

end Stencil
