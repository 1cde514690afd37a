import Stencil.FileLoader

/-!
# Cached templates

A cache holds compiled templates with the times at which their files were last changed. A template is compiled again if
its file, or that of one of its ancestors, has changed since; if its file is gone, the one held is still given.

A template that is asked for takes a slot under its name before anything is known of it. If it fails to compile and
nothing was held, the slot is released again; what was held stays in it otherwise.
-/

namespace Stencil

/-- A compiled template, the time of the last change of its file, and its number among all that were compiled. -/
structure CacheEntry where
  template : Template
  modified : Option Int
  number : Nat
  deriving Repr

/-- Slots for compiled templates by name, and the number of templates compiled so far. A slot in which nothing is held
yet is empty. -/
structure Cache where
  slots : Bindings (Option CacheEntry)
  compiled : Nat
  deriving Repr

namespace Cache

/-- No slot is taken. -/
def empty : Cache := ⟨[], 0⟩

/-- The slot of a name, if it is taken. -/
def slot? (c : Cache) (name : String) : Option (Option CacheEntry) := Bindings.get? c.slots name

/-- What the slot of a name holds. -/
def find? (c : Cache) (name : String) : Option CacheEntry := (c.slot? name).join

/-- A template is held under the name. -/
def holds (c : Cache) (name : String) : Bool := (c.find? name).isSome

/-- Takes the slot of a name, an empty one if it is not taken yet. -/
def take (c : Cache) (name : String) : Cache :=
  match c.slot? name with
  | some _ => c
  | none => { c with slots := Bindings.set name none c.slots }

/-- Gives up the slot of a name if nothing is held in it. -/
def release (c : Cache) (name : String) : Cache :=
  match c.find? name with
  | some _ => c
  | none => { c with slots := Bindings.erase name c.slots }

/-- Holds a compiled template. -/
def insert (c : Cache) (name : String) (t : Template) (modified : Option Int) : Cache :=
  ⟨Bindings.set name (some ⟨t, modified, c.compiled⟩) c.slots, c.compiled + 1⟩

/-- Drops the template of a name. -/
def invalidate (c : Cache) (name : String) : Cache := { c with slots := Bindings.erase name c.slots }

/-- Drops all templates. -/
def clear (c : Cache) : Cache := { c with slots := [] }

/-- Changes the cache of the session. -/
def change (f : Cache → Cache) : Load Cache Unit := modify fun s => { s with state := f s.state }

variable {c : Cache} {name : String}

theorem find?_eq_some_iff {e : CacheEntry} : c.find? name = some e ↔ c.slot? name = some (some e) := by
  simp [find?, Option.join_eq_some_iff]

/-- A slot that is taken already is left as it is. -/
theorem take_of_find?_eq_some {e : CacheEntry} (h : c.find? name = some e) : c.take name = c := by
  rw [take, find?_eq_some_iff.mp h]

@[simp] theorem find?_take (c : Cache) (name other : String) : (c.take name).find? other = c.find? other := by
  unfold take
  split
  · rfl
  · next h =>
    simp only [find?, slot?, Bindings.get?_set] at h ⊢
    split
    · next heq => rw [← heq, h]; rfl
    · rfl

@[simp] theorem find?_release (c : Cache) (name other : String) : (c.release name).find? other = c.find? other := by
  unfold release
  split
  · rfl
  · next h =>
    simp only [find?, slot?, Bindings.get?_erase] at h ⊢
    split
    · next heq => rw [← heq, h]; rfl
    · rfl

end Cache

/-- What is held is still what the files say, or its file is gone. -/
def CacheEntry.isCurrent (e : CacheEntry) (files : FileLoader) (tree : FileTree) (name : String) : Bool :=
  match files.path? tree name with
  | none => true
  | some path => !isLater (tree.modified? path) e.modified && !e.template.parents.any (Dependency.isStale tree)

namespace FileLoader

/-- Compiles the file of a template and holds it. -/
def fillSlot (files : FileLoader) (tree : FileTree) (name : String) : Load Cache Template := do
  let source ← Load.ofExcept (files.read tree name)
  let t ← Template.compile (files.sources tree) source
  Cache.change (·.insert name t source.modified)
  return t

/-- Compiles the file of a template into its slot, and releases a slot that is still empty if that fails. -/
def compileIntoCache (files : FileLoader) (tree : FileTree) (name : String) : Load Cache Template :=
  tryCatch (fillSlot files tree name) fun e => do
    Cache.change (·.release name)
    throw e

/-- Gives the template that is held as long as it is current. -/
def cachedTemplate (files : FileLoader) (tree : FileTree) (name : String) : Load Cache Template := do
  Cache.change (·.take name)
  match (← get).state.find? name with
  | some e => if e.isCurrent files tree name then return e.template else compileIntoCache files tree name
  | none => compileIntoCache files tree name

/-- A loader with a cache. -/
def cachedLoader (files : FileLoader) (tree : FileTree) : Loader Cache where
  toSources := files.sources tree
  template := files.cachedTemplate tree

end FileLoader

end Stencil
