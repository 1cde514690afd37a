/-!
# Bindings

A list of bindings maps names to things. `set` keeps the names in the order of their code points, which is also the
order of their UTF-8 bytes, so bindings that were built by `set` alone list each name once and in order. What a name
is bound to after each operation is said by `get?_set` and `get?_erase`.
-/

namespace Stencil

/-- Names and what they are bound to. -/
abbrev Bindings (α : Type) := List (String × α)

namespace Bindings

variable {α : Type}

/-- What the name is bound to. -/
def get? : Bindings α → String → Option α
  | [], _ => none
  | (k, v) :: rest, name => if k = name then some v else get? rest name

/-- Binds a name, in place of what it was bound to. -/
def set (name : String) (value : α) : Bindings α → Bindings α
  | [] => [(name, value)]
  | (k, v) :: rest =>
    if k = name then (name, value) :: rest
    else if name < k then (name, value) :: (k, v) :: rest
    else (k, v) :: set name value rest

/-- Removes a name. -/
def erase (name : String) : Bindings α → Bindings α
  | [] => []
  | (k, v) :: rest => if k = name then erase name rest else (k, v) :: erase name rest

/-- Binds the names of the first bindings on top of the second ones; the last binding of a name wins. -/
def merge (new old : Bindings α) : Bindings α := new.foldl (fun b (k, v) => set k v b) old

/-- The names in order, each with its last binding. -/
def ofList (pairs : List (String × α)) : Bindings α := merge pairs []

@[simp] theorem get?_nil (name : String) : get? ([] : Bindings α) name = none := rfl

theorem get?_set (name other : String) (value : α) (b : Bindings α) :
    get? (set name value b) other = if name = other then some value else get? b other := by
  induction b with
  | nil => rfl
  | cons p rest ih =>
    obtain ⟨k, v⟩ := p
    unfold set
    split
    · next h => subst h; simp only [get?]; split <;> rfl
    · next h =>
      split
      · simp only [get?]
      · simp only [get?, ih]
        by_cases hk : k = other
        · subst hk; simp [Ne.symm h]
        · simp [hk]

@[simp] theorem get?_set_self (name : String) (value : α) (b : Bindings α) :
    get? (set name value b) name = some value := by simp [get?_set]

theorem get?_set_of_ne {name other : String} (h : name ≠ other) (value : α) (b : Bindings α) :
    get? (set name value b) other = get? b other := by simp [get?_set, h]

theorem get?_erase (name other : String) (b : Bindings α) :
    get? (erase name b) other = if name = other then none else get? b other := by
  induction b with
  | nil => simp [erase]
  | cons p rest ih =>
    obtain ⟨k, v⟩ := p
    unfold erase
    split
    · next h => subst h; rw [ih]; split <;> simp_all [get?]
    · next h =>
      simp only [get?, ih]
      by_cases hk : k = other
      · subst hk; simp [Ne.symm h]
      · simp [hk]

theorem erase_of_get?_eq_none {name : String} {b : Bindings α} (h : get? b name = none) : erase name b = b := by
  induction b with
  | nil => rfl
  | cons p rest ih =>
    obtain ⟨k, v⟩ := p
    rw [get?] at h
    split at h
    · cases h
    · next hk => rw [erase, if_neg hk, ih h]

/-- A name that was bound to nothing is bound and removed again. -/
theorem erase_set {name : String} {b : Bindings α} (h : get? b name = none) (value : α) :
    erase name (set name value b) = b := by
  induction b with
  | nil => simp [set, erase]
  | cons p rest ih =>
    obtain ⟨k, v⟩ := p
    have hrest := h
    rw [get?] at hrest
    split at hrest
    · cases hrest
    · next hk =>
      rw [set, if_neg hk]
      split
      · rw [erase, if_pos rfl, erase_of_get?_eq_none h]
      · rw [erase, if_neg hk, ih hrest]

end Bindings

end Stencil
