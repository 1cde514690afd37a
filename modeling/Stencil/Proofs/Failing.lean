import Stencil.Proofs.Building
import Stencil.Proofs.Linking
import Stencil.Memory

/-!
# How computations fail

A computation `FailsOnly` with errors of a kind if it gives no others. There is a rule for each way in which
computations are made up, so that this is read off a definition part by part.

Compiling a template fails with nothing but failures of loading (`Template.compile_failsOnly`): none of them is put down
to an instruction that is run.
-/

namespace Stencil

open Script (Expr)

/-! ## The failures of a computation -/

/-- The computation fails with nothing but errors of a kind. -/
def FailsOnly {τ α : Type} (P : Error → Prop) (x : ExceptT Error (StateM τ) α) : Prop :=
  ∀ s e, (x.run.run s).1 = .error e → P e

namespace FailsOnly

variable {τ α β : Type} {P : Error → Prop}

theorem pure (a : α) : FailsOnly P (pure a : ExceptT Error (StateM τ) α) := fun _ _ => nofun

theorem throw {e : Error} (h : P e) : FailsOnly P (throw e : ExceptT Error (StateM τ) α) := by
  rintro s _ ⟨⟩
  exact h

theorem bind {x : ExceptT Error (StateM τ) α} {f : α → ExceptT Error (StateM τ) β} (h : FailsOnly P x)
    (hf : ∀ a, FailsOnly P (f a)) : FailsOnly P (x >>= f) := by
  intro s e he
  rcases hx : x.run.run s with ⟨r, s'⟩
  cases r with
  | ok a =>
    rw [run_bind_of_ok hx] at he
    exact hf a s' e he
  | error e' =>
    rw [run_bind_of_error hx] at he
    cases he
    exact h s e (congrArg Prod.fst hx)

theorem mapM {f : α → ExceptT Error (StateM τ) β} (hf : ∀ a, FailsOnly P (f a)) (as : List α) :
    FailsOnly P (as.mapM f) := by
  induction as with
  | nil =>
    rw [List.mapM_nil]
    exact .pure []
  | cons a as ih =>
    rw [List.mapM_cons]
    exact (hf a).bind fun b => ih.bind fun bs => .pure (b :: bs)

theorem forM {f : α → ExceptT Error (StateM τ) Unit} (hf : ∀ a, FailsOnly P (f a)) (as : List α) :
    FailsOnly P (as.forM f) := by
  induction as with
  | nil => exact .pure ()
  | cons a as ih => exact (hf a).bind fun _ => ih

theorem foldlM {f : β → α → ExceptT Error (StateM τ) β} (hf : ∀ b a, FailsOnly P (f b a)) (as : List α) (b : β) :
    FailsOnly P (as.foldlM f b) := by
  induction as generalizing b with
  | nil => exact .pure b
  | cons a as ih =>
    rw [List.foldlM_cons]
    exact (hf b a).bind fun b' => ih b'

variable {κ σ : Type}

theorem ofExcept {x : Except Error α} (h : ∀ e, x = .error e → P e) : FailsOnly P (Load.ofExcept x : Load σ α) :=
  fun _ e he => h e he

theorem warn (w : Warning) : FailsOnly P (Load.warn w : Load σ Unit) := fun _ _ => nofun

theorem own : FailsOnly P (Work.own : Work κ σ κ) := fun _ _ => nofun

theorem update (f : κ → κ) : FailsOnly P (Work.update f : Work κ σ Unit) := fun _ _ => nofun

theorem ofLoad {x : Load σ α} (h : FailsOnly P x) : FailsOnly P (Work.ofLoad x : Work κ σ α) := by
  rintro ⟨k, session⟩ e he
  rcases hx : x.run.run session with ⟨r, session'⟩
  rw [Work.run_ofLoad k hx] at he
  cases he
  exact h session e (congrArg Prod.fst hx)

theorem runFrom {x : Work κ σ α} (h : FailsOnly P x) (k : κ) : FailsOnly P (x.runFrom k) := by
  intro session e he
  rcases hx : x.run.run (k, session) with ⟨r, k', session'⟩
  rw [Work.run_runFrom hx] at he
  cases r with
  | ok a => cases he
  | error e' =>
    cases he
    exact h (k, session) e (congrArg Prod.fst hx)

end FailsOnly

/-! ## Compiling does not fail as rendering does -/

/-- The failure is none of an instruction that is run. -/
def Error.OfLoading (e : Error) : Prop := ∀ position fault, e ≠ .render position fault

section Loading

variable {σ : Type} {sources : Sources σ}

theorem Source.tokens_ofLoading {m : Markup} {source : Source} {e : Error} (h : source.tokens m = .error e) :
    e.OfLoading := by
  unfold Source.tokens at h
  split at h
  · cases h
  · cases h
    exact nofun

theorem Lineage.refusal?_ofLoading {l : Lineage} {origin : String} {p : Parent} {e : Error}
    (h : l.refusal? origin p = some e) : e.OfLoading := by
  unfold Lineage.refusal? at h
  split at h
  · cases h
    exact nofun
  · split at h
    · cases h
      exact nofun
    · cases h

/-- What is asked of ancestors fails with nothing but failures of loading. -/
def Ancestry.Loads (ancestor : Ancestry σ) : Prop := ∀ stops, FailsOnly Error.OfLoading (ancestor stops)

theorem parentBlock_failsOnly {ancestor : Ancestry σ} (h : ancestor.Loads) (name : BlockName) (line : Nat) :
    FailsOnly Error.OfLoading (parentBlock ancestor name line) := by
  have hsuper (position : Position) : Error.OfLoading (.superWithoutParent position name.describe) := nofun
  unfold parentBlock
  refine FailsOnly.own.bind fun l => ?_
  cases name with
  | named name =>
    have hrest := (h fun layer => layer.settles (.named name)).bind fun r =>
      .pure (r.bind fun layer => layer.block? (.named name))
    dsimp only
    split
    · exact (FailsOnly.throw (hsuper _)).bind fun _ => hrest
    · exact hrest
  | anonymous place =>
    have hrest := (h fun _ => true).bind fun _ => .pure (none : Option Block)
    dsimp only
    split
    · exact (FailsOnly.throw (hsuper _)).bind fun _ => hrest
    · exact hrest

theorem Draft.build_failsOnly {ancestor : Ancestry σ} (h : ancestor.Loads) (chain : List String) (origin : String)
    (nodes : List Node) : FailsOnly Error.OfLoading (build ancestor chain origin nodes) := by
  refine FailsOnly.foldlM (fun d node => ?_) nodes _
  unfold add
  split
  · split
    · exact (FailsOnly.warn _).bind fun _ => .pure _
    · exact .pure _
  · split
    · exact (FailsOnly.warn _).bind fun _ => .pure _
    · exact .pure _
  · exact .pure _
  · exact ((parentBlock_failsOnly h _ _).runFrom _).bind fun _ => .pure _
  · exact .pure _

theorem nearest_loads (h : ∀ name, FailsOnly Error.OfLoading (sources.source name)) (steps : Nat) :
    Ancestry.Loads (nearest sources steps) := by
  induction steps with
  | zero => exact fun _ => .pure none
  | succ steps ih =>
    intro stops
    have hread (l : Lineage) (p : Parent) : FailsOnly Error.OfLoading (readParent sources steps stops l p) := by
      refine (h p.name).ofLoad.bind fun source => ?_
      refine (FailsOnly.ofExcept fun e he => Source.tokens_ofLoading he).ofLoad.bind fun tokens => ?_
      refine (Draft.build_failsOnly ih _ _ _).ofLoad.bind fun d => ?_
      exact (FailsOnly.update _).bind fun _ => ih stops
    unfold nearest
    refine FailsOnly.own.bind fun l => ?_
    split
    · exact .pure _
    · exact .pure _
    · split
      · next he => exact (FailsOnly.throw (Lineage.refusal?_ofLoading he)).bind fun _ => hread _ _
      · exact hread _ _

theorem ancestry_loads (h : ∀ name, FailsOnly Error.OfLoading (sources.source name)) : (ancestry sources).Loads :=
  nearest_loads h _

theorem BlockSet.instructions_failsOnly (h : ∀ name, FailsOnly Error.OfLoading (sources.source name)) (set : BlockSet) :
    FailsOnly Error.OfLoading (set.instructions sources) := by
  have horder : FailsOnly Error.OfLoading (set.order sources) := (ancestry_loads h _).bind fun _ => .pure _
  have hat (name : BlockName) : FailsOnly Error.OfLoading (set.instructionsAt sources name) := by
    unfold instructionsAt block
    split
    · exact (FailsOnly.pure _).bind fun _ => .pure _
    · exact ((ancestry_loads h _).bind fun _ => .pure _).bind fun _ => .pure _
  have hgather (order : List BlockName) : FailsOnly Error.OfLoading
      (do return (← order.mapM (set.instructionsAt sources)).flatten : Ascent σ (List Located)) :=
    (FailsOnly.mapM hat order).bind fun _ => .pure _
  have horphans (order : List BlockName) : FailsOnly Error.OfLoading (set.warnOrphans order : Load σ Unit) := by
    refine FailsOnly.forM (fun b => ?_) _
    split
    · exact .pure ()
    · exact .warn _
  refine horder.bind fun order => ?_
  split
  · exact (horphans order).ofLoad.bind fun _ => hgather order
  · exact hgather order

theorem Program.link_ofLoading {origin : String} {ls : List Located} {e : Error}
    (h : Program.link origin ls = .error e) : e.OfLoading := by
  rcases Program.link_cases origin ls with ⟨⟨p, hp⟩, -⟩ | ⟨place, l, fault, -, -, herror⟩
  · rw [h] at hp
    cases hp
  · rw [h] at herror
    cases herror
    exact nofun

/-- Compiling fails with nothing but failures of loading. -/
theorem Template.compile_failsOnly (h : ∀ name, FailsOnly Error.OfLoading (sources.source name)) (source : Source) :
    FailsOnly Error.OfLoading (Template.compile sources source) := by
  refine (FailsOnly.ofExcept fun e he => Source.tokens_ofLoading he).bind fun tokens => ?_
  refine ((Draft.build_failsOnly (ancestry_loads h) _ _ _).bind fun d => .pure _).bind fun set => ?_
  refine ((set.instructions_failsOnly h).runFrom _).bind fun r => ?_
  exact (FailsOnly.ofExcept fun e he => Program.link_ofLoading he).bind fun _ => .pure _

theorem Loader.direct_failsOnly (h : ∀ name, FailsOnly Error.OfLoading (sources.source name)) (name : String) :
    FailsOnly Error.OfLoading ((Loader.direct sources).template name) :=
  (h name).bind fun source => Template.compile_failsOnly h source

theorem Sources.inMemory_failsOnly (m : Markup) (texts : Bindings String) (name : String) :
    FailsOnly Error.OfLoading ((Sources.inMemory m texts : Sources σ).source name) := by
  unfold Sources.inMemory
  dsimp only
  split
  · exact .pure _
  · exact .throw nofun

end Loading

end Stencil
