import Stencil.Memory
import Stencil.Proofs.Building

/-!
# What a template is built from

Compiling leaves the state of the session alone and reads sources by name. What it has read is recorded: the parents of
a template are what is read under their names (`Template.ensures_compile`).

- A load `Ensures` a property if it leaves the state alone and what it gives has the property.
- Work on a lineage `Grows` it if nothing but ancestors that are read comes behind it. Looking for an ancestor does
  (`nearest_grows`), by induction on the steps that are left, and a parent that is read is the next ancestor
  (`readParent_ensures`).
- Only a node that names a parent takes ancestors away from a draft, and it takes all of them
  (`Draft.ensures_add_inherits`, `Draft.ensures_add`).
-/

namespace Stencil

/-! ## Loads that leave the state alone -/

namespace Load

variable {σ α β : Type} {P : α → Prop} {Q : β → Prop}

/-- The load leaves the state of the session alone, and what it gives has the property. -/
def Ensures (P : α → Prop) (x : Load σ α) : Prop :=
  ∀ s, (x.run.run s).2.state = s.state ∧ ∀ a, (x.run.run s).1 = .ok a → P a

theorem Ensures.mono {P' : α → Prop} {x : Load σ α} (h : Ensures P x) (hP : ∀ a, P a → P' a) : Ensures P' x :=
  fun s => ⟨(h s).1, fun a ha => hP a ((h s).2 a ha)⟩

theorem Ensures.pure {a : α} (h : P a) : Ensures P (pure a : Load σ α) := by
  refine fun s => ⟨rfl, ?_⟩
  rintro _ ⟨⟩
  exact h

theorem Ensures.throw (e : Error) : Ensures P (throw e : Load σ α) := fun _ => ⟨rfl, nofun⟩

theorem Ensures.bind {x : Load σ α} {f : α → Load σ β} (h : Ensures P x) (hf : ∀ a, P a → Ensures Q (f a)) :
    Ensures Q (x >>= f) := by
  intro s
  obtain ⟨hstate, hP⟩ := h s
  rcases hx : x.run.run s with ⟨r, s'⟩
  rw [hx] at hstate hP
  cases r with
  | ok a =>
    rw [run_bind_of_ok hx]
    have := hf a (hP a rfl) s'
    exact ⟨this.1.trans hstate, this.2⟩
  | error e =>
    rw [run_bind_of_error hx]
    exact ⟨hstate, nofun⟩

theorem ensures_ofExcept {x : Except Error α} (h : ∀ a, x = .ok a → P a) : Ensures P (ofExcept x : Load σ α) :=
  fun _ => ⟨rfl, h⟩

theorem ensures_warn (w : Warning) : Ensures (fun _ => True) (warn w : Load σ Unit) :=
  fun _ => ⟨rfl, fun _ _ => trivial⟩

theorem Ensures.foldlM {γ : Type} {f : α → γ → Load σ α} (hf : ∀ a c, P a → Ensures P (f a c)) {cs : List γ} {a : α}
    (ha : P a) : Ensures P (cs.foldlM f a) := by
  induction cs generalizing a with
  | nil => exact .pure ha
  | cons c cs ih =>
    rw [List.foldlM_cons]
    exact (hf a c ha).bind fun _ => ih

theorem Ensures.forM {γ : Type} {f : γ → Load σ Unit} (hf : ∀ c, Ensures (fun _ => True) (f c)) (cs : List γ) :
    Ensures (fun _ => True) (cs.forM f) := by
  induction cs with
  | nil => exact .pure trivial
  | cons c cs ih => exact (hf c).bind fun _ _ => ih

end Load

/-! ## What is read on the way -/

/-- The instructions of the blocks in an order. -/
def BlockSet.gather {σ : Type} (sources : Sources σ) (set : BlockSet) (order : List BlockName) :
    Ascent σ (List Located) := do
  if set.lineage.parent.isSome then Work.ofLoad (set.warnOrphans order)
  return (← order.mapM (set.instructionsAt sources)).flatten

/-- The sources are those that a function gives, each under the name that it is asked for. -/
structure Sources.Reads {σ : Type} (sources : Sources σ) (read : String → Except Error Source) : Prop where
  source_eq : ∀ name, sources.source name = Load.ofExcept (read name)
  name_eq : ∀ {name source}, read name = .ok source → source.name = name

/-- What is read under a name where the texts are held in memory. -/
def Source.ofTexts (texts : Bindings String) (name : String) : Except Error Source :=
  match Bindings.get? texts name with
  | some text => .ok (Source.inMemory name text)
  | none => .error (.unknownTemplate [] name)

theorem Source.ofTexts_eq_ok_iff {texts : Bindings String} {name : String} {source : Source} :
    Source.ofTexts texts name = .ok source ↔
      ∃ text, Bindings.get? texts name = some text ∧ source = Source.inMemory name text := by
  unfold Source.ofTexts
  rcases Bindings.get? texts name with _ | text
  · exact ⟨nofun, nofun⟩
  · simp [eq_comm]

theorem Sources.reads_inMemory {σ : Type} (m : Markup) (texts : Bindings String) :
    (Sources.inMemory m texts : Sources σ).Reads (Source.ofTexts texts) where
  source_eq name := by
    simp only [Sources.inMemory, Source.ofTexts]
    rcases Bindings.get? texts name with _ | text <;> rfl
  name_eq h := by
    obtain ⟨text, -, rfl⟩ := Source.ofTexts_eq_ok_iff.mp h
    rfl

/-- This is what is read under the name now. -/
def Dependency.Recorded (read : String → Except Error Source) (d : Dependency) : Prop :=
  ∃ source, read d.name = .ok source ∧ source.dependency = d

/-- A lineage with further ancestors behind, all of them read. -/
structure Lineage.Grown (read : String → Except Error Source) (l l' : Lineage) : Prop where
  chain : l'.chain = l.chain
  origin : l'.origin = l.origin
  parent : l'.parent = l.parent
  ancestors : ∃ more, l'.ancestors = l.ancestors ++ more ∧ ∀ a ∈ more, a.dependency.Recorded read

/-- All ancestors of a lineage are read. -/
def Lineage.Recorded (read : String → Except Error Source) (l : Lineage) : Prop :=
  ∀ a ∈ l.ancestors, a.dependency.Recorded read

section Growth

variable {σ α β : Type} {read : String → Except Error Source} {l l' l'' : Lineage}

theorem Lineage.Grown.refl (l : Lineage) : l.Grown read l :=
  ⟨rfl, rfl, rfl, [], (List.append_nil _).symm, nofun⟩

theorem Lineage.Grown.trans (h : l.Grown read l') (h' : l'.Grown read l'') : l.Grown read l'' := by
  obtain ⟨more, hl, hmore⟩ := h.ancestors
  obtain ⟨more', hl', hmore'⟩ := h'.ancestors
  refine ⟨h'.chain.trans h.chain, h'.origin.trans h.origin, h'.parent.trans h.parent, more ++ more', ?_, ?_⟩
  · rw [hl', hl, List.append_assoc]
  · intro a ha
    rcases List.mem_append.mp ha with ha | ha
    · exact hmore a ha
    · exact hmore' a ha

theorem Lineage.Grown.recorded (h : l.Grown read l') (hl : l.Recorded read) : l'.Recorded read := by
  obtain ⟨more, hmore, hread⟩ := h.ancestors
  intro a ha
  rw [hmore] at ha
  rcases List.mem_append.mp ha with ha | ha
  · exact hl a ha
  · exact hread a ha

/-- The work only puts ancestors behind the lineage that have been read. -/
def Ascent.Grows (read : String → Except Error Source) (x : Ascent σ α) : Prop :=
  ∀ l, Load.Ensures (fun r => l.Grown read r.2) (x.runFrom l)

theorem Ascent.Grows.pure (a : α) : Ascent.Grows read (pure a : Ascent σ α) := fun l => .pure (.refl l)

theorem Ascent.Grows.throw (e : Error) : Ascent.Grows read (throw e : Ascent σ α) := fun _ => .throw e

theorem Ascent.Grows.own : Ascent.Grows read (Work.own : Ascent σ Lineage) := fun l => .pure (.refl l)

theorem Ascent.Grows.ofLoad {x : Load σ α} (h : Load.Ensures (fun _ => True) x) :
    Ascent.Grows read (Work.ofLoad x : Ascent σ α) := by
  intro l
  rw [Work.runFrom_ofLoad]
  exact h.bind fun _ _ => .pure (.refl l)

theorem Ascent.Grows.bind {x : Ascent σ α} {f : α → Ascent σ β} (h : Ascent.Grows read x)
    (hf : ∀ a, Ascent.Grows read (f a)) : Ascent.Grows read (x >>= f) := by
  intro l
  rw [Work.runFrom_bind]
  exact (h l).bind fun r hr => (hf r.1 r.2).mono fun _ hr' => hr.trans hr'

theorem Ascent.Grows.mapM {γ : Type} {f : γ → Ascent σ α} (hf : ∀ c, Ascent.Grows read (f c)) (cs : List γ) :
    Ascent.Grows read (cs.mapM f) := by
  induction cs with
  | nil =>
    rw [List.mapM_nil]
    exact .pure []
  | cons c cs ih =>
    rw [List.mapM_cons]
    exact (hf c).bind fun a => ih.bind fun as => .pure (a :: as)

/-- Ancestors are found by reading. -/
def Ancestry.Grows (read : String → Except Error Source) (ancestor : Ancestry σ) : Prop :=
  ∀ stops, Ascent.Grows read (ancestor stops)

theorem parentBlock_grows {ancestor : Ancestry σ} (h : Ancestry.Grows read ancestor) (name : BlockName) (line : Nat) :
    Ascent.Grows read (parentBlock ancestor name line) := by
  unfold parentBlock
  refine Ascent.Grows.own.bind fun l => ?_
  cases name with
  | named name =>
    have hrest := (h fun layer => layer.settles (.named name)).bind fun r =>
      .pure (r.bind fun layer => layer.block? (.named name))
    dsimp only
    split
    · exact (Ascent.Grows.throw _).bind fun _ => hrest
    · exact hrest
  | anonymous place =>
    have hrest := (h fun _ => true).bind fun _ => .pure (none : Option Block)
    dsimp only
    split
    · exact (Ascent.Grows.throw _).bind fun _ => hrest
    · exact hrest

/-- Where a node names the parent, nothing has been read yet. -/
theorem Draft.ensures_add_inherits (ancestor : Ancestry σ) (d : Draft) {node : Node} {name : String}
    (hkind : node.kind = .directive (.inherits name)) :
    Load.Ensures (· = start d.lineage.chain d.lineage.origin (some ⟨name, node.line⟩)) (add ancestor d node) := by
  unfold add
  rw [hkind]
  dsimp only
  split
  · exact (Load.ensures_warn _).bind fun _ _ => .pure rfl
  · exact .pure rfl

/-- Every other node keeps what has been read. -/
theorem Draft.ensures_add {ancestor : Ancestry σ} (h : Ancestry.Grows read ancestor) (d : Draft) {node : Node}
    (hkind : ∀ name, node.kind ≠ .directive (.inherits name)) :
    Load.Ensures (fun d' => d.lineage.Grown read d'.lineage) (add ancestor d node) := by
  unfold add
  split
  · next name hname => exact absurd hname (hkind name)
  · next name _ =>
    split
    · exact (Load.ensures_warn _).bind fun _ _ => .pure (.refl _)
    · exact .pure (.refl _)
  · exact .pure (.refl _)
  · exact (parentBlock_grows h _ _ _).bind fun r hr => .pure hr
  · exact .pure (.refl _)

/-- The draft belongs to the template at the end of the chain, and its ancestors are read. -/
structure Draft.Stands (read : String → Except Error Source) (chain : List String) (origin : String) (d : Draft) :
    Prop where
  chain : d.lineage.chain = chain
  origin : d.lineage.origin = origin
  recorded : d.lineage.Recorded read

theorem Draft.stands_start (chain : List String) (origin : String) (parent : Option Parent) :
    (start chain origin parent).Stands read chain origin := ⟨rfl, rfl, nofun⟩

theorem Draft.stands_add {ancestor : Ancestry σ} (h : Ancestry.Grows read ancestor) {chain : List String}
    {origin : String} {d : Draft} (hd : d.Stands read chain origin) (node : Node) :
    Load.Ensures (Draft.Stands read chain origin) (add ancestor d node) := by
  by_cases hkind : ∃ name, node.kind = .directive (.inherits name)
  · obtain ⟨name, hkind⟩ := hkind
    refine (ensures_add_inherits ancestor d hkind).mono ?_
    rintro d' rfl
    rw [hd.chain, hd.origin]
    exact stands_start ..
  · refine (ensures_add h d (not_exists.mp hkind)).mono fun d' hgrown => ?_
    exact ⟨hgrown.chain.trans hd.chain, hgrown.origin.trans hd.origin, hgrown.recorded hd.recorded⟩

theorem Draft.stands_build {ancestor : Ancestry σ} (h : Ancestry.Grows read ancestor) (chain : List String)
    (origin : String) (nodes : List Node) :
    Load.Ensures (Draft.Stands read chain origin) (build ancestor chain origin nodes) :=
  Load.Ensures.foldlM (fun _ node hd => stands_add h hd node) (stands_start ..)

section Sources

variable {sources : Sources σ}

/-- What a parent that is read leaves behind: it is the next ancestor. -/
theorem readParent_ensures (h : sources.Reads read) {steps : Nat} (ih : Ancestry.Grows read (nearest sources steps))
    (stops : Layer → Bool) (l : Lineage) (p : Parent) (l₀ : Lineage) :
    Load.Ensures (fun r => l₀.Grown read r.2 ∧ ∃ source layer more, read p.name = .ok source ∧
      r.2.ancestors = l₀.ancestors ++ ⟨source.dependency, layer⟩ :: more)
      ((readParent sources steps stops l p).runFrom l₀) := by
  simp only [readParent, Work.runFrom_bind, Work.runFrom_ofLoad, Work.runFrom_update, bind_assoc, pure_bind,
    h.source_eq]
  refine (Load.ensures_ofExcept fun _ hread => hread).bind fun source hread => ?_
  refine (Load.ensures_ofExcept fun _ _ => trivial).bind fun tokens _ => ?_
  refine (Draft.stands_build ih _ _ _).bind fun d hd => ?_
  refine (ih stops _).mono fun r hr => ?_
  have hsource : source.dependency.Recorded read := by
    refine ⟨source, ?_, rfl⟩
    rw [Source.dependency, h.name_eq hread]
    exact hread
  have hextend : l₀.Grown read (l₀.extend (⟨source.dependency, d.layer⟩ :: d.lineage.ancestors)) := by
    refine ⟨rfl, rfl, rfl, _, rfl, ?_⟩
    intro a ha
    rcases List.mem_cons.mp ha with rfl | ha
    · exact hsource
    · exact hd.recorded a ha
  refine ⟨hextend.trans hr, source, d.layer, ?_⟩
  obtain ⟨more, hmore, -⟩ := hr.ancestors
  refine ⟨d.lineage.ancestors ++ more, hread, ?_⟩
  rw [hmore, Lineage.extend, List.append_assoc, List.cons_append]

/-- Looking for an ancestor reads it and those before it. -/
theorem nearest_grows (h : sources.Reads read) (steps : Nat) : Ancestry.Grows read (nearest sources steps) := by
  induction steps with
  | zero => exact fun _ => .pure none
  | succ steps ih =>
    intro stops
    unfold nearest
    refine Ascent.Grows.own.bind fun l => ?_
    have hread (p : Parent) : Ascent.Grows read (readParent sources steps stops l p) :=
      fun l₀ => (readParent_ensures h ih stops l p l₀).mono fun _ hr => hr.1
    split
    · exact .pure _
    · exact .pure _
    · split
      · exact (Ascent.Grows.throw _).bind fun _ => hread _
      · exact hread _

theorem ancestry_grows (h : sources.Reads read) : Ancestry.Grows read (ancestry sources) := nearest_grows h _

theorem BlockSet.instructionsAt_grows (h : sources.Reads read) (set : BlockSet) (name : BlockName) :
    Ascent.Grows read (set.instructionsAt sources name) := by
  have hblock : Ascent.Grows read (set.block sources name) := by
    unfold BlockSet.block
    split
    · exact .pure _
    · exact (ancestry_grows h _).bind fun _ => .pure _
  exact hblock.bind fun _ => .pure _

theorem BlockSet.ensures_warnOrphans (set : BlockSet) (order : List BlockName) :
    Load.Ensures (fun _ => True) (set.warnOrphans order : Load σ Unit) := by
  refine Load.Ensures.forM (fun b => ?_) _
  split
  · exact .pure trivial
  · exact Load.ensures_warn _

theorem BlockSet.gather_grows (h : sources.Reads read) (set : BlockSet) (order : List BlockName) :
    Ascent.Grows read (set.gather sources order) := by
  have hparts : Ascent.Grows read (do return (← order.mapM (set.instructionsAt sources)).flatten) :=
    (Ascent.Grows.mapM (BlockSet.instructionsAt_grows h set) order).bind fun _ => .pure _
  unfold BlockSet.gather
  split
  · exact (Ascent.Grows.ofLoad (set.ensures_warnOrphans order)).bind fun _ => hparts
  · exact hparts

theorem BlockSet.instructions_grows (h : sources.Reads read) (set : BlockSet) :
    Ascent.Grows read (set.instructions sources) := by
  have horder : Ascent.Grows read (set.order sources) := (ancestry_grows h _).bind fun _ => .pure _
  exact horder.bind fun order => set.gather_grows h order

/-- **The parents of a template are what is read under their names, and compiling leaves the state alone.** -/
theorem Template.ensures_compile (h : sources.Reads read) (source : Source) :
    Load.Ensures (fun t => ∀ d ∈ t.parents, d.Recorded read) (Template.compile sources source) := by
  refine (Load.ensures_ofExcept fun _ _ => trivial).bind fun tokens _ => ?_
  refine ((Draft.stands_build (ancestry_grows h) [source.name] source.origin (Node.ofTokens tokens)).bind
    fun d hd => .pure (P := fun set : BlockSet => set.lineage.Recorded read) hd.recorded).bind fun set hset => ?_
  refine (BlockSet.instructions_grows h set set.lineage).bind fun r hr => ?_
  refine (Load.ensures_ofExcept fun _ _ => trivial).bind fun program _ => .pure ?_
  intro d hd
  obtain ⟨a, ha, rfl⟩ := List.mem_map.mp hd
  exact hr.recorded hset a ha

end Sources

end Growth

end Stencil
