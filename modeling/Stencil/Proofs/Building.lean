import Stencil.Proofs.Agreement

/-!
# Building goes by tokens

Templates are built from tokens alone. If sources give tokens that agree (`Sources.Agrees`), then what is built from them
agrees as well: their nodes and blocks, the ancestors that are found among them, and in the end the compiled template or
the failure (`Template.compile_alike`).
-/

namespace Stencil

variable {σ : Type} {L : Lines}

/-! ## Nodes and their instructions -/

section Nodes

theorem Node.agrees_ofToken {a b : Token} (h : a.Agrees L b) (strip : Bool) :
    (Node.ofToken strip a).Agrees L (Node.ofToken strip b) := by
  obtain ⟨kind, body, strips, line⟩ := a
  obtain ⟨kind', body', strips', line'⟩ := b
  cases h.content
  exact ⟨rfl, h.line⟩

theorem Node.strips_eq {a b : Token} (h : a.Agrees L b) : Node.strips a = Node.strips b := by
  obtain ⟨kind, body, strip, line⟩ := a
  obtain ⟨kind', body', strip', line'⟩ := b
  cases h.content
  rfl

/-- Nodes of tokens that agree. -/
theorem Node.agrees_ofTokens {as bs : List Token} (h : List.Forall₂ (Token.Agrees L) as bs) :
    List.Forall₂ (Node.Agrees L) (Node.ofTokens as) (Node.ofTokens bs) := by
  suffices H : ∀ strip,
      List.Forall₂ (Node.Agrees L) (Node.ofTokensFrom strip as) (Node.ofTokensFrom strip bs) from H false
  induction h with
  | nil => exact fun _ => .nil
  | @cons a b _ _ hab _ ih =>
    intro strip
    rw [Node.ofTokensFrom, Node.ofTokensFrom, Node.strips_eq hab]
    exact .cons (Node.agrees_ofToken hab strip) (ih _)

theorem Node.Agrees.instruction? {a b : Node} (h : a.Agrees L b) (origin : String) :
    Option.Rel (Located.Agrees L) (a.instruction? origin) (b.instruction? origin) := by
  obtain ⟨kind, line⟩ := a
  obtain ⟨kind', line'⟩ := b
  obtain ⟨rfl, hline⟩ := h
  cases kind with
  | text content strip =>
    simp only [Node.instruction?]
    generalize (if strip = true then Text.stripBlankRun content else (content, 0)) = stripped
    by_cases ht : stripped.1 = ""
    · rw [if_pos ht, if_pos ht]
      exact .none
    · rw [if_neg ht, if_neg ht]
      exact .some ⟨rfl, rfl, L.add _ hline⟩
  | expression | escapedExpression | statement | comment => exact .some ⟨rfl, rfl, hline⟩
  | directive => exact .none

theorem Item.Agrees.instructions {a b : Item} (h : a.Agrees L b) (origin : String) :
    List.Forall₂ (Located.Agrees L) (a.instructions origin) (b.instructions origin) := by
  cases h with
  | node h => exact rel_toList (h.instruction? origin)
  | super _ h => exact h

theorem Block.Agrees.instructions {a b : Block} (h : a.Agrees L b) :
    List.Forall₂ (Located.Agrees L) a.instructions b.instructions := by
  unfold Block.instructions
  rw [h.origin]
  exact List.rel_flatMap h.items fun _ _ hi => hi.instructions b.origin

/-- The instructions of a block, if there is one. -/
theorem Block.agrees_elim {a b : Option Block} (h : Option.Rel (Block.Agrees L) a b) :
    List.Forall₂ (Located.Agrees L) (a.elim [] Block.instructions) (b.elim [] Block.instructions) := by
  cases h with
  | none => exact .nil
  | some h => exact h.instructions

end Nodes

/-! ## Layers and lineages -/

section Layers

variable {a b : Layer} {l l' : Lineage}

theorem Layer.Agrees.order (h : a.Agrees L b) : a.order = b.order :=
  map_eq_of_forall₂ h.blocks fun _ _ hb => hb.name

theorem Layer.Agrees.block? (h : a.Agrees L b) (name : BlockName) :
    Option.Rel (Block.Agrees L) (a.block? name) (b.block? name) := by
  refine rel_getLast? (List.rel_filter (fun x y hb => ?_) h.blocks)
  change decide (x.name = name) = true ↔ decide (y.name = name) = true
  rw [hb.name]

theorem Layer.Agrees.settles (h : a.Agrees L b) (name : BlockName) : a.settles name = b.settles name := by
  rw [Layer.settles, Layer.settles, isNone_eq_of_rel h.parent, h.order]

theorem Lineage.Agrees.names (h : l.Agrees L l') : l.names = l'.names := by
  rw [Lineage.names, Lineage.names, h.chain, map_eq_of_forall₂ h.ancestors fun _ _ ha => by rw [ha.dependency]]

theorem Lineage.Agrees.find? (h : l.Agrees L l') {stops : Layer → Bool}
    (hs : ∀ a b : Layer, a.Agrees L b → stops a = stops b) :
    Option.Rel (Layer.Agrees L) (l.find? stops) (l'.find? stops) := by
  refine rel_optionMap (rel_find? h.ancestors fun a b ha => ?_) fun _ _ ha => ha.layer
  rw [isNone_eq_of_rel ha.layer.parent, hs _ _ ha.layer]

theorem Lineage.Agrees.next? (h : l.Agrees L l') :
    Option.Rel (fun o o' => o.1 = o'.1 ∧ o.2.Agrees L o'.2) l.next? l'.next? := by
  unfold Lineage.next?
  have hlast := rel_getLast? h.ancestors
  generalize l.ancestors.getLast? = x, l'.ancestors.getLast? = y at hlast
  cases hlast with
  | none => exact rel_optionMap h.parent fun _ _ hp => ⟨h.origin, hp⟩
  | some ha => exact rel_optionMap ha.layer.parent fun _ _ hp => ⟨ha.layer.origin, hp⟩

theorem Lineage.Agrees.refusal? (h : l.Agrees L l') (origin : String) {p p' : Parent} (hp : p.Agrees L p') :
    Option.Rel (Error.Agrees L) (l.refusal? origin p) (l'.refusal? origin p') := by
  unfold Lineage.refusal?
  rw [h.names, hp.name]
  split
  · exact .some (.compilation _ ⟨rfl, hp.line⟩)
  · split
    · exact .some (.compilation _ ⟨rfl, hp.line⟩)
    · exact .none

end Layers

/-! ## Looking for an ancestor -/

section Ancestry

/-- The ancestries do the same for every property of layers that goes by what agrees. -/
def Ancestry.Agrees (L : Lines) (f g : Ancestry σ) : Prop :=
  ∀ stops : Layer → Bool, (∀ a b : Layer, a.Agrees L b → stops a = stops b) →
    Alike L (Work.States L (Lineage.Agrees L)) (Option.Rel (Layer.Agrees L)) (f stops) (g stops)

theorem rel_bind_block? {a b : Option Layer} (h : Option.Rel (Layer.Agrees L) a b) (name : BlockName) :
    Option.Rel (Block.Agrees L) (a.bind fun layer => layer.block? name) (b.bind fun layer => layer.block? name) := by
  cases h with
  | none => exact .none
  | some h => exact h.block? name

theorem parentBlock_alike {f g : Ancestry σ} (h : Ancestry.Agrees L f g) {name name' : BlockName}
    (hname : name = name') {line line' : Nat} (hl : L.Agree line line') :
    Alike L (Work.States L (Lineage.Agrees L)) (Option.Rel (Block.Agrees L)) (parentBlock f name line)
      (parentBlock g name' line') := by
  subst hname
  refine Work.alike_own.bind fun l l' hlineage => ?_
  have hfound : Alike L (Work.States L (Lineage.Agrees L)) (Option.Rel (Block.Agrees L))
      (do return (← f fun layer => layer.settles name).bind fun layer => layer.block? name)
      (do return (← g fun layer => layer.settles name).bind fun layer => layer.block? name) :=
    (h _ fun _ _ hab => hab.settles name).bind fun _ _ hr => .pure (rel_bind_block? hr name)
  have hnone : Alike L (Work.States L (Lineage.Agrees L)) (Option.Rel (Block.Agrees L))
      (do let _ ← f fun _ => true; return none) (do let _ ← g fun _ => true; return none) :=
    (h _ fun _ _ _ => rfl).bind fun _ _ _ => .pure .none
  have hthrow : Alike L (Work.States L (Lineage.Agrees L)) Eq
      (throw (.superWithoutParent ⟨l.origin, line⟩ name.describe) : Ascent σ PUnit)
      (throw (.superWithoutParent ⟨l'.origin, line'⟩ name.describe)) :=
    .throw (.superWithoutParent _ ⟨hlineage.origin, hl⟩)
  rw [isNone_eq_of_rel hlineage.parent]
  by_cases hp : l'.parent.isNone = true
  · simp only [hp, ↓reduceIte]
    cases name with
    | named name => exact hthrow.bind fun _ _ _ => hfound
    | anonymous place => exact hthrow.bind fun _ _ _ => hnone
  · simp only [hp, Bool.false_eq_true, ↓reduceIte]
    cases name with
    | named name => exact hfound
    | anonymous place => exact hnone

end Ancestry

/-! ## Walking over a template -/

section Draft

variable {d d' : Draft} {a b : Node} {f g : Ancestry σ}

theorem Draft.agrees_start (chain : List String) (origin : String) {p p' : Option Parent}
    (h : Option.Rel (Parent.Agrees L) p p') : (Draft.start chain origin p).Agrees L (Draft.start chain origin p') :=
  ⟨⟨rfl, rfl, h, .nil⟩, .nil, rfl, .nil⟩

theorem Draft.Agrees.current (h : d.Agrees L d') : d.current.Agrees L d'.current :=
  ⟨h.name, h.lineage.origin, List.rel_reverse h.items⟩

theorem Draft.Agrees.blocks (h : d.Agrees L d') : List.Forall₂ (Block.Agrees L) d.blocks d'.blocks :=
  List.rel_reverse (.cons h.current h.closed)

theorem Draft.Agrees.layer (h : d.Agrees L d') : d.layer.Agrees L d'.layer :=
  ⟨h.lineage.origin, h.lineage.parent, h.blocks⟩

theorem Draft.Agrees.openBlock (h : d.Agrees L d') (name : BlockName) :
    (d.openBlock name).Agrees L (d'.openBlock name) := ⟨h.lineage, .cons h.current h.closed, rfl, .nil⟩

theorem Draft.Agrees.openAnonymous (h : d.Agrees L d') : d.openAnonymous.Agrees L d'.openAnonymous := by
  unfold Draft.openAnonymous
  rw [h.closed.length_eq]
  exact h.openBlock _

theorem Draft.Agrees.push (h : d.Agrees L d') {l l' : Lineage} (hl : l.Agrees L l') {i j : Item} (hi : i.Agrees L j) :
    ({ d with lineage := l }.push i).Agrees L ({ d' with lineage := l' }.push j) :=
  ⟨hl, h.closed, h.name, .cons hi h.items⟩

theorem Draft.Agrees.place? (h : d.Agrees L d') (name : BlockName) : d.place? name = d'.place? name := by
  have hnames := map_eq_of_forall₂ (List.Forall₂.cons h.current h.closed) fun _ _ hb => hb.name
  have hindex (bs : List Block) :
      (bs.findIdx? fun b => b.name = name) = (bs.map Block.name).findIdx? fun n => n = name := by
    rw [List.findIdx?_map]
    rfl
  rw [Draft.place?, Draft.place?, hindex, hindex, hnames, h.closed.length_eq]

/-- Nodes that agree do the same to drafts that agree. -/
theorem Draft.add_alike (hf : Ancestry.Agrees L f g) (h : d.Agrees L d') (hn : a.Agrees L b) :
    Alike L (Session.Agrees L) (Draft.Agrees L) (d.add f a) (d'.add g b) := by
  obtain ⟨kind, line⟩ := a
  obtain ⟨kind', line'⟩ := b
  obtain ⟨rfl, hline⟩ := hn
  cases kind with
  | text | expression | escapedExpression | statement | comment =>
    exact .pure (h.push h.lineage (.node ⟨rfl, hline⟩))
  | directive directive =>
    cases directive with
    | inherits name =>
      have hstart : Alike L (Session.Agrees L) (Draft.Agrees L)
          (pure (Draft.start d.lineage.chain d.lineage.origin (some ⟨name, line⟩)) : Load σ Draft)
          (pure (Draft.start d'.lineage.chain d'.lineage.origin (some ⟨name, line'⟩))) := by
        rw [h.lineage.chain, h.lineage.origin]
        exact .pure (Draft.agrees_start _ _ (.some ⟨rfl, hline⟩))
      have hparent := h.lineage.parent
      unfold Draft.add
      dsimp only
      generalize d.lineage.parent = p, d'.lineage.parent = p' at hparent
      cases hparent with
      | none => exact hstart
      | some hp =>
        refine (Load.alike_warn ?_).bind fun _ _ _ => hstart
        rw [hp.name]
        exact .repeatedExtends _ _ ⟨h.lineage.origin, hline⟩
    | openBlock name =>
      have hopen : Alike L (Session.Agrees L) (Draft.Agrees L) (pure (d.openBlock (.named name)) : Load σ Draft)
          (pure (d'.openBlock (.named name))) := .pure (h.openBlock _)
      unfold Draft.add
      dsimp only
      rw [h.place? (.named name), h.lineage.origin]
      rcases d'.place? (.named name) with _ | place
      · exact hopen
      · exact (Load.alike_warn (.duplicateBlock ..)).bind fun _ _ _ => hopen
    | closeBlock => exact .pure h.openAnonymous
    | superBlock =>
      refine ((parentBlock_alike hf h.name hline).runFrom h.lineage).bind fun r r' hr => .pure ?_
      exact h.push hr.2 (.super hline (Block.agrees_elim hr.1))

/-- Building goes by the nodes. -/
theorem Draft.build_alike (hf : Ancestry.Agrees L f g) (chain : List String) (origin : String) {as bs : List Node}
    (h : List.Forall₂ (Node.Agrees L) as bs) :
    Alike L (Session.Agrees L) (Draft.Agrees L) (Draft.build f chain origin as) (Draft.build g chain origin bs) :=
  Alike.foldlM h (Draft.agrees_start chain origin .none) fun _ _ _ _ hd hn => Draft.add_alike hf hd hn

end Draft

/-! ## Sources that agree -/

section Sources

/-- Sources of the same template in two markups that have the same tokens. -/
structure Source.Agrees (L : Lines) (m m' : Markup) (s t : Source) : Prop where
  name : s.name = t.name
  origin : s.origin = t.origin
  dependency : s.dependency = t.dependency
  tokens : Outcome.Agrees L (List.Forall₂ (Token.Agrees L)) (s.tokens m) (t.tokens m')

/-- Whatever is asked for, the sources agree. -/
def Sources.Agrees (L : Lines) (A B : Sources σ) : Prop :=
  ∀ name, Alike L (Session.Agrees L) (Source.Agrees L A.markup B.markup) (A.source name) (B.source name)

variable {A B : Sources σ}

/-- Reads a parent, puts it behind a lineage and goes on looking, with so many steps left. -/
def readParent (sources : Sources σ) (steps : Nat) (stops : Layer → Bool) (l : Lineage) (p : Parent) :
    Ascent σ (Option Layer) := do
  let source ← Work.ofLoad (sources.source p.name)
  let tokens ← Work.ofLoad (Load.ofExcept (source.tokens sources.markup))
  let d ← Work.ofLoad <|
    Draft.build (nearest sources steps) (l.names ++ [p.name]) source.origin (Node.ofTokens tokens)
  Work.update fun l => l.extend (⟨source.dependency, d.layer⟩ :: d.lineage.ancestors)
  nearest sources steps stops

/-- Parents are read alike if ancestors are found alike in the steps that are left. -/
theorem readParent_alike (h : Sources.Agrees L A B) {steps : Nat}
    (ih : Ancestry.Agrees L (nearest A steps) (nearest B steps)) {stops : Layer → Bool}
    (hstops : ∀ a b : Layer, a.Agrees L b → stops a = stops b) {l l' : Lineage} (hl : l.Agrees L l') {p p' : Parent}
    (hp : p.Agrees L p') :
    Alike L (Work.States L (Lineage.Agrees L)) (Option.Rel (Layer.Agrees L)) (readParent A steps stops l p)
      (readParent B steps stops l' p') := by
  unfold readParent
  rw [hp.name, hl.names]
  refine (h p'.name).ofLoad.bind fun source source' hsource => ?_
  refine (Load.alike_ofExcept hsource.tokens).ofLoad.bind fun tokens tokens' htokens => ?_
  rw [hsource.origin, hsource.dependency]
  refine (Draft.build_alike ih _ _ (Node.agrees_ofTokens htokens)).ofLoad.bind fun d d' hd => ?_
  refine (Work.alike_update fun l l' hl => ?_).bind_eq fun _ => ih stops hstops
  exact ⟨hl.chain, hl.origin, hl.parent, List.rel_append hl.ancestors (.cons ⟨rfl, hd.layer⟩ hd.lineage.ancestors)⟩

/-- Ancestors are found alike. -/
theorem nearest_agrees (h : Sources.Agrees L A B) (steps : Nat) :
    Ancestry.Agrees L (nearest A steps) (nearest B steps) := by
  induction steps with
  | zero => exact fun _ _ => .pure .none
  | succ steps ih =>
    intro stops hstops
    refine Work.alike_own.bind fun l l' hl => ?_
    have hfind := hl.find? hstops
    have hnext := hl.next?
    generalize l.find? stops = x, l'.find? stops = x' at hfind
    generalize l.next? = o, l'.next? = o' at hnext
    cases hfind with
    | some hlayer => exact .pure (.some hlayer)
    | none =>
      cases hnext with
      | none => exact .pure .none
      | @some o o' ho =>
        obtain ⟨origin, p⟩ := o
        obtain ⟨origin', p'⟩ := o'
        obtain ⟨rfl, hp⟩ := ho
        have hread := readParent_alike h ih hstops hl hp
        have hrefusal := hl.refusal? origin hp
        dsimp only
        generalize l.refusal? origin p = e, l'.refusal? origin p' = e' at hrefusal
        cases hrefusal with
        | none => exact hread
        | some he => exact (Alike.throw he).bind (R := Eq) fun _ _ _ => hread

end Sources

/-! ## Linking -/

namespace Code

open Script (Expr)

/-- The same instruction in the same place. -/
structure Agrees (L : Lines) (a b : Placed) : Prop where
  located : a.1.Agrees L b.1
  place : a.2 = b.2

/-- The same piece. -/
inductive Piece.Agrees {bound bound' : Nat} (L : Lines) : Piece bound → Piece bound' → Prop
  | ended (code : Code) : Agrees L (.ended code) (.ended code)
  | divided (code : Code) {source source' : Placed} (d : Divider) {rest rest' : List Placed}
    {shorter : rest.length < bound} {shorter' : rest'.length < bound'} :
    Code.Agrees L source source' → List.Forall₂ (Code.Agrees L) rest rest' →
      Agrees L (.divided code source d rest shorter) (.divided code source' d rest' shorter')

/-- The same branches. -/
structure Branches.Agrees {bound bound' : Nat} (L : Lines) (a : Branches bound) (b : Branches bound') : Prop where
  body : a.body = b.body
  alternative : a.alternative = b.alternative
  rest : List.Forall₂ (Code.Agrees L) a.rest b.rest

variable {L : Lines} {a b : Placed}

theorem Agrees.fault (h : Agrees L a b) (fault : CompileFault) : (a.fault fault).Agrees L (b.fault fault) :=
  .compilation fault h.located.position

theorem Agrees.read (h : Agrees L a b) : Outcome.Agrees L Eq a.read b.read := by
  have hfault := h.fault
  unfold Placed.read
  rw [h.located.instruction]
  cases b.1.instruction with
  | literal text => exact .ok rfl
  | expression code escaped =>
    dsimp only
    split
    · exact .ok rfl
    · exact .error (hfault _)
  | statement code =>
    dsimp only
    split
    · exact .ok rfl
    · exact .error (hfault _)
  | blankLines count => exact .ok rfl

theorem Piece.Agrees.after {bound bound' larger larger' : Nat} {p : Piece bound} {q : Piece bound'}
    (h : p.Agrees L q) (make : Code → Code) (hle : bound ≤ larger) (hle' : bound' ≤ larger') :
    (p.after make hle).Agrees L (q.after make hle') := by
  cases h with
  | ended code => exact .ended _
  | divided code d hsource hrest => exact .divided _ d hsource hrest

theorem conditional_eq {bound bound' : Nat} {b : Branches bound} {b' : Branches bound'} (h : b.Agrees L b')
    (place : Nat) (test : Expr) : conditional place test b = conditional place test b' := by
  funext next
  rw [conditional, conditional, h.body, h.alternative]

/-- Pieces go by the instructions. -/
theorem piece_agrees (L : Lines) :
    (∀ ls ls', List.Forall₂ (Agrees L) ls ls' → Outcome.Agrees L (Piece.Agrees L) (piece ls) (piece ls')) ∧
      ∀ opener ls opener' ls', Agrees L opener opener' → List.Forall₂ (Agrees L) ls ls' →
        Outcome.Agrees L (Branches.Agrees L) (branches opener ls) (branches opener' ls') := by
  apply piece.mutual_induct
  case case1 =>
    intro ls' h
    cases h
    rw [piece]
    exact .ok (.ended _)
  case case2 =>
    intro l rest ihRest ihBranches ihBehind ihEnd ls' h
    cases h with
    | @cons _ l' _ rest' hl hrest =>
      have hnext (make : Code → Code) : Outcome.Agrees L (Piece.Agrees L)
          (do return (← piece rest).after make (Nat.le_succ rest.length))
          (do return (← piece rest').after make (Nat.le_succ rest'.length)) :=
        (ihRest rest' hrest).bind fun _ _ hp => .ok (hp.after make _ _)
      rw [piece, piece, ← hl.place]
      refine hl.read.bind fun r _ hr => ?_
      subst hr
      cases r with
      | blank => exact hnext _
      | literal => exact hnext _
      | emit => exact hnext _
      | statement s =>
        cases s with
        | empty => exact hnext _
        | assign => exact hnext _
        | includes => exact hnext _
        | eval => exact hnext _
        | close => exact .ok (.divided _ _ hl hrest)
        | otherwise => exact .ok (.divided _ _ hl hrest)
        | elseIf => exact .ok (.divided _ _ hl hrest)
        | ifThen test =>
          refine (ihBranches l' rest' hl hrest).bind fun b b' hb => ?_
          rw [conditional_eq hb]
          exact (ihBehind b b'.rest hb.rest).bind fun _ _ hp => .ok (hp.after _ _ _)
        | loop vars iterable =>
          refine (ihRest rest' hrest).bind fun p p' hp => ?_
          cases hp with
          | ended => exact .error (hl.fault _)
          | @divided body source source' d behind behind' shorter _ hsource hbehind =>
            cases d with
            | otherwise => exact .error (hsource.fault _)
            | elseIf => exact .error (hsource.fault _)
            | close =>
              dsimp only
              rw [hsource.place]
              exact (ihEnd behind shorter behind' hbehind).bind fun _ _ hq => .ok (hq.after _ _ _)
  case case3 =>
    intro opener ls ihBody ihAlternative ihElseIf opener' ls' ho h
    rw [branches, branches]
    refine (ihBody ls' h).bind fun p p' hp => ?_
    cases hp with
    | ended => exact .error (ho.fault _)
    | @divided body divide divide' d rest rest' shorter _ hdivide hrest =>
      cases d with
      | close => exact .ok ⟨rfl, rfl, hrest⟩
      | otherwise =>
        refine (ihAlternative rest shorter rest' hrest).bind fun q q' hq => ?_
        cases hq with
        | ended => exact .error (ho.fault _)
        | divided alternative d hsource hbehind =>
          cases d with
          | otherwise => exact .error (hsource.fault _)
          | elseIf => exact .error (hsource.fault _)
          | close => exact .ok ⟨rfl, by rw [hdivide.place], hbehind⟩
      | elseIf test =>
        refine (ihElseIf rest shorter opener' rest' ho hrest).bind fun b b' hb => .ok ⟨rfl, ?_, hb.rest⟩
        rw [hdivide.place, conditional_eq hb]

/-- Nested code goes by the instructions. -/
theorem ofInstructions_agrees {as bs : List Located} (h : List.Forall₂ (Located.Agrees L) as bs) :
    Outcome.Agrees L Eq (ofInstructions as) (ofInstructions bs) := by
  have hplaced : ∀ n, List.Forall₂ (Agrees L) (as.zipIdx n) (bs.zipIdx n) := by
    induction h with
    | nil => exact fun _ => .nil
    | cons hab _ ih => exact fun n => .cons ⟨hab, rfl⟩ (ih (n + 1))
  refine ((piece_agrees L).1 _ _ (hplaced 0)).bind fun p q hp => ?_
  cases hp with
  | ended code => exact .ok rfl
  | divided code d hsource hrest => cases d <;> exact .error (hsource.fault _)

end Code

/-- Linking goes by the instructions. -/
theorem Program.link_agrees (origin : String) {as bs : List Located} (h : List.Forall₂ (Located.Agrees L) as bs) :
    Outcome.Agrees L (Program.Agrees L) (Program.link origin as) (Program.link origin bs) := by
  have hcode := Code.ofInstructions_agrees h
  rcases ha : Code.ofInstructions as with e | code <;> rcases hb : Code.ofInstructions bs with e' | code' <;>
    rw [ha, hb] at hcode <;> cases hcode
  case error.error.error he =>
    rw [Program.link_of_ofInstructions_eq_error origin ha, Program.link_of_ofInstructions_eq_error origin hb]
    exact .error he
  case ok.ok.ok hc =>
    rw [Program.link_of_ofInstructions origin ha, Program.link_of_ofInstructions origin hb]
    exact .ok ⟨rfl, h, hc⟩

/-! ## Compiling -/

section Compile

variable {A B : Sources σ} {set set' : BlockSet}

theorem ancestry_agrees (h : Sources.Agrees L A B) : Ancestry.Agrees L (ancestry A) (ancestry B) := nearest_agrees h _

theorem BlockSet.build_alike (h : Sources.Agrees L A B) (chain : List String) (origin : String) {as bs : List Node}
    (hn : List.Forall₂ (Node.Agrees L) as bs) :
    Alike L (Session.Agrees L) (BlockSet.Agrees L) (BlockSet.build A chain origin as)
      (BlockSet.build B chain origin bs) :=
  (Draft.build_alike (ancestry_agrees h) chain origin hn).bind fun _ _ hd => .pure ⟨hd.lineage, hd.blocks⟩

theorem BlockSet.Agrees.layer (h : set.Agrees L set') : set.layer.Agrees L set'.layer :=
  ⟨h.lineage.origin, h.lineage.parent, h.blocks⟩

theorem BlockSet.order_alike (h : Sources.Agrees L A B) (hs : set.Agrees L set') :
    Alike L (Work.States L (Lineage.Agrees L)) Eq (set.order A) (set'.order B) := by
  refine (ancestry_agrees h _ fun _ _ _ => rfl).bind fun _ _ hr => .pure ?_
  cases hr with
  | none => exact hs.layer.order
  | some hr => exact hr.order

theorem BlockSet.instructionsAt_alike (h : Sources.Agrees L A B) (hs : set.Agrees L set') (name : BlockName) :
    Alike L (Work.States L (Lineage.Agrees L)) (List.Forall₂ (Located.Agrees L)) (set.instructionsAt A name)
      (set'.instructionsAt B name) := by
  have hblock : Alike L (Work.States L (Lineage.Agrees L)) (Option.Rel (Block.Agrees L)) (set.block A name)
      (set'.block B name) := by
    unfold BlockSet.block
    rw [hs.layer.settles]
    split
    · exact .pure (hs.layer.block? name)
    · exact (ancestry_agrees h _ fun _ _ hab => hab.settles name).bind fun _ _ hr => .pure (rel_bind_block? hr name)
  exact hblock.bind fun _ _ hr => .pure (Block.agrees_elim hr)

theorem BlockSet.warnOrphans_alike (hs : set.Agrees L set') (order : List BlockName) :
    Alike L (Session.Agrees L : Session σ → Session σ → Prop) Eq (set.warnOrphans order) (set'.warnOrphans order) := by
  have hnamed : List.Forall₂ (Block.Agrees L) set.namedBlocks set'.namedBlocks :=
    List.rel_filter (fun a b hb => by
      change a.name.isNamed = true ↔ b.name.isNamed = true
      rw [hb.name]) hs.blocks
  refine Alike.forM hnamed fun a b hb => ?_
  rw [hb.name, hb.origin]
  split
  · exact .pure rfl
  · exact Load.alike_warn (.orphanBlock ..)

theorem BlockSet.instructions_alike (h : Sources.Agrees L A B) (hs : set.Agrees L set') :
    Alike L (Work.States L (Lineage.Agrees L)) (List.Forall₂ (Located.Agrees L)) (set.instructions A)
      (set'.instructions B) := by
  refine (BlockSet.order_alike h hs).bind_eq fun order => ?_
  have hparts : Alike L (Work.States L (Lineage.Agrees L)) (List.Forall₂ (Located.Agrees L))
      (do return (← order.mapM (set.instructionsAt A)).flatten)
      (do return (← order.mapM (set'.instructionsAt B)).flatten) :=
    (Alike.mapM_same order (BlockSet.instructionsAt_alike h hs)).bind fun _ _ hr => .pure (List.rel_flatten hr)
  have hparent := isNone_eq_of_rel hs.lineage.parent
  rw [← Option.not_isSome, ← Option.not_isSome, Bool.not_inj_iff] at hparent
  rw [hparent]
  split
  · exact (BlockSet.warnOrphans_alike hs order).ofLoad.bind_eq fun _ => hparts
  · exact hparts

/-- **Compiling goes by tokens.** From sources that agree come templates that agree, or the same failure. -/
theorem Template.compile_alike (h : Sources.Agrees L A B) {s t : Source} (hs : Source.Agrees L A.markup B.markup s t) :
    Alike L (Session.Agrees L) (Template.Agrees L) (Template.compile A s) (Template.compile B t) := by
  refine (Load.alike_ofExcept hs.tokens).bind fun tokens tokens' htokens => ?_
  rw [hs.name, hs.origin]
  refine (BlockSet.build_alike h _ _ (Node.agrees_ofTokens htokens)).bind fun set set' hset => ?_
  refine ((BlockSet.instructions_alike h hset).runFrom hset.lineage).bind fun r r' hr => ?_
  refine (Load.alike_ofExcept (Program.link_agrees _ hr.1)).bind fun p p' hp => ?_
  refine .pure ⟨rfl, rfl, htokens, ?_, hp⟩
  exact map_eq_of_forall₂ hr.2.ancestors fun _ _ ha => ha.dependency

theorem Loader.direct_alike (h : Sources.Agrees L A B) (name : String) :
    Alike L (Session.Agrees L) (Template.Agrees L) ((Loader.direct A).template name) ((Loader.direct B).template name) :=
  (h name).bind fun _ _ hs => Template.compile_alike h hs

end Compile

end Stencil
