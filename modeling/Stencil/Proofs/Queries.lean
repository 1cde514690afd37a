import Stencil.Proofs.Accounts

/-!
# Asking a block set

A block set can be asked for the order of its blocks, for a block, for the block that a call of the parent's block
stands for, and for its instructions. Parents are read when a question needs them, and are kept for the questions that
follow (`BlockSet.after`), also if the question fails.

Every question is steady (`BlockSet.ask_steady`), so it is answered as if nothing had been asked before
(`BlockSet.answer_after`), and questions only let the lineage rise (`BlockSet.rises_after`). The main statement is
`lazy_loading_transparent`.
-/

namespace Stencil

variable {σ : Type}

/-- A question to a block set. -/
inductive Query
  | order
  | block (name : BlockName)
  | superBlock (name : BlockName) (line : Nat)
  | compile
  deriving DecidableEq, Repr

/-- What a question is answered with. -/
def Query.Answer : Query → Type
  | order => List BlockName
  | block _ => Option Block
  | superBlock _ _ => Option Block
  | compile => List Located

namespace BlockSet

/-- Asks a block set. -/
def ask (sources : Sources σ) (set : BlockSet) : (q : Query) → Ascent σ q.Answer
  | .order => set.order sources
  | .block name => set.block sources name
  | .superBlock name line => superBlock sources name line
  | .compile => set.instructions sources

/-- The lineage of a block set and the session after some questions, whether they have been answered or have failed. -/
def after (sources : Sources σ) (set : BlockSet) (qs : List Query) (t : Lineage × Session σ) : Lineage × Session σ :=
  qs.foldl (fun t q => ((set.ask sources q).run.run t).2) t

/-- The answer to a question, or its failure. -/
def answer (sources : Sources σ) (set : BlockSet) (q : Query) (t : Lineage × Session σ) : Except Error q.Answer :=
  ((set.ask sources q).run.run t).1

/-- What a question asks of the loader. -/
def requests (sources : Sources (List Request)) (set : BlockSet) (q : Query) (t : Lineage × Session (List Request)) :
    List Request :=
  ((set.ask sources q).run.run t).2.2.state.drop t.2.state.length

end BlockSet

section Queries

open Ascent (Goes Steady course)

variable {sources : Sources (List Request)} {read : String → Except Error Source} {set : BlockSet} {qs qs' : List Query}
  {q q' : Query} {t : Lineage × Session (List Request)} {l : Lineage} {N : String → Prop} {name : String}

namespace BlockSet

theorem ask_steady (h : sources.Tells read) (set : BlockSet) (q : Query) : Steady sources (set.ask sources q) := by
  cases q with
  | order => exact set.order_steady h
  | block name => exact set.block_steady h name
  | superBlock name line => exact parentBlock_steady h name line
  | compile => exact set.instructions_steady h

/-- A question takes its course in every session. -/
theorem run_ask (h : sources.Tells read) (set : BlockSet) (q : Query) (t : Lineage × Session (List Request)) :
    set.answer sources q t = (course (set.ask sources q) t.1).outcome ∧
      (set.after sources [q] t).1 = (course (set.ask sources q) t.1).lineage ∧
        set.requests sources q t = (course (set.ask sources q) t.1).asked := by
  rcases hc : course (set.ask sources q) t.1 with ⟨r, l', asked⟩
  obtain ⟨warnings, hrun⟩ := Ascent.run_of_course (set.ask_steady h q).even hc t.2
  refine ⟨?_, ?_, ?_⟩
  · rw [answer, hrun]
  · rw [after, List.foldl_cons, hrun]
    rfl
  · rw [requests, hrun]
    exact List.drop_left

theorem after_append (qs qs' : List Query) : set.after sources (qs ++ qs') t =
    set.after sources qs' (set.after sources qs t) := List.foldl_append ..

/-- Questions let the lineage rise. -/
theorem rises_after (h : sources.Tells read) (qs : List Query) (t : Lineage × Session (List Request)) :
    t.1.Rises sources (set.after sources qs t).1 := by
  induction qs generalizing t with
  | nil => exact .refl _
  | cons q qs ih =>
    have hq : t.1.Rises sources (set.after sources [q] t).1 := by
      rw [(run_ask h set q t).2.1]
      exact ((set.ask_steady h q).goes t.1).rises
    exact hq.trans (ih (set.after sources [q] t))

/-- A question is answered as if nothing had been asked before. -/
theorem answer_after (h : sources.Tells read) (qs : List Query) (q : Query) (t : Lineage × Session (List Request))
    (s : Session (List Request)) : set.answer sources q (set.after sources qs t) = set.answer sources q (t.1, s) := by
  rw [(run_ask h set q _).1, (run_ask h set q _).1]
  exact ((set.ask_steady h q).outcome_eq (rises_after h qs t)).symm

section Once

variable (h : sources.Tells read) (hN : Single read sources.markup N) (hl : t.1.Within N)

include h hN hl

/-- What the lineage has is not asked for. -/
theorem not_mem_requests_after (hname : name ∈ t.1.names) (qs : List Query) (q : Query) :
    .source name ∉ set.requests sources q (set.after sources qs t) := by
  obtain ⟨hwithin, hsubset⟩ := (rises_after h qs t).names_subset h hN hl
  intro hm
  rw [(run_ask h set q _).2.2] at hm
  obtain ⟨name', hnot, heq⟩ := ((set.ask_steady h q).goes _).new h hN hwithin _ hm
  cases heq
  exact hnot (hsubset hname)

/-- Only sources are asked for. -/
theorem exists_of_mem_requests {r : Request} (hr : r ∈ set.requests sources q t) : ∃ name, r = .source name := by
  rw [(run_ask h set q t).2.2] at hr
  obtain ⟨name, -, rfl⟩ := ((set.ask_steady h q).goes t.1).new h hN hl r hr
  exact ⟨name, rfl⟩

/-- What an answered question has asked for is kept. -/
theorem mem_names_of_answer {a : q.Answer} (hanswer : set.answer sources q t = .ok a)
    (hname : .source name ∈ set.requests sources q t) : name ∈ (set.after sources [q] t).1.names := by
  obtain ⟨hr, hlineage, hasked⟩ := run_ask h set q t
  rw [hasked] at hname
  rw [hlineage]
  refine (((set.ask_steady h q).goes t.1).mem_or_stuck h hN hl hname).resolve_right ?_
  rintro ⟨e, asked, herror, -⟩
  rw [← hr, hanswer] at herror
  cases herror

/-- What has been asked for and is not kept is asked for again by every question that needs it. -/
theorem mem_requests_after (hname : .source name ∈ set.requests sources q (set.after sources qs t))
    (hnot : name ∉ (set.after sources (qs ++ [q]) t).1.names) (hneeds : .source name ∈ set.requests sources q' t)
    (qs' : List Query) : .source name ∈ set.requests sources q' (set.after sources (qs ++ q :: qs') t) := by
  have hrises : t.1.Rises sources (set.after sources qs t).1 := rises_after h qs t
  obtain ⟨-, hlineage, hasked⟩ := run_ask h set q (set.after sources qs t)
  rw [after_append, hlineage] at hnot
  rw [hasked] at hname
  obtain ⟨e, asked, -, hstuck⟩ := (((set.ask_steady h q).goes _).mem_or_stuck h hN
    (hrises.names_subset h hN hl).1 hname).resolve_left hnot
  -- the lineage has come to a parent that cannot be fetched, and so it stays there
  rw [← hlineage] at hstuck hnot
  have hstays : (set.after sources (qs ++ q :: qs') t).1 = (set.after sources [q] (set.after sources qs t)).1 := by
    rw [List.append_cons, after_append, after_append]
    exact (rises_after h qs' _).eq_of_stuck hstuck
  rw [(run_ask h set q' t).2.2] at hneeds
  rw [(run_ask h set q' _).2.2, hstays]
  exact (set.ask_steady h q').asks_again h hN (hrises.trans (rises_after h [q] _)) hl hneeds hnot

end Once

end BlockSet

/-! ## Building -/

theorem BlockSet.build_even (h : sources.Tells read) (chain : List String) (origin : String) (nodes : List Node) :
    Even Session.Behind (build sources chain origin nodes) :=
  (Draft.build_even (ancestry_even h) chain origin nodes).bind fun _ => .pure _

/-- An even load ends in the same way in all sessions. -/
theorem Even.outcome_eq {α : Type} {x : Load (List Request) α} (hx : Even Session.Behind x)
    (s s' : Session (List Request)) : (x.run.run s).1 = (x.run.run s').1 := by
  have hempty (s : Session (List Request)) : (x.run.run ⟨[], []⟩).1 = (x.run.run s).1 :=
    (hx s.state ⟨[], []⟩ s (List.append_nil _).symm).1.eq fun _ _ => id
  exact (hempty s).symm.trans (hempty s')

/-- Nodes that call no parent's block are built without asking for anything. -/
theorem BlockSet.build_of_not_super (sources : Sources (List Request)) (chain : List String) (origin : String)
    {nodes : List Node} (hnodes : ∀ node ∈ nodes, node.kind ≠ .directive .superBlock) (s : Session (List Request)) :
    ∃ set s', (build sources chain origin nodes).run.run s = (.ok set, s') ∧ s'.state = s.state := by
  have hstate (d : Draft) : Load.Ensures (fun _ => True) (nodes.foldlM (Draft.add (ancestry sources)) d) := by
    induction nodes generalizing d with
    | nil => exact .pure trivial
    | cons node nodes ih =>
      obtain ⟨hnode, hnodes⟩ := List.forall_mem_cons.mp hnodes
      rw [List.foldlM_cons]
      exact (Draft.ensures_add_of_not_search _ fun hsearch => hnode hsearch.1).bind fun d' _ => ih hnodes d'
  obtain ⟨d, s', hrun, -⟩ := Draft.build_of_not_super (ancestry sources) chain origin hnodes s
  have hs' := (hstate (.start chain origin none) s).1
  unfold Draft.build at hrun
  rw [hrun] at hs'
  exact ⟨⟨d.lineage, d.blocks⟩, s', run_bind_of_ok hrun, hs'⟩

/-- What a block set that is built has asked for is kept. -/
theorem BlockSet.build_accounts (h : sources.Tells read) (hN : Single read sources.markup N) (chain : List String)
    (origin : String) {nodes : List Node} (hone : ExtendsOnce nodes)
    (hnodes : ∀ p ∈ nodes.filterMap Node.parent?, N p.name) :
    Load.Accounts chain (fun set => set.lineage.Within N) (fun set => set.lineage.names)
      (build sources chain origin nodes) :=
  (Draft.accounts_build (accounts_ancestry h hN) hone hnodes).bind fun _ hd => .pure hd.1 fun _ => id

end Queries

/-! ## Chains of texts in memory -/

/-- Where no more than one parent is named, it is the one that counts. -/
theorem lastParent?_of_extendsOnce {nodes : List Node} {p : Parent} (hone : ExtendsOnce nodes)
    (hp : p ∈ nodes.filterMap Node.parent?) : lastParent? nodes = some p := by
  unfold ExtendsOnce at hone
  unfold lastParent?
  generalize nodes.filterMap Node.parent? = parents at hone hp
  match parents, hone, hp with
  | [q], _, hp => rw [List.mem_singleton.mp hp]; rfl

/-- The names that a climb comes to are those of a chain, if the templates of it extend once. -/
theorem single_of_climb {m : Markup} {texts : Bindings String} {start : Option String}
    (hone : ∀ pages name, Climb m texts start pages (some name) → ExtendsOnceAt (Source.ofTexts texts) m name) :
    Single (Source.ofTexts texts) m fun name => ∃ pages, Climb m texts start pages (some name) where
  once := fun ⟨pages, hclimb⟩ => hone pages _ hclimb
  parent := by
    rintro name source tokens p ⟨pages, hclimb⟩ hsource htokens hp
    have hparent := lastParent?_of_extendsOnce (hone pages name hclimb source tokens hsource htokens) hp
    obtain ⟨text, htext, rfl⟩ := Source.ofTexts_eq_ok_iff.mp hsource
    have hpage := Page.find?_eq_some htext htokens
    refine ⟨pages ++ [_], hclimb.append (.up hpage ?_)⟩
    rw [Page.parentName, show (Page.ofNodes name (Node.ofTokens tokens)).parent = some p from hparent]
    exact .here _

/-! ## Block sets of texts in memory -/

/-- **Loading parents lazily is transparent, and loads once.** Let the loader hold any texts in memory and put on record
what it is asked for.

- Building a template that calls no parent's block asks for nothing.
- After any questions, a block set answers each question as a copy of it does that is built anew, in any session. This
  goes for failures as well.
- If no template of the chain extends more than once, then nothing that the building has asked for is asked for again,
  nor is anything that an answered question has asked for. A parent that has been asked for and could not be loaded, so
  that it is missing from the lineage, is asked for again by each question that needs it, whatever is asked in between.
  A question needs it if it would ask for it at first. -/
theorem lazy_loading_transparent (m : Markup) (texts : Bindings String) (chain : List String) (origin : String)
    (nodes : List Node) :
    let A : Sources (List Request) := (Sources.inMemory m texts).recorded
    ((∀ node ∈ nodes, node.kind ≠ .directive .superBlock) → ∀ s, ∃ set s',
      (BlockSet.build A chain origin nodes).run.run s = (.ok set, s') ∧ s'.state = s.state) ∧
    ∀ s set s', (BlockSet.build A chain origin nodes).run.run s = (.ok set, s') →
      let fresh := (set.lineage, s')
      (∀ qs q t, ∃ t', (BlockSet.build A chain origin nodes).run.run t = (.ok set, t') ∧
        set.answer A q (set.after A qs fresh) = set.answer A q (set.lineage, t')) ∧
      (ExtendsOnce nodes →
        (∀ pages name, Climb m texts ((lastParent? nodes).map Parent.name) pages (some name) →
          ExtendsOnceAt (Source.ofTexts texts) m name) →
        (∃ asked, s'.state = s.state ++ asked ∧
          ∀ r ∈ asked, ∀ qs q, r ∉ set.requests A q (set.after A qs fresh)) ∧
        (∀ qs q a, set.answer A q (set.after A qs fresh) = .ok a →
          ∀ r ∈ set.requests A q (set.after A qs fresh), ∀ qs' q',
            r ∉ set.requests A q' (set.after A (qs ++ q :: qs') fresh)) ∧
        ∀ qs q name, .source name ∈ set.requests A q (set.after A qs fresh) →
          name ∉ (set.after A (qs ++ [q]) fresh).1.names → ∀ qs' q', .source name ∈ set.requests A q' fresh →
            .source name ∈ set.requests A q' (set.after A (qs ++ q :: qs') fresh)) := by
  intro A
  have h : A.Tells (Source.ofTexts texts) := (Sources.reads_inMemory m texts).tells
  refine ⟨fun hnodes => BlockSet.build_of_not_super A chain origin hnodes, fun s set s' hbuild => ⟨?_, ?_⟩⟩
  · intro qs q t
    have houtcome := (BlockSet.build_even h chain origin nodes).outcome_eq t s
    rcases hrun : (BlockSet.build A chain origin nodes).run.run t with ⟨r, t'⟩
    rw [hrun, hbuild] at houtcome
    cases houtcome
    exact ⟨t', rfl, set.answer_after h qs q _ t'⟩
  · intro hone hclimb
    let N : String → Prop := fun name =>
      ∃ pages, Climb m texts ((lastParent? nodes).map Parent.name) pages (some name)
    have hN : Single (Source.ofTexts texts) A.markup N := single_of_climb hclimb
    have hnodes (p : Parent) (hp : p ∈ nodes.filterMap Node.parent?) : N p.name := by
      refine ⟨[], ?_⟩
      rw [lastParent?_of_extendsOnce hone hp]
      exact .here _
    obtain ⟨asked, hstate, hnew, hok⟩ := BlockSet.build_accounts h hN chain origin hone hnodes s
    rw [hbuild] at hstate hok
    obtain ⟨hl, hkept⟩ := hok set rfl
    have hwithin (qs : List Query) : (set.after A qs (set.lineage, s')).1.Within N :=
      ((BlockSet.rises_after h qs _).names_subset h hN hl).1
    refine ⟨⟨asked, hstate, ?_⟩, ?_, ?_⟩
    · intro r hr qs q
      obtain ⟨name, -, rfl⟩ := hnew r hr
      exact BlockSet.not_mem_requests_after h hN hl (hkept.mem hr) qs q
    · intro qs q a hanswer r hr qs' q'
      obtain ⟨name, rfl⟩ := BlockSet.exists_of_mem_requests h hN (hwithin qs) hr
      have hname := BlockSet.mem_names_of_answer h hN (hwithin qs) hanswer hr
      rw [← BlockSet.after_append] at hname
      rw [List.append_cons, BlockSet.after_append]
      exact BlockSet.not_mem_requests_after h hN (hwithin _) hname qs' q'
    · intro qs q name hname hnot qs' q' hneeds
      exact BlockSet.mem_requests_after h hN hl hname hnot hneeds qs'

/-- A template whose parent is there, while the parent of that one is missing. -/
theorem lazy_loading_transparent_missing :
    let m := Markup.firstPass
    let texts := [("mid", "%\x7bextends 'gone'\x7d%\x7bblock a\x7dx%\x7bendblock\x7d")]
    let A : Sources (List Request) := (Sources.inMemory m texts).recorded
    let nodes : List Node := [⟨.directive (.inherits "mid"), 1⟩, ⟨.directive (.openBlock "a"), 1⟩,
      ⟨.text "y" false, 1⟩, ⟨.directive .closeBlock, 1⟩]
    let super := Query.superBlock (.named "a") 1
    ∃ set s, (BlockSet.build A ["leaf"] "leaf" nodes).run.run ⟨[], []⟩ = (.ok set, s) ∧ s.state = [] ∧
      set.requests A super (set.lineage, s) = [.source "mid"] ∧
      (∀ qs q, .source "mid" ∉ set.requests A q (set.after A (super :: qs) (set.lineage, s))) ∧
      ∀ qs, .source "gone" ∈ set.requests A .compile (set.after A (.order :: qs) (set.lineage, s)) := by
  intro m texts A nodes super
  have hone : ∀ name, ExtendsOnceAt (Source.ofTexts texts) m name := by
    intro name source tokens hsource htokens
    obtain ⟨text, htext, rfl⟩ := Source.ofTexts_eq_ok_iff.mp hsource
    have hscan : Token.scan m text = .ok tokens := Source.tokens_eq_ok_iff.mp htokens
    have hmid : ∀ entry ∈ texts, (Token.scan m entry.2).toOption.map (fun tokens =>
        decide (ExtendsOnce (Node.ofTokens tokens))) = some true := by decide +kernel
    have hone := hmid (name, text) (by simpa [texts, Bindings.get?, eq_comm] using htext)
    rw [hscan] at hone
    exact of_decide_eq_true (Option.some.inj hone)
  obtain ⟨hnone, hbuilt⟩ := lazy_loading_transparent m texts ["leaf"] "leaf" nodes
  obtain ⟨set, s, hbuild, hstate⟩ := hnone (by decide) ⟨[], []⟩
  obtain ⟨-, honce⟩ := hbuilt _ set s hbuild
  obtain ⟨-, hkept, hagain⟩ := honce (by decide) fun _ name _ => hone name
  -- what the questions come to at first
  let first (r : Except Error BlockSet × Session (List Request)) := r.1.toOption.map fun set =>
    (set.requests A super (set.lineage, r.2), (set.answer A super (set.lineage, r.2)).toOption.isSome,
      set.requests A .order (set.lineage, r.2), (set.after A [.order] (set.lineage, r.2)).1.names,
      set.requests A .compile (set.lineage, r.2))
  have hfirst : first ((BlockSet.build A ["leaf"] "leaf" nodes).run.run ⟨[], []⟩) =
      some ([.source "mid"], true, [.source "mid", .source "gone"], ["leaf", "mid"],
        [.source "mid", .source "gone"]) := by decide +kernel
  rw [hbuild] at hfirst
  simp only [first, Except.toOption, Option.map_some, Option.some.injEq, Prod.mk.injEq] at hfirst
  obtain ⟨hsuper, hanswer, horder, hnames, hcompile⟩ := hfirst
  refine ⟨set, s, hbuild, hstate, hsuper, fun qs q => ?_, fun qs => ?_⟩
  · rcases ha : set.answer A super (set.lineage, s) with e | a
    · rw [ha] at hanswer
      cases hanswer
    · exact hkept [] super a ha _ (by rw [BlockSet.after, List.foldl_nil, hsuper]; exact List.mem_singleton_self _) qs q
  · refine hagain [] .order "gone" ?_ ?_ qs .compile ?_
    · rw [BlockSet.after, List.foldl_nil, horder]
      exact List.mem_cons_of_mem _ (List.mem_singleton_self _)
    · rw [List.nil_append, hnames]
      decide
    · rw [hcompile]
      exact List.mem_cons_of_mem _ (List.mem_singleton_self _)

end Stencil
