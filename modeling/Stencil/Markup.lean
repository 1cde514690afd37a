import Stencil.TagKind

/-!
# Markup

A markup gives each kind of tag an opener and a closer. No delimiter is empty and no two kinds share an opener, but one
opener may begin with another: at any place the longest opener that fits is the one that counts (`openerAt`). An opener
right behind a backslash is escaped: it is literal as a whole, together with any shorter opener inside it.

`untilTag` cuts a text before its first opener that is not escaped, `unescape` drops the backslashes in front of
openers, and `escape` puts one in front of every opener.
-/

namespace Stencil

/-- The opener and the closer of a kind of tag. -/
structure Delimiters where
  opener : String
  closer : String
  deriving DecidableEq, Repr, Inhabited

/-- Delimiters for every kind of tag. -/
structure Markup where
  delimiters : TagKind → Delimiters
  opener_ne_empty : ∀ k, (delimiters k).opener ≠ ""
  closer_ne_empty : ∀ k, (delimiters k).closer ≠ ""
  opener_injective : ∀ j k, (delimiters j).opener = (delimiters k).opener → j = k

/-- Why delimiters do not make up a markup. -/
inductive MarkupError
  | emptyDelimiter (kind : TagKind)
  | repeatedKind (kind : TagKind)
  | missingKind
  | sharedOpener (opener : String)
  deriving DecidableEq, Repr

/-- The wording of the fault. -/
def MarkupError.reason : MarkupError → String
  | emptyDelimiter kind => "empty delimiter for " ++ kind.name
  | repeatedKind kind => kind.name ++ " defined twice"
  | missingKind => "missing tag kind"
  | sharedOpener opener => "opener '" ++ opener ++ "' used by more than one tag kind"

/-- The wording of the error. -/
def MarkupError.message (e : MarkupError) : String := "invalid syntax definition: " ++ e.reason

/-- The delimiters of one kind of tag, as a markup is defined from them. -/
structure TagDefinition where
  kind : TagKind
  delimiters : Delimiters
  deriving DecidableEq, Repr

namespace Markup

/-- The first kind whose opener an earlier kind has too. -/
def sharing? (delimiters : TagKind → Delimiters) : Option TagKind :=
  TagKind.all.find? fun k => TagKind.all.any fun j => j.index < k.index && (delimiters j).opener == (delimiters k).opener

theorem injective_of_sharing?_eq_none {delimiters : TagKind → Delimiters} (h : sharing? delimiters = none) (j k : TagKind)
    (hjk : (delimiters j).opener = (delimiters k).opener) : j = k := by
  simp only [sharing?, List.find?_eq_none, List.any_eq_true, not_exists, not_and, Bool.and_eq_true, beq_iff_eq,
    decide_eq_true_eq] at h
  rcases Nat.lt_trichotomy j.index k.index with hlt | heq | hgt
  · exact absurd hjk (h k (TagKind.mem_all k) j (TagKind.mem_all j) hlt)
  · exact TagKind.index_injective heq
  · exact absurd hjk.symm (h j (TagKind.mem_all j) k (TagKind.mem_all k) hgt)

/-- The delimiters that definitions give to the kinds, unless one of them is empty or a kind comes twice; the kinds
defined before are given. -/
def collect (seen : List (TagKind × Delimiters)) : List TagDefinition → Except MarkupError (List (TagKind × Delimiters))
  | [] => .ok seen
  | d :: rest =>
    if d.delimiters.opener = "" ∨ d.delimiters.closer = "" then .error (.emptyDelimiter d.kind)
    else if (seen.lookup d.kind).isSome then .error (.repeatedKind d.kind)
    else collect ((d.kind, d.delimiters) :: seen) rest

/-- The markup that the definitions make up. -/
def ofDefinitions (definitions : List TagDefinition) : Except MarkupError Markup := do
  let seen ← collect [] definitions
  let delimiters := fun k => (seen.lookup k).getD ⟨"", ""⟩
  if h : ∀ k, (delimiters k).opener ≠ "" ∧ (delimiters k).closer ≠ "" then
    match hs : sharing? delimiters with
    | some k => .error (.sharedOpener (delimiters k).opener)
    | none => .ok ⟨delimiters, fun k => (h k).1, fun k => (h k).2, injective_of_sharing?_eq_none hs⟩
  else .error .missingKind

/-- The markup of the first pass over a template. -/
def firstPass : Markup where
  delimiters
    | .comment => ⟨"!\x7b", "\x7d"⟩
    | .expression => ⟨"$\x7b", "\x7d"⟩
    | .escapedExpression => ⟨"$$\x7b", "\x7d"⟩
    | .statement => ⟨"%\x7b", "\x7d"⟩
  opener_ne_empty := by decide
  closer_ne_empty := by decide
  opener_injective := by decide

/-- The markup of the second pass, which the first one leaves alone. -/
def secondPass : Markup where
  delimiters
    | .comment => ⟨"!\x7b", "\x7d"⟩
    | .expression => ⟨"\x7b\x7b\x7b", "\x7d\x7d\x7d"⟩
    | .escapedExpression => ⟨"\x7b\x7b", "\x7d\x7d"⟩
    | .statement => ⟨"\x7b%", "%\x7d"⟩
  opener_ne_empty := by decide
  closer_ne_empty := by decide
  opener_injective := by decide

variable (m : Markup)

/-- The characters of the opener of a kind. -/
def opener (k : TagKind) : List Char := (m.delimiters k).opener.toList

/-- The characters of the closer of a kind. -/
def closer (k : TagKind) : List Char := (m.delimiters k).closer.toList

/-- The brace depth at which the content of a tag begins: the number of left braces in its opener. -/
def depth (k : TagKind) : Nat := (m.opener k).count '\x7b'

/-- The length of the closer in bytes. -/
def closerSize (k : TagKind) : Nat := (m.delimiters k).closer.utf8ByteSize

/-- The kind whose opener is the given text. -/
def kindOf? (opener : String) : Option TagKind := TagKind.all.find? fun k => (m.delimiters k).opener == opener

/-- The kind of the longest opener at the start of a text. -/
def openerAt (cs : List Char) : Option TagKind :=
  TagKind.all.foldl
    (fun best k =>
      if (m.opener k).isPrefixOf cs && best.all fun b => (m.opener b).length < (m.opener k).length then some k else best)
    none

/-- The text up to its first opener that is not escaped, and the kind of that opener with what follows it. The first
`skip` characters are passed over, and `escaped` says that a backslash stands before the text. -/
def untilTag (skip : Nat) (escaped : Bool) : List Char → List Char × Option (TagKind × List Char)
  | [] => ([], none)
  | c :: cs =>
    let passing := fun skip =>
      let (text, found) := untilTag skip (c == '\\') cs
      (c :: text, found)
    match skip with
    | skip + 1 => passing skip
    | 0 =>
      match m.openerAt (c :: cs) with
      | none => passing 0
      | some k =>
        if escaped then passing ((m.opener k).length - 1)
        else ([], some (k, (c :: cs).drop (m.opener k).length))

theorem untilTag_succ (skip : Nat) (escaped : Bool) (c : Char) (cs : List Char) :
    m.untilTag (skip + 1) escaped (c :: cs) =
      (c :: (m.untilTag skip (c == '\\') cs).1, (m.untilTag skip (c == '\\') cs).2) := rfl

theorem untilTag_cons (escaped : Bool) (c : Char) (cs : List Char) :
    m.untilTag 0 escaped (c :: cs) =
      match m.openerAt (c :: cs) with
      | none => (c :: (m.untilTag 0 (c == '\\') cs).1, (m.untilTag 0 (c == '\\') cs).2)
      | some k =>
        if escaped then
          (c :: (m.untilTag ((m.opener k).length - 1) (c == '\\') cs).1,
            (m.untilTag ((m.opener k).length - 1) (c == '\\') cs).2)
        else ([], some (k, (c :: cs).drop (m.opener k).length)) := rfl

/-- The text without the backslashes that stand in front of openers; the first `skip` characters are copied. -/
def unescapeFrom (skip : Nat) : List Char → List Char
  | [] => []
  | c :: cs =>
    match skip with
    | skip + 1 => c :: unescapeFrom skip cs
    | 0 =>
      match c == '\\', m.openerAt cs with
      | true, some k => unescapeFrom (m.opener k).length cs
      | _, _ => c :: unescapeFrom 0 cs

theorem unescapeFrom_succ (skip : Nat) (c : Char) (cs : List Char) :
    m.unescapeFrom (skip + 1) (c :: cs) = c :: m.unescapeFrom skip cs := rfl

theorem unescapeFrom_cons (c : Char) (cs : List Char) :
    m.unescapeFrom 0 (c :: cs) =
      match c == '\\', m.openerAt cs with
      | true, some k => m.unescapeFrom (m.opener k).length cs
      | _, _ => c :: m.unescapeFrom 0 cs := rfl

/-- The text with a backslash in front of every opener; the first `skip` characters are copied. -/
def escapeFrom (skip : Nat) : List Char → List Char
  | [] => []
  | c :: cs =>
    match skip with
    | skip + 1 => c :: escapeFrom skip cs
    | 0 =>
      match m.openerAt (c :: cs) with
      | some k => '\\' :: c :: escapeFrom ((m.opener k).length - 1) cs
      | none => c :: escapeFrom 0 cs

theorem escapeFrom_succ (skip : Nat) (c : Char) (cs : List Char) :
    m.escapeFrom (skip + 1) (c :: cs) = c :: m.escapeFrom skip cs := rfl

theorem escapeFrom_cons (c : Char) (cs : List Char) :
    m.escapeFrom 0 (c :: cs) =
      match m.openerAt (c :: cs) with
      | some k => '\\' :: c :: m.escapeFrom ((m.opener k).length - 1) cs
      | none => c :: m.escapeFrom 0 cs := rfl

/-- The text without the backslashes that stand in front of openers. -/
def unescape (text : String) : String := String.ofList (m.unescapeFrom 0 text.toList)

/-- The text with a backslash in front of every opener, so that all of it is literal. -/
def escape (text : String) : String := String.ofList (m.escapeFrom 0 text.toList)

/-- The place of an opener in a text, in bytes. -/
structure Found where
  start : Nat
  stop : Nat
  kind : TagKind
  deriving DecidableEq, Repr

/-- What is left of a text from a byte on, with the byte at which it starts and whether a backslash stands before it.
Characters that begin before that byte are dropped. -/
def fromByte (start offset : Nat) (escaped : Bool) : List Char → Nat × Bool × List Char
  | [] => (offset, escaped, [])
  | c :: cs =>
    if offset < start then fromByte start (offset + c.utf8Size) (c == '\\') cs else (offset, escaped, c :: cs)

/-- The first opener that is not escaped, at a byte or after it. -/
def findTag (text : String) (start : Nat) : Option Found :=
  let (offset, escaped, rest) := fromByte start 0 false text.toList
  match m.untilTag 0 escaped rest with
  | (_, none) => none
  | (literal, some (k, _)) =>
    let offset := offset + (String.ofList literal).utf8ByteSize
    some ⟨offset, offset + (m.delimiters k).opener.utf8ByteSize, k⟩

/-- The text holds an opener that is not escaped. -/
def isDynamic (text : String) : Bool := (m.findTag text 0).isSome

theorem opener_ne_nil (k : TagKind) : m.opener k ≠ [] := by
  simpa [opener] using m.opener_ne_empty k

theorem length_opener_pos (k : TagKind) : 0 < (m.opener k).length :=
  List.length_pos_iff.mpr (m.opener_ne_nil k)

/-- What follows the first tag's opener is shorter than the text. -/
theorem length_lt_of_untilTag {skip : Nat} {escaped : Bool} {cs literal rest : List Char} {k : TagKind}
    (h : m.untilTag skip escaped cs = (literal, some (k, rest))) : rest.length < cs.length := by
  induction cs generalizing skip escaped literal with
  | nil => cases h
  | cons c cs ih =>
    have pass : ∀ n : Nat, (c :: (m.untilTag n (c == '\\') cs).1, (m.untilTag n (c == '\\') cs).2)
        = (literal, some (k, rest)) → rest.length < (c :: cs).length := fun n hn => by
      simp only [Prod.mk.injEq] at hn
      exact Nat.lt_succ_of_lt (ih (Prod.ext rfl hn.2))
    cases skip with
    | succ n => exact pass n h
    | zero =>
      rw [untilTag_cons] at h
      split at h
      · exact pass 0 h
      · next j hj =>
        split at h
        · exact pass _ h
        · simp only [Prod.mk.injEq, Option.some.injEq] at h
          obtain ⟨_, rfl, rfl⟩ := h
          have := m.length_opener_pos j
          simp only [List.length_drop, List.length_cons]
          omega

end Markup

end Stencil
