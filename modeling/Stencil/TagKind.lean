/-!
# Kinds of tags

A template has four kinds of tags: comments, expressions, expressions whose text is escaped, and statements.
-/

namespace Stencil

/-- The kind of a tag. -/
inductive TagKind
  | comment
  | expression
  | escapedExpression
  | statement
  deriving DecidableEq, Repr, Inhabited

namespace TagKind

/-- The kinds in their order. -/
def all : List TagKind := [comment, expression, escapedExpression, statement]

/-- The place of a kind in the order. -/
def index : TagKind → Nat
  | comment => 0
  | expression => 1
  | escapedExpression => 2
  | statement => 3

/-- The name of a kind, as messages show it. -/
def name : TagKind → String
  | comment => "Comment"
  | expression => "Expression"
  | escapedExpression => "EscapedExpression"
  | statement => "Statement"

@[simp] theorem mem_all (k : TagKind) : k ∈ all := by cases k <;> decide

theorem index_injective {j k : TagKind} (h : j.index = k.index) : j = k := by
  cases j <;> cases k <;> first | rfl | cases h

instance decidableForall (p : TagKind → Prop) [DecidablePred p] : Decidable (∀ k, p k) :=
  decidable_of_iff (∀ k ∈ all, p k) ⟨fun h k => h k (mem_all k), fun h k _ => h k⟩

end TagKind

end Stencil
