import Stencil.Directive
import Stencil.Token

/-!
# Nodes

A node is a token by what it is for: text, with the mark that a strip marker stands before it; an expression, an
escaped expression, a statement or a comment with its body; or a directive. There is one node for each token, in the
same order and on the same line (`length_ofTokens`).
-/

namespace Stencil

/-- What a node is for. -/
inductive NodeKind
  | text (content : String) (stripLeading : Bool)
  | expression (code : String)
  | escapedExpression (code : String)
  | statement (code : String)
  | comment (body : String)
  | directive (d : Directive)
  deriving DecidableEq, Repr

/-- A classified token and its line. -/
structure Node where
  kind : NodeKind
  line : Nat
  deriving DecidableEq, Repr

namespace Node

/-- A statement body is a directive or belongs to the script. -/
def ofStatement (body : String) : NodeKind :=
  match Directive.ofBody? body with
  | some d => .directive d
  | none => .statement body

/-- The node of a token; `strip` says that the token before it is a tag with a strip marker. -/
def ofToken (strip : Bool) (t : Token) : Node :=
  let kind := match t.kind with
    | .text => .text t.body strip
    | .tag .expression => .expression t.body
    | .tag .escapedExpression => .escapedExpression t.body
    | .tag .comment => .comment t.body
    | .tag .statement => ofStatement t.body
  ⟨kind, t.line⟩

/-- The token is a tag with a strip marker. -/
def strips (t : Token) : Bool := t.kind != .text && t.strip

/-- The nodes of tokens, the first of which may follow a tag with a strip marker. -/
def ofTokensFrom (strip : Bool) : List Token → List Node
  | [] => []
  | t :: rest => ofToken strip t :: ofTokensFrom (strips t) rest

/-- The nodes of tokens. -/
def ofTokens (tokens : List Token) : List Node := ofTokensFrom false tokens

theorem length_ofTokensFrom (strip : Bool) (tokens : List Token) :
    (ofTokensFrom strip tokens).length = tokens.length := by
  induction tokens generalizing strip with
  | nil => rfl
  | cons t rest ih => simp [ofTokensFrom, ih]

@[simp] theorem length_ofTokens (tokens : List Token) : (ofTokens tokens).length = tokens.length :=
  length_ofTokensFrom ..

end Node

end Stencil
