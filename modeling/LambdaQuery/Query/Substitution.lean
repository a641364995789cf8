import LambdaQuery.Query.Basic

/-!
# Substitution

A `Substitution` puts a scalar in the place of a name, in nested queries too. The
names that sources bind are left alone; they are chosen apart from the names that are replaced.
-/

set_option autoImplicit false

namespace LambdaQuery

/-- A name and the scalar that takes its place. -/
structure Substitution where
  name : String
  replacement : Scalar

mutual

def Scalar.substitute (σ : Substitution) : Scalar → Scalar
  | .literal value => .literal value
  | .ref name => if name = σ.name then σ.replacement else .ref name
  | .index object key => .index (object.substitute σ) (key.substitute σ)
  | .binary op left right => .binary op (left.substitute σ) (right.substitute σ)
  | .unary op operand => .unary op (operand.substitute σ)
  | .call name args udf => .call name (Scalar.substituteAll σ args) udf
  | .array items => .array (Scalar.substituteAll σ items)
  | .object properties => .object (Scalar.substituteProperties σ properties)
  | .conditional test ifTrue ifFalse =>
    .conditional (test.substitute σ) (ifTrue.substitute σ) (ifFalse.substitute σ)
  | .isIn item items negated =>
    .isIn (item.substitute σ) (Scalar.substituteAll σ items) negated
  | .parameter name => .parameter name
  | .exists query => .exists (query.substitute σ)
  | .arrayOf query => .arrayOf (query.substitute σ)
  | .subquery query => .subquery (query.substitute σ)

def Scalar.substituteAll (σ : Substitution) : List Scalar → List Scalar
  | [] => []
  | s :: ss => s.substitute σ :: Scalar.substituteAll σ ss

def Scalar.substituteProperties (σ : Substitution) :
    List (String × Scalar) → List (String × Scalar)
  | [] => []
  | (name, s) :: ps => (name, s.substitute σ) :: Scalar.substituteProperties σ ps

def Projection.substitute (σ : Substitution) : Projection → Projection
  | .star => .star
  | .value value => .value (value.substitute σ)

def Selection.substitute (σ : Substitution) : Selection → Selection
  | ⟨projection, distinct, top⟩ => ⟨projection.substitute σ, distinct, top⟩

def Source.substitute (σ : Substitution) : Source → Source
  | .container name => .container name
  | .items name path => .items name (path.substitute σ)
  | .subquery name query => .subquery name (query.substitute σ)

def Source.substituteAll (σ : Substitution) : List Source → List Source
  | [] => []
  | s :: ss => s.substitute σ :: Source.substituteAll σ ss

def SortKey.substitute (σ : Substitution) : SortKey → SortKey
  | ⟨value, descending⟩ => ⟨value.substitute σ, descending⟩

def SortKey.substituteAll (σ : Substitution) : List SortKey → List SortKey
  | [] => []
  | k :: ks => k.substitute σ :: SortKey.substituteAll σ ks

def Scalar.substituteOption (σ : Substitution) : Option Scalar → Option Scalar
  | none => none
  | some s => some (s.substitute σ)

def Query.substitute (σ : Substitution) : Query → Query
  | ⟨selection, sources, filter, groupBy, orderBy, offset, limit⟩ =>
    ⟨selection.substitute σ, Source.substituteAll σ sources,
      Scalar.substituteOption σ filter, Scalar.substituteAll σ groupBy,
      SortKey.substituteAll σ orderBy, offset, limit⟩

end

end LambdaQuery
