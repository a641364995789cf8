import LambdaQuery.Proofs.Meaning.Basic

/-!
# Values of scalars, with every clause

`Scalar.denote` gives a scalar a value under an `Interpretation`, in which the operators and the
functions of the query language are arbitrary and any of them may aggregate. Nested queries have all
their clauses: grouping and the star too, which `Scalar.eval` leaves out. What a query selects for
is an `Entry`, a row or a group of rows.
-/

set_option autoImplicit false

namespace LambdaQuery

/-- The documents, and what the language makes of values. A function aggregates if `aggregation` has
something to make of its arguments in all rows. -/
structure Interpretation (V : Type) extends Database V where
  aggregation : String → Bool → Option (List (List V) → V)
  /-- The row that a star selects, of what the sources bind. -/
  star : List (String × V) → V
  /-- A selected value that makes no row. -/
  missing : V → Bool
  /-- The position of the row that stands for a group of a given size. -/
  pick : Nat → Nat

/-- The rows by their keys: one group for each key, in the order of the first rows. -/
def Rows.groups {α κ : Type} [DecidableEq κ] (key : α → κ) (rows : List α) : List (List α) :=
  (distinct (rows.map key)).map fun k => rows.filter (key · = k)

/-- What a query selects for: what the names stand for, and the rows that are aggregated, if it
aggregates. -/
abbrev Entry (V : Type) := Valuation V × Option (List (Valuation V))

namespace Interpretation

variable {V : Type} [DecidableEq V] (I : Interpretation V)

/-- One entry for each group, one for all rows where the selection aggregates them, and otherwise
one for each row. `blank` has what the names stand for beside all rows. -/
def entries (blank : Valuation V) (key : Valuation V → List V) (groups aggregates : Bool)
    (rows : List (Valuation V)) : List (Entry V) :=
  if groups then
    (Rows.groups key rows).map fun group => (group[I.pick group.length]?.getD blank, some group)
  else if aggregates then [(blank, some rows)]
  else rows.map fun ρ => (ρ, none)

/-- The rows that are selected for entries. -/
def selected (keys : List ((Entry V → V) × Bool)) (value : Entry V → V) (isDistinct : Bool)
    (top offset limit : Option Count) (entries : List (Entry V)) : List V :=
  let values := ((I.sorted keys entries).map value).filter (!I.missing ·)
  Rows.atMost (limit.map I.size) (Rows.behind (offset.map I.size)
    (Rows.atMost (top.map I.size) (if isDistinct then Rows.distinct values else values)))

end Interpretation

section

variable {V : Type} (I : Interpretation V)

mutual

/-- Whether a scalar calls a function that aggregates, outside of its nested queries. -/
def Scalar.aggregatesIn : Scalar → Bool
  | .literal _ | .ref _ | .parameter _ | .exists _ | .arrayOf _ | .subquery _ => false
  | .index object key => object.aggregatesIn || key.aggregatesIn
  | .binary _ left right => left.aggregatesIn || right.aggregatesIn
  | .unary _ operand => operand.aggregatesIn
  | .call name args udf => (I.aggregation name udf).isSome || Scalar.anyAggregatesIn args
  | .array items => Scalar.anyAggregatesIn items
  | .object properties => Scalar.propertiesAggregateIn properties
  | .conditional test ifTrue ifFalse =>
    test.aggregatesIn || (ifTrue.aggregatesIn || ifFalse.aggregatesIn)
  | .isIn item items _ => item.aggregatesIn || Scalar.anyAggregatesIn items

def Scalar.anyAggregatesIn : List Scalar → Bool
  | [] => false
  | s :: ss => s.aggregatesIn || Scalar.anyAggregatesIn ss

def Scalar.propertiesAggregateIn : List (String × Scalar) → Bool
  | [] => false
  | (_, s) :: ps => s.aggregatesIn || Scalar.propertiesAggregateIn ps

def Projection.aggregatesIn : Projection → Bool
  | .star => false
  | .value value => value.aggregatesIn

end

variable [DecidableEq V]

mutual

/-- The value of a scalar. Where rows are aggregated, `some rows` are the rows. -/
def Scalar.denote : Scalar → Valuation V → Option (List (Valuation V)) → V
  | .literal value, _, _ => I.literal value
  | .ref name, ρ, _ => ρ name
  | .index object key, ρ, g => I.index (object.denote ρ g) (key.denote ρ g)
  | .binary op left right, ρ, g => I.binary op (left.denote ρ g) (right.denote ρ g)
  | .unary op operand, ρ, g => I.unary op (operand.denote ρ g)
  | .call name args udf, ρ, none => I.call name udf (Scalar.denoteAll args ρ none)
  | .call name args udf, ρ, some rows =>
    match I.aggregation name udf with
    | some aggregate => aggregate (rows.map fun ρ => Scalar.denoteAll args ρ none)
    | none => I.call name udf (Scalar.denoteAll args ρ (some rows))
  | .array items, ρ, g => I.array (Scalar.denoteAll items ρ g)
  | .object properties, ρ, g => I.object (Scalar.denoteProperties properties ρ g)
  | .conditional test ifTrue ifFalse, ρ, g =>
    I.conditional (test.denote ρ g) (ifTrue.denote ρ g) (ifFalse.denote ρ g)
  | .isIn item items negated, ρ, g =>
    I.isIn (item.denote ρ g) (Scalar.denoteAll items ρ g) negated
  | .parameter name, _, _ => I.parameter name
  | .exists query, ρ, _ => I.literal (.boolean !(query.denote ρ).isEmpty)
  | .arrayOf query, ρ, _ => I.array (query.denote ρ)
  | .subquery query, ρ, _ => (query.denote ρ).headD (I.literal .undefined)

def Scalar.denoteAll : List Scalar → Valuation V → Option (List (Valuation V)) → List V
  | [], _, _ => []
  | s :: ss, ρ, g => s.denote ρ g :: Scalar.denoteAll ss ρ g

def Scalar.denoteProperties :
    List (String × Scalar) → Valuation V → Option (List (Valuation V)) → List (String × V)
  | [], _, _ => []
  | (name, s) :: ps, ρ, g => (name, s.denote ρ g) :: Scalar.denoteProperties ps ρ g

/-- What a projection selects for an entry, where the sources bind `names`. -/
def Projection.denote (names : List String) : Projection → Entry V → V
  | .star, entry => I.star (names.map fun name => (name, entry.1 name))
  | .value value, entry => value.denote entry.1 entry.2

/-- Whether the filter, if there is one, holds. -/
def Scalar.denoteFilter : Option Scalar → Valuation V → Bool
  | none, _ => true
  | some s, ρ => I.holds (s.denote ρ none)

def SortKey.denoteAll : List SortKey → List ((Entry V → V) × Bool)
  | [] => []
  | ⟨value, descending⟩ :: ks =>
    (fun entry => value.denote entry.1 entry.2, descending) :: SortKey.denoteAll ks

/-- Nested loops, from left to right. -/
def Source.denoteAll : List Source → Valuation V → List (Valuation V)
  | [], ρ => [ρ]
  | .container name :: ss, ρ =>
    I.documents.flatMap fun v => Source.denoteAll ss (Function.update ρ name v)
  | .items name path :: ss, ρ =>
    (I.items (path.denote ρ none)).flatMap fun v =>
      Source.denoteAll ss (Function.update ρ name v)
  | .subquery name query :: ss, ρ =>
    (query.denote ρ).flatMap fun v => Source.denoteAll ss (Function.update ρ name v)

/-- The rows of a query: those of its sources that pass the filter, grouped if there are keys to
group by, sorted, selected and bounded. -/
def Query.denote : Query → Valuation V → List V
  | ⟨⟨projection, isDistinct, top⟩, sources, filter, groupBy, orderBy, offset, limit⟩, ρ =>
    I.selected (SortKey.denoteAll orderBy) (Projection.denote (sources.map Source.name) projection)
      isDistinct top offset limit
      (I.entries (Source.blank I.toDatabase sources ρ) (Scalar.denoteAll groupBy · none)
        (!groupBy.isEmpty) (projection.aggregatesIn I)
        ((Source.denoteAll sources ρ).filter fun ρ => Scalar.denoteFilter filter ρ))

end

end

end LambdaQuery
