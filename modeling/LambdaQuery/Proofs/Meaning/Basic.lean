import LambdaQuery.Query.Substitution
import LambdaQuery.Proofs.Meaning.Rows
import Mathlib.Data.List.Forall2
import Mathlib.Logic.Function.Basic

/-!
# The rows of a query

What a query selects from a `Database`: the operators and functions of the query language stand for
any functions on its values. The sources of a query are nested loops; the rows that pass the filter
are sorted, selected from or aggregated, and bounded (`ClauseSemantics.rows`). An aggregate makes
one row of them, or none. Queries that group or select whole rows by a star are left out: they have
no rows here.
-/

set_option autoImplicit false

namespace LambdaQuery

/-- What the names in scope stand for. -/
abbrev Valuation (V : Type) := String → V

/-- The documents of the container and what the language makes of values. -/
structure Database (V : Type) where
  documents : List V
  literal : Literal → V
  parameter : String → V
  /-- The number of rows that a parameter bounds a query by. -/
  bound : String → Nat
  index : V → V → V
  binary : QueryBinaryOp → V → V → V
  unary : QueryUnaryOp → V → V
  call : String → Bool → List V → V
  /-- An aggregate other than the number of rows, of its arguments for each row. Of no rows there
  may be none. -/
  aggregate : String → List (List V) → Option V
  array : List V → V
  object : List (String × V) → V
  conditional : V → V → V → V
  isIn : V → List V → Bool → V
  /-- The items of an array. -/
  items : V → List V
  /-- Whether a condition holds. -/
  holds : V → Bool
  /-- The order of values that rows are sorted by. -/
  le : V → V → Bool

namespace Database

variable {V : Type} (D : Database V)

structure Lawful : Prop where
  and : ∀ v w, D.holds (D.binary .and v w) = (D.holds v && D.holds w)
  /-- The two membership tests are each other's negations. -/
  not : ∀ v vs negated, D.unary .not (D.isIn v vs negated) = D.isIn v vs !negated
  total : ∀ v w, D.le v w = true ∨ D.le w v = true
  trans : ∀ u v w, D.le u v = true → D.le v w = true → D.le u w = true

def count (n : Nat) : V := D.literal (.integer (.ofNat n))

def aggregated (name : String) (rows : List (List V)) : Option V :=
  if name = "COUNT" then some (D.count rows.length) else D.aggregate name rows

def size : Count → Nat
  | .literal n => n.toInt.toNat
  | .parameter name => D.bound name

/-! ## Sorting -/

variable {α β : Type}

/-- Whether a row may come before another one: the first key that tells them apart decides. -/
def before : List ((α → V) × Bool) → α → α → Bool
  | [], _, _ => true
  | (key, descending) :: keys, a, b =>
    if descending then D.le (key b) (key a) && (!D.le (key a) (key b) || before keys a b)
    else D.le (key a) (key b) && (!D.le (key b) (key a) || before keys a b)

/-- The stable sort by keys. -/
def sorted (keys : List ((α → V) × Bool)) (rows : List α) : List α :=
  rows.insertionSort fun a b => D.before keys a b = true

variable {D}

theorem before_total (h : D.Lawful) (keys : List ((α → V) × Bool)) (a b : α) :
    D.before keys a b = true ∨ D.before keys b a = true := by
  induction keys with
  | nil => exact .inl rfl
  | cons k keys ih =>
    obtain ⟨key, descending⟩ := k
    have hab := h.total (key a) (key b)
    cases descending <;> simp only [before, Bool.false_eq_true, if_true, if_false] <;> grind

theorem before_trans (h : D.Lawful) (keys : List ((α → V) × Bool)) {a b c : α}
    (hab : D.before keys a b = true) (hbc : D.before keys b c = true) :
    D.before keys a c = true := by
  induction keys with
  | nil => rfl
  | cons k keys ih =>
    obtain ⟨key, descending⟩ := k
    have htrans := h.trans
    cases descending <;>
      simp only [before, Bool.false_eq_true, if_true, if_false, Bool.and_eq_true, Bool.or_eq_true,
        Bool.not_eq_true'] at hab hbc ⊢ <;> grind

theorem Lawful.isTrans (h : D.Lawful) (keys : List ((α → V) × Bool)) :
    IsTrans α fun a b => D.before keys a b = true :=
  ⟨fun _ _ _ => before_trans h keys⟩

theorem Lawful.isTotal (h : D.Lawful) (keys : List ((α → V) × Bool)) :
    Std.Total fun a b : α => D.before keys a b = true :=
  ⟨before_total h keys⟩

/-! What a sort may be exchanged with. -/

@[simp] theorem sorted_nil (rows : List α) : D.sorted [] rows = rows :=
  List.Pairwise.insertionSort_eq (List.pairwise_of_forall_mem_list fun _ _ _ _ => rfl)

theorem filter_sorted (h : D.Lawful) (keys : List ((α → V) × Bool)) (p : α → Bool)
    (rows : List α) : (D.sorted keys rows).filter p = D.sorted keys (rows.filter p) :=
  have := h.isTrans keys
  have := h.isTotal keys
  Rows.filter_insertionSort p rows

theorem distinct_sorted [DecidableEq α] (h : D.Lawful) (keys : List ((α → V) × Bool))
    (rows : List α) : Rows.distinct (D.sorted keys rows) = D.sorted keys (Rows.distinct rows) :=
  have := h.isTrans keys
  have := h.isTotal keys
  Rows.distinct_insertionSort rows

/-- Rows made of others are sorted as those are, if the keys agree. -/
theorem map_sorted {keys : List ((α → V) × Bool)} {keys' : List ((β → V) × Bool)} {f : α → β}
    (h : ∀ a a', D.before keys a a' = D.before keys' (f a) (f a')) (rows : List α) :
    (D.sorted keys rows).map f = D.sorted keys' (rows.map f) :=
  List.map_insertionSort _ _ f rows fun a _ a' _ => by rw [h]

/-- Joined rows are sorted as what they are joined to, if the keys agree. -/
theorem flatMap_sorted (hD : D.Lawful) {keys : List ((α → V) × Bool)}
    {keys' : List ((β → V) × Bool)} {f : α → List β}
    (h : ∀ a a', ∀ b ∈ f a, ∀ b' ∈ f a', D.before keys' b b' = D.before keys a a')
    (rows : List α) : D.sorted keys' (rows.flatMap f) = (D.sorted keys rows).flatMap f :=
  have := hD.isTrans keys
  have := hD.isTotal keys
  Rows.flatMap_insertionSort (fun a a' b hb b' hb' => by rw [h a a' b hb b' hb']) rows

end Database

/-! ## Clauses -/

/-- What the clauses of a query make of the rows of its sources. -/
structure ClauseSemantics (V : Type) where
  passes : Valuation V → Bool
  keys : List ((Valuation V → V) × Bool)
  /-- The selected value, for a row or for all rows. -/
  value : Valuation V → Option (List (Valuation V)) → V
  aggregate : Bool
  /-- Whether an aggregate of rows has no value. -/
  missing : List (Valuation V) → Bool
  distinct : Bool
  top : Option Nat
  offset : Option Nat
  limit : Option Nat

namespace ClauseSemantics

variable {V : Type} (D : Database V) (c : ClauseSemantics V)

def kept (ρs : List (Valuation V)) : List (Valuation V) := D.sorted c.keys (ρs.filter c.passes)

def values (ρ : Valuation V) (ρs : List (Valuation V)) : List V :=
  if c.aggregate then
    if c.missing (c.kept D ρs) then [] else [c.value ρ (some (c.kept D ρs))]
  else (c.kept D ρs).map (c.value · none)

variable [DecidableEq V]

def unlimited (ρ : Valuation V) (ρs : List (Valuation V)) : List V :=
  if c.distinct then Rows.distinct (c.values D ρ ρs) else c.values D ρ ρs

/-- At most the top rows; then those behind the offset, at most the limit of them. -/
def bounded (rows : List V) : List V :=
  Rows.atMost c.limit (Rows.behind c.offset (Rows.atMost c.top rows))

def rows (ρ : Valuation V) (ρs : List (Valuation V)) : List V := c.bounded (c.unlimited D ρ ρs)

end ClauseSemantics

/-! ## Evaluation -/

section

variable {V : Type} (D : Database V)

/-- Outside of all queries names stand for nothing. -/
def Database.nothing : Valuation V := fun _ => D.literal .undefined

/-- Beside an aggregate, which is of all rows, the names of the sources stand for nothing. -/
def Source.blank : List Source → Valuation V → Valuation V
  | [], ρ => ρ
  | s :: ss, ρ => Source.blank ss (Function.update ρ s.name (D.literal .undefined))

variable [DecidableEq V]

mutual

/-- The value of a scalar. Where a query aggregates, `some rows` are the rows. -/
def Scalar.eval : Scalar → Valuation V → Option (List (Valuation V)) → V
  | .literal value, _, _ => D.literal value
  | .ref name, ρ, _ => ρ name
  | .index object key, ρ, _ => D.index (object.eval ρ none) (key.eval ρ none)
  | .binary op left right, ρ, g => D.binary op (left.eval ρ g) (right.eval ρ g)
  | .unary op operand, ρ, _ => D.unary op (operand.eval ρ none)
  | .call name args udf, ρ, none => D.call name udf (Scalar.evalAll args ρ)
  | .call name args udf, ρ, some rows =>
    if !udf && Scalar.aggregates.contains name then
      (D.aggregated name (rows.map fun ρ => Scalar.evalAll args ρ)).getD (D.literal .undefined)
    else D.call name udf (Scalar.evalAll args ρ)
  | .array items, ρ, _ => D.array (Scalar.evalAll items ρ)
  | .object properties, ρ, _ => D.object (Scalar.evalProperties properties ρ)
  | .conditional test ifTrue ifFalse, ρ, _ =>
    D.conditional (test.eval ρ none) (ifTrue.eval ρ none) (ifFalse.eval ρ none)
  | .isIn item items negated, ρ, _ =>
    D.isIn (item.eval ρ none) (Scalar.evalAll items ρ) negated
  | .parameter name, _, _ => D.parameter name
  | .exists query, ρ, _ => D.literal (.boolean !(query.rows ρ).isEmpty)
  | .arrayOf query, ρ, _ => D.array (query.rows ρ)
  | .subquery query, ρ, _ => (query.rows ρ).headD (D.literal .undefined)

def Scalar.evalAll : List Scalar → Valuation V → List V
  | [], _ => []
  | s :: ss, ρ => s.eval ρ none :: Scalar.evalAll ss ρ

def Scalar.evalProperties : List (String × Scalar) → Valuation V → List (String × V)
  | [], _ => []
  | (name, s) :: ps, ρ => (name, s.eval ρ none) :: Scalar.evalProperties ps ρ

/-- Whether a scalar is an aggregate that the rows have none of. -/
def Scalar.missing : Scalar → List (Valuation V) → Bool
  | .call name args udf, rows =>
    !udf && Scalar.aggregates.contains name &&
      (D.aggregated name (rows.map fun ρ => Scalar.evalAll args ρ)).isNone
  | _, _ => false

/-- Whether the filter, if there is one, holds. -/
def Scalar.passes : Option Scalar → Valuation V → Bool
  | none, _ => true
  | some s, ρ => D.holds (s.eval ρ none)

def SortKey.keys : List SortKey → List ((Valuation V → V) × Bool)
  | [] => []
  | ⟨value, descending⟩ :: ks => (fun ρ => value.eval ρ none, descending) :: SortKey.keys ks

/-- Nested loops, from left to right. -/
def Source.valuations : List Source → Valuation V → List (Valuation V)
  | [], ρ => [ρ]
  | .container name :: ss, ρ =>
    D.documents.flatMap fun v => Source.valuations ss (Function.update ρ name v)
  | .items name path :: ss, ρ =>
    (D.items (path.eval ρ none)).flatMap fun v =>
      Source.valuations ss (Function.update ρ name v)
  | .subquery name query :: ss, ρ =>
    (query.rows ρ).flatMap fun v => Source.valuations ss (Function.update ρ name v)

def Query.rows : Query → Valuation V → List V
  | ⟨⟨.value value, distinct, top⟩, sources, filter, [], orderBy, offset, limit⟩, ρ =>
    ClauseSemantics.rows D
      { passes := fun ρ => Scalar.passes filter ρ
        keys := SortKey.keys orderBy
        value := fun ρ g => value.eval ρ g
        aggregate := value.isAggregate
        missing := fun rows => value.missing rows
        distinct := distinct
        top := top.map D.size
        offset := offset.map D.size
        limit := limit.map D.size }
      (Source.blank D sources ρ) (Source.valuations sources ρ)
  | _, _ => []

end

end

end LambdaQuery
