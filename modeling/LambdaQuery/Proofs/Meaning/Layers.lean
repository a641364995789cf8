import LambdaQuery.Compilation.Operators
import LambdaQuery.Proofs.Alike.Merged
import LambdaQuery.Proofs.Meaning.Alike
import LambdaQuery.Proofs.WellScoped

/-!
# The rows of layers

A layer makes rows of the rows below it (`Layer.rowsOver`), as its query does of those of its source
(`Layer.Plain.toQuery_rows`). What is below a layer are the rows of its source or of the next layer
(`Layer.rowsBelow`).
-/

set_option autoImplicit false

namespace LambdaQuery

variable {V : Type}

/-- What is no aggregate does not see all rows. -/
theorem Scalar.eval_single [DecidableEq V] {D : Database V} : ∀ {s : Scalar}
    (ρ : Valuation V) (g : Option (List (Valuation V))), s.isAggregate = false →
      s.eval D ρ g = s.eval D ρ none
  | .binary op left right, ρ, g, h => by
    obtain ⟨hl, hr⟩ := Bool.or_eq_false_iff.mp h
    rw [Scalar.eval, Scalar.eval, left.eval_single ρ g hl, right.eval_single ρ g hr]
  | .call name args udf, ρ, g, h => by
    cases g with
    | none => rfl
    | some rows =>
      have h : (!udf && Scalar.aggregates.contains name) = false := h
      rw [Scalar.eval, Scalar.eval, h]
      rfl
  | .literal _, _, _, _ | .ref _, _, _, _ | .index .., _, _, _ | .unary .., _, _, _
  | .array _, _, _, _ | .object _, _, _, _ | .conditional .., _, _, _ | .isIn .., _, _, _
  | .parameter _, _, _, _ | .exists _, _, _, _ | .arrayOf _, _, _, _ | .subquery _, _, _, _ => rfl

/-- Sources bind their names and no others. -/
theorem Source.valuations_of_notMem [DecidableEq V] {D : Database V} {n : String}
    {ss : List Source} (hn : ∀ s ∈ ss, s.name ≠ n) : ∀ {ρ ρ' : Valuation V},
      ρ' ∈ Source.valuations D ss ρ → ρ' n = ρ n := by
  induction ss with
  | nil =>
    intro ρ ρ' h
    rw [List.mem_singleton.mp h]
  | cons s ss ih =>
    obtain ⟨hs, hss⟩ := List.forall_mem_cons.mp hn
    have hbound : ∀ (rows : List V) {ρ ρ' : Valuation V}, ρ' ∈ rows.flatMap (fun v =>
        Source.valuations D ss (Function.update ρ s.name v)) → ρ' n = ρ n := by
      intro rows ρ ρ' h
      obtain ⟨v, -, h⟩ := List.mem_flatMap.mp h
      rw [ih hss h, Function.update_of_ne hs.symm]
    intro ρ ρ' h
    cases s with
    | container name => exact hbound _ h
    | items name path => exact hbound _ h
    | subquery name query => exact hbound _ h

theorem Source.valuations_append [DecidableEq V] {D : Database V} (ss ts : List Source)
    (ρ : Valuation V) : Source.valuations D (ss ++ ts) ρ =
      (Source.valuations D ss ρ).flatMap (Source.valuations D ts) := by
  induction ss generalizing ρ with
  | nil => simp [Source.valuations]
  | cons s ss ih => cases s <;> simp [Source.valuations, ih, List.flatMap_assoc]

theorem Source.blank_nothing (D : Database V) (ss : List Source) :
    Source.blank D ss D.nothing = D.nothing := by
  induction ss with
  | nil => rfl
  | cons s ss ih =>
    have h : Function.update D.nothing s.name (D.literal .undefined) = D.nothing :=
      Function.update_eq_self s.name D.nothing
    rw [Source.blank, h, ih]

/-! ## Constants -/

/-- Only parameters stand for one another, and only as they are. -/
structure Likeness.Plain (c : Likeness) : Prop where
  leaf : ∀ a b, c.leaf a b → ∃ name, a = .parameter name ∧ b = .parameter name
  count : ∀ m n, c.count m n → m = n

theorem Likeness.Plain.reads [DecidableEq V] {D : Database V} {c : Likeness} (hc : c.Plain) :
    c.Reads D D.parameter fun _ _ => True where
  count m n h := congrArg D.size (hc.count m n h)
  single a b h := by
    obtain ⟨name, rfl, rfl⟩ := hc.leaf a b h
    exact ⟨rfl, rfl⟩
  leaf g g' h _ := by
    obtain ⟨name, rfl, rfl⟩ := hc.leaf _ _ h
    rfl
  bind _ _ _ _ := trivial

theorem Likeness.Plain.reserve {c : Likeness} (hc : c.Plain) (left right : List String) :
    (c.reserve left right).Plain := ⟨hc.leaf, hc.count⟩

theorem Likeness.verbatim_plain (taken : List String) : (Likeness.verbatim taken).Plain :=
  ⟨fun _ _ => id, fun _ _ => id⟩

/-- What is well-scoped wherever it stands has no names. -/
theorem Scalar.notMem_names_of_wellScoped {s : Scalar} (h : ∀ bound, s.WellScoped bound)
    (n : String) : n ∉ s.names := by
  have halike : Scalar.Alike (.verbatim [n]) (.ofNames []) s s := WellScoped.alike s (h _) (h _)
  refine halike.notMem ⟨List.mem_singleton_self n, ?_, fun _ hp => nomatch hp⟩
  rintro a b ⟨name, rfl, rfl⟩
  exact List.not_mem_nil

/-- What has no names has one value. -/
theorem Scalar.eval_of_wellScoped [DecidableEq V] {D : Database V} (hD : D.Lawful) {s : Scalar}
    (h : ∀ bound, s.WellScoped bound) (ρ ρ' : Valuation V) :
    s.eval D ρ none = s.eval D ρ' none := by
  have halike : Scalar.Alike (.verbatim []) (.ofNames []) s s := WellScoped.alike s (h _) (h _)
  exact halike.eval_eq hD (Likeness.verbatim_plain []).reads (fun _ hp => nomatch hp) trivial

/-! ## Totals -/

/-- Whether there are any rows. -/
def Compilation.anyRows : Scalar := .binary .greaterThan countAll (.integer 0)

/-- What is made of all rows: outside of aggregates it has no names. -/
inductive Scalar.Totals : Scalar → Prop where
  | aggregate {function : String} (h : Scalar.aggregates.contains function = true)
    (args : List Scalar) : Scalar.Totals (.builtin function args)
  | constant {s : Scalar} (h : s.isAggregate = false) (hs : ∀ bound, s.WellScoped bound) :
    Scalar.Totals s
  | binary (op : QueryBinaryOp) {left right : Scalar} (h : left.Totals) (h' : right.Totals) :
    Scalar.Totals (.binary op left right)

theorem Scalar.Totals.any : Compilation.anyRows.Totals :=
  .binary _ (.aggregate (by decide) _) (.constant rfl fun _ => trivial)

theorem Scalar.Totals.substitute {s : Scalar} (h : s.Totals) (σ : Substitution) :
    (s.substitute σ).Totals := by
  induction h with
  | aggregate h args => exact .aggregate h (Scalar.substituteAll σ args)
  | constant h hs =>
    rw [Scalar.substitute_of_not_mem _ (notMem_names_of_wellScoped hs _)]
    exact .constant h hs
  | binary op _ _ ih ih' => exact .binary op ih ih'

section

variable [DecidableEq V] {D : Database V} {function : String}

theorem Scalar.eval_aggregate (h : Scalar.aggregates.contains function = true)
    (operand : Scalar) (ρ : Valuation V) (rows : List (Valuation V)) :
    (Scalar.builtin function [operand]).eval D ρ (some rows) =
      (D.aggregated function (rows.map fun ρ => [operand.eval D ρ none])).getD
        (D.literal .undefined) := by
  rw [Scalar.builtin, Scalar.eval, h]
  rfl

theorem Scalar.missing_aggregate (h : Scalar.aggregates.contains function = true)
    (operand : Scalar) (rows : List (Valuation V)) :
    (Scalar.builtin function [operand]).missing D rows =
      (D.aggregated function (rows.map fun ρ => [operand.eval D ρ none])).isNone := by
  rw [Scalar.builtin, Scalar.missing, h]
  rfl

theorem Scalar.eval_anyRows (D : Database V) (ρ : Valuation V) (rows : List (Valuation V)) :
    Compilation.anyRows.eval D ρ (some rows) =
      D.binary .greaterThan (D.count rows.length) (D.count 0) := by
  rw [Compilation.anyRows, Scalar.eval, Compilation.countAll, eval_aggregate (by decide),
    Database.aggregated, if_pos rfl, List.length_map]
  rfl

/-- Beside the rows, a total depends on nothing. -/
theorem Scalar.Totals.eval_same {c : Likeness} {σ : Substitution}
    {P : Context → Valuation V → Valuation V → Prop} {Γ : Context} {s : Scalar} (h : s.Totals)
    (hD : D.Lawful) (hp : c.Plain) (hc : c.Means D D.parameter σ P) (hs : Scalar.Alike c Γ s s)
    {ρ ρ' : Valuation V} {rows rows' : List (Valuation V)}
    (hrows : List.Forall₂ (P Γ) rows rows') :
    (s.substitute σ).eval D ρ (some rows) = s.eval D ρ' (some rows') := by
  induction h with
  | @aggregate function h args =>
    cases hs with
    | leaf hleaf => obtain ⟨_, hname, -⟩ := hp.leaf _ _ hleaf; cases hname
    | call _ _ hargs =>
      have hsame := Scalar.evalAll_rows_same (hargs.eval hD hc) hrows
      rw [Scalar.builtin, Scalar.substitute, Scalar.eval, Scalar.eval, h, hsame]
      rfl
  | constant h hs' =>
    rw [Scalar.substitute_of_not_mem _ (notMem_names_of_wellScoped hs' _),
      Scalar.eval_single ρ _ h, Scalar.eval_single ρ' _ h]
    exact Scalar.eval_of_wellScoped hD hs' ρ ρ'
  | binary op _ _ ih ih' =>
    cases hs with
    | leaf hleaf => obtain ⟨_, hname, -⟩ := hp.leaf _ _ hleaf; cases hname
    | binary _ hl hr =>
      rw [Scalar.substitute, Scalar.eval, Scalar.eval, ih hl, ih' hr]

end

/-! ## Layers -/

namespace Layer

/-- The arrays that a layer joins, as sources. -/
def joinSources (js : List (String × Scalar)) : List Source :=
  js.map fun (name, path) => .items name path

theorem joinSources_substitute (σ : Substitution) (js : List (String × Scalar)) :
    joinSources (js.map fun (name, path) => (name, path.substitute σ)) =
      Source.substituteAll σ (joinSources js) := by
  induction js with
  | nil => rfl
  | cons j js ih => exact congrArg _ ih

section

variable [DecidableEq V] (D : Database V)

/-- What the clauses of a layer make of its rows. -/
def meaning (l : Layer) : ClauseSemantics V where
  passes := Scalar.passes D l.filter
  keys := SortKey.keys D l.orderBy
  value := l.row.eval D
  aggregate := l.row.isAggregate
  missing := l.row.missing D
  distinct := l.isDistinct
  top := l.top.map D.size
  offset := l.offset.map D.size
  limit := l.limit.map D.size

/-- The rows below, each with the items that it is joined with. -/
def valuations (l : Layer) (rows : List V) : List (Valuation V) :=
  rows.flatMap fun v =>
    Source.valuations D (joinSources l.joins) (Function.update D.nothing l.name v)

/-- What the layer keeps of these, in its order. -/
def kept (l : Layer) (rows : List V) : List (Valuation V) :=
  (l.meaning D).kept D (l.valuations D rows)

/-- The values that a layer selects from rows below. -/
def values (l : Layer) (rows : List V) : List V :=
  (l.meaning D).values D D.nothing (l.valuations D rows)

/-- These values, each once if the layer is distinct. -/
def free (l : Layer) (rows : List V) : List V :=
  if l.isDistinct then Rows.distinct (l.values D rows) else l.values D rows

/-- The rows of a layer over the given ones. -/
def rowsOver (l : Layer) (rows : List V) : List V := (l.meaning D).bounded (l.free D rows)

/-- The rows of the source of a layer that reads no other layer. -/
def inputs (l : Layer) : List V :=
  match l.source with
  | .container => D.documents
  | .items path => D.items (path.eval D D.nothing none)
  | .subquery query => query.rows D D.nothing

end

theorem values_eq_map [DecidableEq V] {D : Database V} {l : Layer} (h : l.row.isAggregate = false)
    (rows : List V) : l.values D rows = (l.kept D rows).map fun ρ => l.row.eval D ρ none := by
  rw [values, ClauseSemantics.values, meaning, h]
  rfl

/-- The rows of the layers below. -/
def rowsBelow [DecidableEq V] (D : Database V) (l : Layer) : List Layer → List V
  | [] => l.inputs D
  | next :: rest => next.rowsOver D (next.rowsBelow D rest)

/-- Layers that group nothing and select values or a total. -/
structure Plain (l : Layer) : Prop where
  ungrouped : l.groupBy = []
  valued : ∀ s, l.selection = some s → ∃ v, s.projection = .value v
  total : l.row.isAggregate = true → l.row.Totals

theorem valuations_toQuery [DecidableEq V] {D : Database V} (l : Layer) :
    Source.valuations D l.toQuery.sources D.nothing = l.valuations D (l.inputs D) := by
  unfold toQuery toSource inputs
  cases l.source <;> rfl

/-- **The query of a layer has the rows of the layer.** -/
theorem Plain.toQuery_rows [DecidableEq V] {D : Database V} {l : Layer} (h : l.Plain) :
    l.toQuery.rows D D.nothing = l.rowsOver D (l.inputs D) := by
  have hselection : l.toQuery.selection = ⟨.value l.row, l.isDistinct, l.top⟩ := by
    unfold toQuery isDistinct row
    cases hs : l.selection with
    | none => rfl
    | some s =>
      obtain ⟨v, hv⟩ := h.valued s hs
      obtain ⟨projection, distinct, top⟩ := s
      subst hv
      rfl
  have hq : l.toQuery =
      ⟨⟨.value l.row, l.isDistinct, l.top⟩, l.toQuery.sources, l.filter, [], l.orderBy, l.offset,
        l.limit⟩ := by
    rw [← hselection, ← h.ungrouped]
    rfl
  rw [hq, Query.rows, valuations_toQuery, Source.blank_nothing]
  rfl

end Layer

end LambdaQuery
