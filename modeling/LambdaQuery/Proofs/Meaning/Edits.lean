import LambdaQuery.Proofs.Alike.Clauses
import LambdaQuery.Proofs.Kept.Stages
import LambdaQuery.Proofs.Meaning.Flattening
import Mathlib.Algebra.Group.Nat.Defs

/-!
# The rows of changed stages

Where a scalar makes a value of the row of a stage (`Layer.Reads`), setting a clause by it does to
the rows what the operator does: filters them, sorts them, makes others of them. What operators may
leave over one another stays so (`Stage.Fit`).
-/

set_option autoImplicit false

namespace LambdaQuery

variable {V : Type} [DecidableEq V] {D : Database V} {c : Likeness}

namespace Layer

variable {l l' : Layer}

/-- A scalar that makes `f` of the row of a layer. -/
def Reads (D : Database V) (l : Layer) (s : Scalar) (f : V → V) : Prop :=
  ∀ ρ, s.eval D ρ none = f (l.row.eval D ρ none)

theorem kept_addFilter (hD : D.Lawful) (l : Layer) (s : Scalar) (rows : List V) :
    kept D { l with filter := some (match l.filter with
        | some existing => .and existing s
        | none => s) } rows =
      (l.kept D rows).filter fun ρ => D.holds (s.eval D ρ none) := by
  have hpasses : Scalar.passes D (some (match l.filter with
        | some existing => .and existing s
        | none => s)) =
      fun ρ => D.holds (s.eval D ρ none) && Scalar.passes D l.filter ρ := by
    funext ρ
    cases l.filter <;> simp [Scalar.passes, Scalar.and, Scalar.eval, hD.and, Bool.and_comm]
  rw [kept, kept, ClauseSemantics.kept, ClauseSemantics.kept, Database.filter_sorted hD,
    List.filter_filter]
  show D.sorted _ (List.filter (Scalar.passes D (some _)) _) = _
  rw [hpasses]
  rfl

section

variable (hD : D.Lawful) (hrow : l.row.isAggregate = false) {s : Scalar} {f : V → V}
  (hs : l.Reads D s f) (rows : List V)

include hD hrow hs

/-- A filter on the rows may as well come before duplicates are dropped. -/
theorem free_addFilter :
    free D { l with filter := some (match l.filter with
        | some existing => .and existing s
        | none => s) } rows = (l.free D rows).filter (D.holds ∘ f) := by
  let l' : Layer := { l with filter := some (match l.filter with
    | some existing => .and existing s
    | none => s) }
  have hvalues : l'.values D rows = (l.values D rows).filter (D.holds ∘ f) := by
    rw [values_eq_map (l := l') hrow, values_eq_map hrow, List.filter_map, kept_addFilter hD]
    exact congrArg _ (List.filter_congr fun ρ _ => congrArg D.holds (hs ρ))
  show (if l.isDistinct then Rows.distinct (l'.values D rows) else l'.values D rows) = _
  rw [hvalues, free, apply_ite (List.filter _), Rows.distinct_filter]

end

/-- Keys that make values of the row of a layer. -/
abbrev ReadKeys (D : Database V) (l : Layer) (ks : List SortKey) (keys : List ((V → V) × Bool)) :
    Prop :=
  List.Forall₂ (fun k key => k.descending = key.2 ∧ l.Reads D k.value key.1) ks keys

theorem ReadKeys.before {ks : List SortKey} {keys : List ((V → V) × Bool)}
    (h : l.ReadKeys D ks keys) (ρ σ : Valuation V) :
    D.before (SortKey.keys D ks) ρ σ =
      D.before keys (l.row.eval D ρ none) (l.row.eval D σ none) := by
  induction h with
  | nil => rfl
  | @cons k key _ _ hk _ ih =>
    obtain ⟨value, descending⟩ := k
    obtain ⟨f, descending'⟩ := key
    obtain ⟨rfl, hread⟩ := hk
    simp only [SortKey.keys, Database.before, hread ρ, hread σ, ih]

/-- Keys of the rows sort the rows. -/
theorem kept_setOrderBy (hl : l.orderBy = []) (ks : List SortKey) (rows : List V) :
    kept D { l with orderBy := ks } rows = D.sorted (SortKey.keys D ks) (l.kept D rows) := by
  rw [kept, kept, ClauseSemantics.kept, ClauseSemantics.kept, meaning, meaning, hl, SortKey.keys,
    Database.sorted_nil]
  rfl

/-- An order of the rows may as well come before duplicates are dropped. -/
theorem free_setOrderBy (hD : D.Lawful) (hrow : l.row.isAggregate = false) (hl : l.orderBy = [])
    {ks : List SortKey} {keys : List ((V → V) × Bool)} (hk : l.ReadKeys D ks keys)
    (rows : List V) :
    free D { l with orderBy := ks } rows = D.sorted keys (l.free D rows) := by
  let l' : Layer := { l with orderBy := ks }
  have hvalues : l'.values D rows = D.sorted keys (l.values D rows) := by
    rw [values_eq_map (l := l') hrow, values_eq_map hrow, kept_setOrderBy hl]
    exact Database.map_sorted hk.before _
  show (if l.isDistinct then Rows.distinct (l'.values D rows) else l'.values D rows) = _
  rw [hvalues, free, apply_ite (D.sorted keys), Database.distinct_sorted hD]

/-- Where nothing is selected yet, selecting makes other rows of the rows. -/
theorem free_select (hrow : l.row.isAggregate = false) (hl : l.selection = none) {s : Scalar}
    {f : V → V} (hs : l.Reads D s f) (hsingle : s.isAggregate = false) (rows : List V) :
    free D { l with selection := some (.ofValue s) } rows = (l.free D rows).map f := by
  have hd : l.isDistinct = false := by
    rw [isDistinct, hl]
    rfl
  let l' : Layer := { l with selection := some (.ofValue s) }
  show l'.values D rows = _
  rw [free, hd, values_eq_map (l := l') hsingle, values_eq_map hrow]
  exact (List.map_congr_left fun ρ _ => hs ρ).trans (List.map_map ..).symm

/-- A total makes a row of all rows, unless it is missing. -/
theorem free_total {s : Scalar} (hs : s.isAggregate = true) (rows : List V) :
    free D { l with selection := some (.ofValue s) } rows =
      if s.missing D (l.kept D rows) then [] else [s.eval D D.nothing (some (l.kept D rows))] :=
  if_pos hs

section

variable (hrow : l.row.isAggregate = false) (hl : l.selection = none) (rows : List V)

include hrow hl

theorem free_unselected : l.free D rows = (l.kept D rows).map fun ρ => l.row.eval D ρ none := by
  have hd : l.isDistinct = false := by
    rw [isDistinct, hl]
    rfl
  rw [free, hd, values_eq_map hrow]
  rfl

theorem free_aggregate {function : String} (hf : Scalar.aggregates.contains function = true)
    {operand : Scalar} {f : V → V} (hs : l.Reads D operand f) :
    free D { l with selection := some (.ofValue (.builtin function [operand])) } rows =
      (D.aggregated function ((l.free D rows).map fun v => [f v])).toList := by
  have hrows : ((l.kept D rows).map fun ρ => [operand.eval D ρ none]) =
      (l.free D rows).map fun v => [f v] := by
    rw [free_unselected hrow hl, List.map_map]
    exact List.map_congr_left fun ρ _ => congrArg ([·]) (hs ρ)
  have htotal : (Scalar.builtin function [operand]).isAggregate = true := hf
  rw [free_total htotal, Scalar.missing_aggregate hf, Scalar.eval_aggregate hf, hrows]
  cases D.aggregated function ((l.free D rows).map fun v => [f v]) <;> rfl

theorem free_anyRows :
    free D { l with selection := some (.ofValue Compilation.anyRows) } rows =
      [D.binary .greaterThan (D.count (l.free D rows).length) (D.count 0)] := by
  rw [free_total rfl, Scalar.eval_anyRows, free_unselected hrow hl, List.length_map]
  rfl

end

theorem row_setDistinct (hp : l.Plain) :
    Layer.row
      { l with selection := some { l.selection.getD (.ofValue l.row) with distinct := true } } =
        l.row := by
  rcases hp.selection_eq with h | ⟨d, t, h⟩ <;> rw [row, h] <;> rfl

theorem free_setDistinct (hp : l.Plain) (hrow : l.row.isAggregate = false) (rows : List V) :
    free D { l with selection := some { l.selection.getD (.ofValue l.row) with distinct := true } }
      rows = Rows.distinct (l.free D rows) := by
  have hl := row_setDistinct hp
  let l' : Layer :=
    { l with selection := some { l.selection.getD (.ofValue l.row) with distinct := true } }
  have hvalues : l'.values D rows = l.values D rows := by
    rw [values_eq_map hrow, ← hl]
    exact values_eq_map (l := l') (hl ▸ hrow) rows
  show Rows.distinct (l'.values D rows) = _
  rw [hvalues, free]
  split <;> simp

/-! ## Joins -/

/-- Each row with the items of an array of it. -/
theorem kept_addJoin (hD : D.Lawful) (hc : c.Plain) (hl : Layer.Alike c l l) {n : String}
    (hn : n ∉ l.names) (path : Scalar) (rows : List V) :
    kept D { l with joins := l.joins ++ [(n, path)] } rows =
      (l.kept D rows).flatMap fun ρ =>
        (D.items (path.eval D ρ none)).map (Function.update ρ n ·) := by
  let join (ρ : Valuation V) := (D.items (path.eval D ρ none)).map (Function.update ρ n ·)
  have hvaluations : valuations D { l with joins := l.joins ++ [(n, path)] } rows =
      (l.valuations D rows).flatMap join := by
    have hone : Source.valuations D (joinSources [(n, path)]) = join := by
      funext ρ
      exact List.flatMap_pure_eq_map _ _
    rw [valuations, valuations, List.flatMap_assoc, ← hone, joinSources, List.map_append]
    simp only [Source.valuations_append]
    rfl
  have hagree : ∀ ρ, ∀ σ ∈ join ρ, ∀ m ∈ l.names, σ m = ρ m := by
    intro ρ σ hσ m hm
    obtain ⟨v, -, rfl⟩ := List.mem_map.mp hσ
    refine Function.update_of_ne ?_ _ _
    rintro rfl
    exact hn hm
  rw [kept, kept, ClauseSemantics.kept, ClauseSemantics.kept, hvaluations]
  show D.sorted (SortKey.keys D l.orderBy) (List.filter (Scalar.passes D l.filter) _) = _
  rw [Rows.filter_flatMap fun ρ σ hσ => hl.passes_congr hD hc (hagree ρ σ hσ),
    Database.flatMap_sorted hD fun ρ ρ' σ hσ σ' hσ' =>
      hl.before_congr hD hc (hagree ρ σ hσ) (hagree ρ' σ' hσ')]
  rfl

theorem rowsBelow_congr (h : l.source = l'.source) (ls : List Layer) :
    l.rowsBelow D ls = l'.rowsBelow D ls := by
  cases ls with
  | nil => rw [rowsBelow, rowsBelow, inputs, inputs, h]
  | cons b ls => rfl

end Layer

namespace Stage

variable {s u : Stage}

/-! ## Stages -/

/-- The rows that the upper layer is over. -/
abbrev input (D : Database V) (s : Stage) : List V := s.layer.rowsBelow D s.below

/-- What operators may leave, with rows that lambdas may range over. -/
structure Fit (D : Database V) (s : Stage) : Prop where
  regular : Layer.Regular D s.layers
  single : s.layer.row.isAggregate = false

theorem Fit.plain (h : s.Fit D) : s.layer.Plain := by
  cases h.regular with
  | cons plain => exact plain

namespace Unbounded

variable (h : s.Unbounded)

include h

theorem mem {l : Layer} (hl : l ∈ s.layers) : l.isBounded = false := by
  have htop := h.top
  have hoffset := h.offset
  simp only [hasTop, hasOffset, List.any_eq_false, Bool.not_eq_true] at htop hoffset
  rw [Layer.isBounded, htop l hl, hoffset l hl]
  rfl

/-- Another upper layer that bounds nothing. -/
theorem edit {l : Layer} (hl : l.isBounded = false) : Unbounded ⟨l, s.below⟩ := by
  obtain ⟨htop, hoffset⟩ := Bool.or_eq_false_iff.mp hl
  have hb : ∀ b ∈ s.below, b.isBounded = false := fun b hb => h.mem (List.mem_cons_of_mem _ hb)
  simp only [Layer.isBounded, Bool.or_eq_false_iff] at hb
  constructor
  · simpa [hasTop, layers, htop] using fun b hmem => (hb b hmem).1
  · simpa [hasOffset, layers, hoffset] using fun b hmem => (hb b hmem).2

omit h in
theorem rows_edit {l : Layer} (hl : l.isBounded = false) (hs : l.source = s.layer.source) :
    rows D ⟨l, s.below⟩ = l.free D (s.input D) := by
  rw [rows, Layer.rowsOver, Layer.bounded_of_not_isBounded hl, Layer.rowsBelow_congr hs]

theorem rows_eq : s.rows D = s.layer.free D (s.input D) :=
  rows_edit (h.mem List.mem_cons_self) rfl

theorem regular_edit (hr : Layer.Regular D s.layers) {l : Layer} (hl : l.isBounded = false)
    (hp : l.Plain) : Layer.Regular D (l :: s.below) := by
  obtain ⟨-, hoffset⟩ := Bool.or_eq_false_iff.mp hl
  cases hr with
  | cons _ _ _ below =>
    refine .cons hp (fun b hb => ?_) ⟨fun n hn => ?_, fun ho => ?_⟩ below
    · have hbb := h.mem (List.mem_cons_of_mem _ hb)
      have hbo := (Bool.or_eq_false_iff.mp hbb).2
      exact ⟨fun hb => absurd hb (by simp [hbb]), fun hb => absurd hb (by simp [hbb]),
        fun hb => absurd hb (by simp [hbb]), fun ho => absurd ho (by simp [hbo])⟩
    · rw [hn] at hoffset
      cases hoffset
    · rw [hoffset] at ho
      cases ho

end Unbounded

/-! ## Clauses of unbounded stages -/

section

variable {name : String}

omit [DecidableEq V] in
theorem plain_ofSource (source : LayerSource) : (Layer.ofSource name source).Plain :=
  ⟨rfl, fun _ h => (nomatch h), fun h => (nomatch h)⟩

/-- A layer without clauses has the rows of its source. -/
theorem rowsOver_ofSource (source : LayerSource) (rows : List V) :
    (Layer.ofSource name source).rowsOver D rows = rows := by
  have hid : Layer.rowOf D (.ofSource name source) = id := by
    funext v
    rw [Layer.rowOf, show (Layer.ofSource name source).row = .ref name from rfl, Scalar.eval]
    exact Function.update_self ..
  rw [Layer.rowsOver, Layer.bounded_of_not_isBounded rfl, Layer.free_eq_map rfl rfl rfl rfl rfl]
  exact (congrArg (List.map · _) hid).trans (List.map_id _)

theorem rows_package : (s.package name).rows D = s.rows D := rowsOver_ofSource .container _

theorem rows_ofSource (source : LayerSource) :
    rows D ⟨.ofSource name source, []⟩ = (Layer.ofSource name source).inputs D :=
  rowsOver_ofSource source _

theorem Fit.ofSource (source : LayerSource) : Fit D ⟨.ofSource name source, []⟩ where
  regular := .cons (plain_ofSource source) (fun _ h => nomatch h)
    ⟨fun _ h => (nomatch h), fun h => (nomatch h)⟩ .nil
  single := rfl

theorem Fit.package (h : s.Fit D) : (s.package name).Fit D where
  regular := .cons (plain_ofSource .container)
    (fun _ _ => ⟨fun _ => rfl, fun _ => rfl, fun _ => rfl, fun _ => rfl⟩)
    ⟨fun _ h => (nomatch h), fun h => (nomatch h)⟩ h.regular
  single := rfl

theorem Unbounded.package (h : s.Unbounded) : (s.package name).Unbounded := by
  constructor
  · have := h.top
    simp_all [hasTop, layers, Stage.package, Layer.ofSource, Layer.hasTop]
  · have := h.offset
    simp_all [hasOffset, layers, Stage.package, Layer.ofSource]

end

section

variable (hD : D.Lawful) (h : s.Fit D) (hu : s.Unbounded)

include h hu

/-- Another upper layer that bounds nothing and counts nothing. -/
theorem Fit.edit {l : Layer} (hl : l.isBounded = false) (hs : l.source = s.layer.source)
    (hp : l.Plain) (hrow : l.row.isAggregate = false) :
    Fit D ⟨l, s.below⟩ ∧ Unbounded ⟨l, s.below⟩ ∧ rows D ⟨l, s.below⟩ = l.free D (s.input D) :=
  ⟨⟨hu.regular_edit h.regular hl hp, hrow⟩, hu.edit hl, Unbounded.rows_edit hl hs⟩

include hD

theorem Fit.addWhere {filter : Scalar} {f : V → V} (hf : s.layer.Reads D filter f) :
    (s.addWhere filter).Fit D ∧ (s.addWhere filter).Unbounded ∧
      (s.addWhere filter).rows D = (s.rows D).filter (D.holds ∘ f) := by
  rw [hu.rows_eq, ← Layer.free_addFilter hD h.single hf]
  exact h.edit hu (l := (s.addWhere filter).layer) (hu.mem (l := s.layer) List.mem_cons_self) rfl
    ⟨h.plain.ungrouped, h.plain.valued, h.plain.total⟩ h.single

theorem Fit.setOrderBy (hl : s.layer.orderBy = []) {ks : List SortKey}
    {keys : List ((V → V) × Bool)} (hk : s.layer.ReadKeys D ks keys) :
    (s.mapLayer ({ · with orderBy := ks })).Fit D ∧
      (s.mapLayer ({ · with orderBy := ks })).Unbounded ∧
        (s.mapLayer ({ · with orderBy := ks })).rows D = D.sorted keys (s.rows D) := by
  rw [hu.rows_eq, ← Layer.free_setOrderBy hD h.single hl hk]
  exact h.edit hu (l := { s.layer with orderBy := ks })
    (hu.mem (l := s.layer) List.mem_cons_self) rfl
    ⟨h.plain.ungrouped, h.plain.valued, h.plain.total⟩ h.single

omit hD

theorem Fit.setDistinct :
    s.setDistinct.Fit D ∧ s.setDistinct.Unbounded ∧
      s.setDistinct.rows D = Rows.distinct (s.rows D) := by
  have hrow := Layer.row_setDistinct h.plain
  rw [hu.rows_eq, ← Layer.free_setDistinct h.plain h.single]
  refine h.edit hu (l := s.setDistinct.layer) (hu.mem (l := s.layer) List.mem_cons_self) rfl
    ⟨h.plain.ungrouped, ?_, fun hagg => ?_⟩ (hrow ▸ h.single)
  · rintro _ ⟨⟩
    rcases h.plain.selection_eq with hs | ⟨d, t, hs⟩ <;> exact ⟨s.layer.row, by rw [hs]; rfl⟩
  · exact absurd hagg (by rw [show s.setDistinct.layer.row = s.layer.row from hrow, h.single]; simp)

/-- A stage that selects a total. -/
theorem Fit.total {value : Scalar} (hv : value.Totals)
    (hu' : Stage.addSelect (.ofValue value) s = (.ok (), u)) :
    s.layer.selection = none ∧ Layer.Regular D u.layers ∧ u.rows D =
      Layer.free D { s.layer with selection := some (.ofValue value) } (s.input D) := by
  obtain ⟨hsel, rfl⟩ := addSelect_eq_ok.mp hu'
  have hl : (Layer.isBounded { s.layer with selection := some (.ofValue value) }) = false :=
    hu.mem (l := s.layer) List.mem_cons_self
  exact ⟨by simpa using hsel, hu.regular_edit h.regular hl ⟨h.plain.ungrouped,
    fun _ hs => ⟨value, by rw [← Option.some.inj hs]; rfl⟩, fun _ => hv⟩,
      Unbounded.rows_edit hl rfl⟩

/-- The row of an aggregate, if there is one. -/
theorem Fit.aggregate {function : String} (hf : Scalar.aggregates.contains function = true)
    {operand : Scalar} {f : V → V} (hs : s.layer.Reads D operand f)
    (hu' : Stage.addSelect (.ofValue (.builtin function [operand])) s = (.ok (), u)) :
    Layer.Regular D u.layers ∧ u.rows D =
      (D.aggregated function ((s.rows D).map fun v => [f v])).toList := by
  obtain ⟨hnone, hregular, hrows⟩ := h.total hu (.aggregate hf [operand]) hu'
  rw [hu.rows_eq, ← Layer.free_aggregate h.single hnone _ hf hs]
  exact ⟨hregular, hrows⟩

/-- The row that says whether there are rows. -/
theorem Fit.anyRows (hu' : Stage.addSelect (.ofValue Compilation.anyRows) s = (.ok (), u)) :
    Layer.Regular D u.layers ∧ u.rows D =
      [D.binary .greaterThan (D.count (s.rows D).length) (D.count 0)] := by
  obtain ⟨hnone, hregular, hrows⟩ := h.total hu .any hu'
  rw [hu.rows_eq, ← Layer.free_anyRows h.single hnone]
  exact ⟨hregular, hrows⟩

end

/-! ## Clauses of any stages -/

section

variable (h : s.Fit D)

include h

theorem Fit.replace {l : Layer} (hs : l.source = s.layer.source) (hp : l.Plain)
    (hrow : l.row.isAggregate = false)
    (hf : ∀ b ∈ s.below, s.layer.Follows b → l.Follows b)
    (hsize : s.layer.Sized D (s.input D) → l.Sized D (s.input D)) :
    Fit D ⟨l, s.below⟩ ∧ rows D ⟨l, s.below⟩ = l.rowsOver D (s.input D) := by
  have hinput : l.rowsBelow D s.below = s.input D := Layer.rowsBelow_congr hs s.below
  refine ⟨⟨?_, hrow⟩, congrArg (l.rowsOver D) hinput⟩
  cases h.regular with
  | cons _ follows sized below =>
    exact .cons hp (fun b hb => hf b hb (follows b hb)) (hinput.symm ▸ hsize sized) below

/-- Selecting makes other rows, also where rows are left out by their number. -/
theorem Fit.addSelect {value : Scalar} {f : V → V} (hf : s.layer.Reads D value f)
    (hsingle : value.isAggregate = false)
    (hu : Stage.addSelect (.ofValue value) s = (.ok (), u)) :
    u.Fit D ∧ u.rows D = (s.rows D).map f := by
  obtain ⟨hsel, rfl⟩ := addSelect_eq_ok.mp hu
  have hnone : s.layer.selection = none := by simpa using hsel
  let l : Layer := { s.layer with selection := some (.ofValue value) }
  have hfree : ∀ rows, l.free D rows = (s.layer.free D rows).map f :=
    Layer.free_select h.single hnone hf hsingle
  have hplain : l.Plain := ⟨h.plain.ungrouped, fun _ hs =>
    ⟨value, by rw [← Option.some.inj hs]; rfl⟩,
    fun hagg => absurd (hsingle.symm.trans hagg) (by simp)⟩
  obtain ⟨hfit, hrows⟩ := h.replace (l := l) rfl hplain hsingle
    (fun _ _ hb => ⟨hb.joins, fun _ => rfl, fun _ => hsingle, hb.top⟩)
    fun hsize => ⟨hsize.offset, fun ho => by rw [hfree, List.length_map]; exact hsize.free ho⟩
  refine ⟨hfit, hrows.trans ?_⟩
  rw [rows, Layer.rowsOver, Layer.rowsOver, Layer.bounded_map, hfree]
  rfl

theorem Fit.addTop {n : Int64} (hu : Stage.addTop (.literal n) s = (.ok (), u)) :
    u.Fit D ∧ u.rows D = (s.rows D).take n.toInt.toNat := by
  have hu := addTop_eq_ok.mp hu
  by_cases ho : s.hasOffset = true
  · rw [if_pos ho] at hu
    obtain ⟨limit, hlimit, rfl⟩ := addLimit_eq_ok.mp hu
    obtain ⟨hfit, hrows⟩ := h.replace (l := { s.layer with limit := limit }) rfl
      ⟨h.plain.ungrouped, h.plain.valued, h.plain.total⟩ h.single
      (fun _ _ hb => ⟨hb.joins, hb.distinct, hb.single, hb.top⟩)
      fun hsize => ⟨hsize.offset, hsize.free⟩
    exact ⟨hfit, hrows.trans (Rows.atMost_min hlimit _)⟩
  · rw [if_neg ho] at hu
    obtain ⟨top, htop, rfl⟩ := hu
    have hoffset : ∀ l ∈ s.layers, l.offset.isSome = false := by
      simpa [hasOffset] using ho
    obtain ⟨hfit, hrows⟩ := h.replace (l := { s.layer with top := top }) rfl
      ⟨h.plain.ungrouped, h.plain.valued, h.plain.total⟩ h.single
      (fun b hmem hb => ⟨hb.joins, hb.distinct, hb.single, fun hbo =>
        absurd hbo (by rw [hoffset b (List.mem_cons_of_mem _ hmem)]; simp)⟩)
      fun hsize => ⟨hsize.offset, hsize.free⟩
    refine ⟨hfit, hrows.trans ?_⟩
    have hnone : s.layer.offset = none := by
      simpa using hoffset s.layer List.mem_cons_self
    show Rows.atMost (s.layer.limit.map D.size) (Rows.behind (s.layer.offset.map D.size)
        (Rows.atMost (top.map D.size) (s.layer.free D (s.input D)))) =
      Rows.atMost (some n.toInt.toNat) (Rows.atMost (s.layer.limit.map D.size)
        (Rows.behind (s.layer.offset.map D.size)
          (Rows.atMost (s.layer.top.map D.size) (s.layer.free D (s.input D)))))
    rw [hnone, Rows.atMost_min htop]
    exact Rows.atMost_comm (s.layer.limit.map D.size) (some n.toInt.toNat)
      (Rows.atMost (s.layer.top.map D.size) (s.layer.free D (s.input D)))

theorem Fit.addOffset {n : Int64} (hn : 0 ≤ n.toInt) (htop : s.hasTop = false)
    (hrows : (s.rows D).length < 2 ^ 63) (hu : Stage.addOffset (.literal n) s = (.ok (), u)) :
    u.Fit D ∧ u.rows D = (s.rows D).drop n.toInt.toNat := by
  obtain ⟨offset, hoffset, rfl⟩ := addOffset_eq_ok.mp hu
  have hnone : s.layer.top = none ∧ s.layer.limit = none := by
    have hlayer : s.layer.hasTop = false := by
      simp only [hasTop, List.any_eq_false, Bool.not_eq_true] at htop
      exact htop s.layer List.mem_cons_self
    simpa [Layer.hasTop] using hlayer
  have hnatural : ∀ m, some (Count.literal n) = some m → m.Natural := by
    rintro _ ⟨⟩
    exact ⟨n, rfl, hn⟩
  have hrows_eq : s.rows D =
      Rows.behind (s.layer.offset.map D.size) (s.layer.free D (s.input D)) := by
    rw [rows, Layer.rowsOver, ClauseSemantics.bounded, Layer.meaning, hnone.1, hnone.2]
    rfl
  have hfree : s.layer.Sized D (s.input D) → (s.layer.free D (s.input D)).length < 2 ^ 63 := by
    intro hsize
    cases ho : s.layer.offset with
    | none =>
      rw [hrows_eq, ho] at hrows
      exact hrows
    | some m => exact hsize.free (by rw [ho]; rfl)
  have hsize : s.layer.Sized D (s.input D) := by
    cases h.regular with
    | cons _ _ sized _ => exact sized
  obtain ⟨hfit, hrows'⟩ := h.replace (l := { s.layer with offset := offset }) rfl
    ⟨h.plain.ungrouped, h.plain.valued, h.plain.total⟩ h.single
    (fun _ _ hb => ⟨hb.joins, hb.distinct, hb.single, hb.top⟩)
    fun hsize => ⟨Count.sum?_natural hsize.offset hnatural hoffset, fun _ => hfree hsize⟩
  refine ⟨hfit, hrows'.trans ?_⟩
  rw [hrows_eq]
  show Rows.atMost (s.layer.limit.map D.size) (Rows.behind (offset.map D.size)
    (Rows.atMost (s.layer.top.map D.size) (s.layer.free D (s.input D)))) = _
  rw [hnone.1, hnone.2]
  exact Rows.behind_sum hsize.offset hnatural hoffset fun _ => hfree hsize

end

/-! ## Joins -/

/-- The items of the last array are the rows where nothing is selected. -/
theorem row_addJoin (h : s.layer.selection = none) {n : String} {path : Scalar} :
    (s.addJoin n path).layer.row = .ref n := by
  rw [addJoin, mapLayer, Layer.row_addJoin, h]
  rfl

/-- What is selected anew drops duplicates where the selection before did. -/
theorem selection_replaceSelect (u : Stage) (value : Scalar) :
    ∃ sel, (u.replaceSelect value).layer.selection = some sel ∧ sel.projection = .value value ∧
      sel.distinct = u.layer.isDistinct := by
  refine ⟨_, rfl, ?_⟩
  rw [Layer.isDistinct]
  cases u.layer.selection <;> exact ⟨rfl, rfl⟩

/-- A stage with the values that `f` makes of each row of `s`, beside that row. -/
structure Iterates (D : Database V) (s u : Stage) (f : V → List V) : Prop where
  below : u.below = s.below
  source : u.layer.source = s.layer.source
  bounded : u.layer.isBounded = s.layer.isBounded
  plain : u.layer.Plain
  single : u.layer.row.isAggregate = false
  distinct : u.layer.isDistinct = false
  kept : ∀ rows : List V,
    (u.layer.kept D rows).map (fun ρ => (s.layer.row.eval D ρ none, u.layer.row.eval D ρ none)) =
      (s.layer.kept D rows).flatMap fun ρ =>
        (f (s.layer.row.eval D ρ none)).map (s.layer.row.eval D ρ none, ·)

/-- Joining each row with the items of an array of it. -/
theorem Iterates.addJoin (hD : D.Lawful) (hc : c.Plain) (hl : Layer.Alike c s.layer s.layer)
    (hp : s.layer.Plain) (hsel : s.layer.selection = none) {n : String} (hn : n ∉ s.layer.names)
    {path : Scalar} {p : V → V} (hpath : s.layer.Reads D path p) :
    Iterates D s (s.addJoin n path) (D.items ∘ p) := by
  have hrow : (s.addJoin n path).layer.row = .ref n := row_addJoin hsel
  refine ⟨rfl, rfl, rfl, ⟨hp.ungrouped, hp.valued, fun hagg => ?_⟩, ?_, ?_, fun rows => ?_⟩
  · rw [hrow] at hagg
    cases hagg
  · rw [hrow]
    rfl
  · show s.layer.selection.any _ = false
    rw [hsel]
    rfl
  · have hkept := Layer.kept_addJoin (D := D) hD hc hl hn path rows
    refine (congrArg _ hkept).trans ?_
    rw [List.map_flatMap]
    refine List.flatMap_congr fun ρ _ => ?_
    rw [List.map_map, hpath ρ]
    refine List.map_congr_left fun v _ => ?_
    have hold : s.layer.row.eval D (Function.update ρ n v) none = s.layer.row.eval D ρ none := by
      refine Layer.eval_congr hD hc hl.row fun m hm => Function.update_of_ne ?_ _ _
      rintro rfl
      exact hn hm
    rw [Function.comp_apply, hold, hrow, Scalar.eval, Function.update_self]

namespace Iterates

variable {f : V → List V} (h : Iterates D s u f)

include h

theorem addWhere (hD : D.Lawful) {filter : Scalar} {q : V → V → V}
    (hq : ∀ ρ, filter.eval D ρ none = q (s.layer.row.eval D ρ none) (u.layer.row.eval D ρ none)) :
    Iterates D s (u.addWhere filter) fun v => (f v).filter fun w => D.holds (q v w) := by
  refine ⟨h.below, h.source, h.bounded, ⟨h.plain.ungrouped, h.plain.valued, h.plain.total⟩,
    h.single, h.distinct, fun rows => ?_⟩
  have hfilter : ∀ ρs : List (Valuation V),
      (ρs.filter fun ρ => D.holds (filter.eval D ρ none)).map
          (fun ρ => (s.layer.row.eval D ρ none, u.layer.row.eval D ρ none)) =
        (ρs.map fun ρ => (s.layer.row.eval D ρ none, u.layer.row.eval D ρ none)).filter
          fun p => D.holds (q p.1 p.2) := by
    intro ρs
    rw [List.filter_map]
    exact congrArg _ (List.filter_congr fun ρ _ => congrArg D.holds (hq ρ))
  refine (congrArg _ (Layer.kept_addFilter hD u.layer filter rows)).trans ((hfilter _).trans ?_)
  rw [h.kept, List.filter_flatMap]
  refine List.flatMap_congr fun ρ _ => ?_
  rw [List.filter_map]
  rfl

theorem replaceSelect {value : Scalar} {q : V → V → V} (hsingle : value.isAggregate = false)
    (hq : ∀ ρ, value.eval D ρ none = q (s.layer.row.eval D ρ none) (u.layer.row.eval D ρ none)) :
    Iterates D s (u.replaceSelect value) fun v => (f v).map (q v) := by
  obtain ⟨sel, hsel, hvalue, hdistinct⟩ := selection_replaceSelect u value
  have hrow : (u.replaceSelect value).layer.row = value :=
    Layer.row_of_value (by rw [hsel, Option.bind_some, Selection.value?, hvalue])
  refine ⟨h.below, h.source, h.bounded, ⟨h.plain.ungrouped, fun sel' hsel' => ⟨value, ?_⟩,
    fun hagg => ?_⟩, hrow.symm ▸ hsingle, ?_, fun rows => ?_⟩
  · cases hsel.symm.trans hsel'
    exact hvalue
  · rw [hrow, hsingle] at hagg
    cases hagg
  · rw [Layer.isDistinct, hsel, Option.any_some, hdistinct, h.distinct]
  · have hvalues : ∀ ρs : List (Valuation V),
        ρs.map (fun ρ => (s.layer.row.eval D ρ none, value.eval D ρ none)) =
          (ρs.map fun ρ => (s.layer.row.eval D ρ none, u.layer.row.eval D ρ none)).map
            fun p => (p.1, q p.1 p.2) := by
      intro ρs
      rw [List.map_map]
      exact List.map_congr_left fun ρ _ => by rw [hq ρ]; rfl
    rw [hrow]
    refine (hvalues (u.layer.kept D rows)).trans ?_
    rw [h.kept, List.map_flatMap]
    refine List.flatMap_congr fun ρ _ => ?_
    rw [List.map_map, List.map_map]
    rfl

theorem fit (hs : s.Fit D) (hu : s.Unbounded) (hd : s.layer.isDistinct = false) :
    u.Fit D ∧ u.Unbounded ∧ u.rows D = (s.rows D).flatMap f := by
  have hu' : u = ⟨u.layer, s.below⟩ := by rw [← h.below]
  have hbounded : u.layer.isBounded = false := h.bounded.trans (hu.mem List.mem_cons_self)
  obtain ⟨hfit, hunbounded, hrows⟩ := hs.edit hu hbounded h.source h.plain h.single
  rw [← hu'] at hfit hunbounded hrows
  refine ⟨hfit, hunbounded, hrows.trans ?_⟩
  have hsnd := congrArg (List.map Prod.snd) (h.kept (s.input D))
  rw [List.map_map, List.map_flatMap] at hsnd
  rw [hu.rows_eq, Layer.free, Layer.free, h.distinct, hd, Layer.values_eq_map h.single]
  refine hsnd.trans ?_
  rw [if_neg Bool.false_ne_true, Layer.values_eq_map hs.single, List.flatMap_map]
  refine List.flatMap_congr fun ρ _ => ?_
  rw [List.map_map]
  exact List.map_id _

end Iterates

end Stage

end LambdaQuery
