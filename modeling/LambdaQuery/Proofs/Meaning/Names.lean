import LambdaQuery.Proofs.Meaning.Alike

/-!
# What scalars depend on

The value of a scalar depends on what its names stand for, and on nothing else
(`Scalar.eval_congr`).
-/

set_option autoImplicit false

namespace LambdaQuery

variable {V : Type} {D : Database V} {ns : List String} {ρ ρ' : Valuation V}

/-- The names stand for the same. -/
def Valuation.Agree (ns : List String) (ρ ρ' : Valuation V) : Prop := ∀ n ∈ ns, ρ n = ρ' n

theorem Valuation.Agree.update (h : Valuation.Agree ns ρ ρ') (n : String) (v : V) :
    Valuation.Agree ns (Function.update ρ n v) (Function.update ρ' n v) := fun m hm => by
  by_cases he : m = n
  · rw [he, Function.update_self, Function.update_self]
  · rw [Function.update_of_ne he, Function.update_of_ne he, h m hm]

theorem Source.blank_congr (ss : List Source) : ∀ {ρ ρ' : Valuation V}, Valuation.Agree ns ρ ρ' →
    Valuation.Agree ns (Source.blank D ss ρ) (Source.blank D ss ρ') := by
  induction ss with
  | nil => exact id
  | cons s ss ih => exact fun h => ih (h.update s.name _)

variable [DecidableEq V]

section

variable {a b c : List String}

theorem subset_of_append_left (h : a ++ b ⊆ c) : a ⊆ c := (List.append_subset.mp h).1

theorem subset_of_append_right (h : a ++ b ⊆ c) : b ⊆ c := (List.append_subset.mp h).2

end

theorem Scalar.evalAll_rows_congr {ss : List Scalar} {rows rows' : List (Valuation V)}
    (h : ∀ {ρ ρ' : Valuation V}, Valuation.Agree ns ρ ρ' →
      Scalar.evalAll D ss ρ = Scalar.evalAll D ss ρ')
    (hrows : List.Forall₂ (Valuation.Agree ns) rows rows') :
    (rows.map fun ρ => Scalar.evalAll D ss ρ) = rows'.map fun ρ => Scalar.evalAll D ss ρ :=
  List.forall₂_eq_eq_eq ▸ List.rel_map (fun _ _ hρ => h hρ) hrows

mutual

/-- **The value of a scalar depends on what its names stand for.** -/
theorem Scalar.eval_congr : ∀ (s : Scalar) {ρ ρ' : Valuation V}
    {g g' : Option (List (Valuation V))},
    s.names ⊆ ns → Valuation.Agree ns ρ ρ' → Option.Rel (List.Forall₂ (Valuation.Agree ns)) g g' →
      s.eval D ρ g = s.eval D ρ' g'
  | .literal _, _, _, _, _, _, _, _ | .parameter _, _, _, _, _, _, _, _ => rfl
  | .ref n, _, _, _, _, hs, hρ, _ => hρ n (hs (List.mem_singleton_self n))
  | .index object key, _, _, _, _, hs, hρ, _ => by
    rw [Scalar.eval, Scalar.eval, object.eval_congr (subset_of_append_left hs) hρ .none,
      key.eval_congr (subset_of_append_right hs) hρ .none]
  | .binary op left right, _, _, _, _, hs, hρ, hg => by
    rw [Scalar.eval, Scalar.eval, left.eval_congr (subset_of_append_left hs) hρ hg,
      right.eval_congr (subset_of_append_right hs) hρ hg]
  | .unary op operand, _, _, _, _, hs, hρ, _ => by
    rw [Scalar.eval, Scalar.eval, operand.eval_congr hs hρ .none]
  | .call name args udf, _, _, _, _, hs, hρ, hg => by
    cases hg with
    | none => rw [Scalar.eval, Scalar.eval, Scalar.evalAll_congr args hs hρ]
    | some hg =>
      rw [Scalar.eval, Scalar.eval, Scalar.evalAll_congr args hs hρ,
        Scalar.evalAll_rows_congr (Scalar.evalAll_congr args hs) hg]
  | .array items, _, _, _, _, hs, hρ, _ => by
    rw [Scalar.eval, Scalar.eval, Scalar.evalAll_congr items hs hρ]
  | .object properties, _, _, _, _, hs, hρ, _ => by
    rw [Scalar.eval, Scalar.eval, Scalar.evalProperties_congr properties hs hρ]
  | .conditional test ifTrue ifFalse, _, _, _, _, hs, hρ, _ => by
    have hrest := subset_of_append_right hs
    rw [Scalar.eval, Scalar.eval, test.eval_congr (subset_of_append_left hs) hρ .none,
      ifTrue.eval_congr (subset_of_append_left hrest) hρ .none,
      ifFalse.eval_congr (subset_of_append_right hrest) hρ .none]
  | .isIn item items negated, _, _, _, _, hs, hρ, _ => by
    rw [Scalar.eval, Scalar.eval, item.eval_congr (subset_of_append_left hs) hρ .none,
      Scalar.evalAll_congr items (subset_of_append_right hs) hρ]
  | .exists query, _, _, _, _, hs, hρ, _ => by
    rw [Scalar.eval, Scalar.eval, query.rows_congr hs hρ]
  | .arrayOf query, _, _, _, _, hs, hρ, _ => by
    rw [Scalar.eval, Scalar.eval, query.rows_congr hs hρ]
  | .subquery query, _, _, _, _, hs, hρ, _ => by
    rw [Scalar.eval, Scalar.eval, query.rows_congr hs hρ]

theorem Scalar.evalAll_congr : ∀ (ss : List Scalar) {ρ ρ' : Valuation V},
    Scalar.namesAll ss ⊆ ns → Valuation.Agree ns ρ ρ' →
      Scalar.evalAll D ss ρ = Scalar.evalAll D ss ρ'
  | [], _, _, _, _ => rfl
  | s :: ss, _, _, hs, hρ => by
    rw [Scalar.evalAll, Scalar.evalAll, s.eval_congr (subset_of_append_left hs) hρ .none,
      Scalar.evalAll_congr ss (subset_of_append_right hs) hρ]

theorem Scalar.evalProperties_congr : ∀ (ps : List (String × Scalar)) {ρ ρ' : Valuation V},
    Scalar.namesProperties ps ⊆ ns → Valuation.Agree ns ρ ρ' →
      Scalar.evalProperties D ps ρ = Scalar.evalProperties D ps ρ'
  | [], _, _, _, _ => rfl
  | (name, s) :: ps, _, _, hs, hρ => by
    rw [Scalar.evalProperties, Scalar.evalProperties,
      s.eval_congr (subset_of_append_left hs) hρ .none,
      Scalar.evalProperties_congr ps (subset_of_append_right hs) hρ]

theorem Scalar.missing_congr : ∀ (s : Scalar) {rows rows' : List (Valuation V)},
    s.names ⊆ ns → List.Forall₂ (Valuation.Agree ns) rows rows' →
      s.missing D rows = s.missing D rows'
  | .call name args udf, _, _, hs, hrows => by
    rw [Scalar.missing, Scalar.missing,
      Scalar.evalAll_rows_congr (Scalar.evalAll_congr args hs) hrows]
  | .literal _, _, _, _, _ | .ref _, _, _, _, _ | .index .., _, _, _, _ | .binary .., _, _, _, _
  | .unary .., _, _, _, _ | .array _, _, _, _, _ | .object _, _, _, _, _
  | .conditional .., _, _, _, _ | .isIn .., _, _, _, _ | .parameter _, _, _, _, _
  | .exists _, _, _, _, _ | .arrayOf _, _, _, _, _ | .subquery _, _, _, _, _ => rfl

theorem Scalar.passes_congr : ∀ (s : Option Scalar) {ρ ρ' : Valuation V},
    Scalar.namesOption s ⊆ ns → Valuation.Agree ns ρ ρ' →
      Scalar.passes D s ρ = Scalar.passes D s ρ'
  | none, _, _, _, _ => rfl
  | some s, _, _, hs, hρ => congrArg D.holds (s.eval_congr hs hρ .none)

theorem SortKey.keys_congr : ∀ ks : List SortKey, SortKey.namesAll ks ⊆ ns →
    List.Forall₂ (fun k k' => k.2 = k'.2 ∧ ∀ ρ ρ' : Valuation V, Valuation.Agree ns ρ ρ' →
      k.1 ρ = k'.1 ρ') (SortKey.keys D ks) (SortKey.keys D ks)
  | [], _ => .nil
  | ⟨value, _⟩ :: ks, hs =>
    .cons ⟨rfl, fun _ _ hρ => value.eval_congr (subset_of_append_left hs) hρ .none⟩
      (SortKey.keys_congr ks (subset_of_append_right hs))

theorem Source.valuations_congr : ∀ (ss : List Source) {ρ ρ' : Valuation V},
    Source.namesAll ss ⊆ ns → Valuation.Agree ns ρ ρ' →
      List.Forall₂ (Valuation.Agree ns) (Source.valuations D ss ρ) (Source.valuations D ss ρ')
  | [], _, _, _, hρ => .cons hρ .nil
  | .container name :: ss, _, _, hs, hρ => by
    rw [Source.valuations, Source.valuations]
    exact Rows.forall₂_flatMap_same _ fun v =>
      Source.valuations_congr ss (subset_of_append_right hs) (hρ.update name v)
  | .items name path :: ss, _, _, hs, hρ => by
    have hpath := List.subset_of_cons_subset (subset_of_append_left hs)
    rw [Source.valuations, Source.valuations, path.eval_congr hpath hρ .none]
    exact Rows.forall₂_flatMap_same _ fun v =>
      Source.valuations_congr ss (subset_of_append_right hs) (hρ.update name v)
  | .subquery name query :: ss, _, _, hs, hρ => by
    have hquery := List.subset_of_cons_subset (subset_of_append_left hs)
    rw [Source.valuations, Source.valuations, query.rows_congr hquery hρ]
    exact Rows.forall₂_flatMap_same _ fun v =>
      Source.valuations_congr ss (subset_of_append_right hs) (hρ.update name v)

theorem Query.rows_congr : ∀ (q : Query) {ρ ρ' : Valuation V}, q.names ⊆ ns →
    Valuation.Agree ns ρ ρ' → q.rows D ρ = q.rows D ρ'
  | ⟨⟨.star, _, _⟩, _, _, _, _, _, _⟩, _, _, _, _ => rfl
  | ⟨⟨.value _, _, _⟩, _, _, _ :: _, _, _, _⟩, _, _, _, _ => rfl
  | ⟨⟨.value value, distinct, top⟩, sources, filter, [], orderBy, offset, limit⟩, ρ, ρ', hs,
    hρ => by
    have hselected := subset_of_append_right hs
    have hfiltered := subset_of_append_right hselected
    have hvalue : value.names ⊆ ns := subset_of_append_left hselected
    have hfilter := subset_of_append_left hfiltered
    have horder := subset_of_append_right (subset_of_append_right hfiltered)
    rw [Query.rows, Query.rows]
    refine ClauseSemantics.Agree.rows (R := Valuation.Agree ns) ?_ rfl rfl rfl rfl
      (Source.valuations_congr sources (subset_of_append_left hs) hρ) fun _ l l' hl => ?_
    · exact ⟨fun ρ ρ' hρ => Scalar.passes_congr filter hfilter hρ,
      SortKey.keys_congr orderBy horder,
        fun ρ ρ' hρ => value.eval_congr hvalue hρ .none, rfl⟩
    · exact ⟨value.missing_congr hvalue hl,
        value.eval_congr hvalue (Source.blank_congr sources hρ) (.some hl)⟩

end

end LambdaQuery
