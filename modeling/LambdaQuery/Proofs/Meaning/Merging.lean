import LambdaQuery.Proofs.Meaning.Layers

/-!
# The rows of merged layers

Merging a layer with the one below puts the rows of the lower one in the place of the name that the
upper one has for them, which changes none of the values that the layer selects
(`Layer.Alike.merge_values`): the lower filter and order may as well be applied after the joins of
the upper layer.
-/

set_option autoImplicit false

namespace LambdaQuery

variable {V : Type} [DecidableEq V] {D : Database V} {c : Likeness} {Γ : Context}

/-! ## Scalars that stand for themselves -/

theorem Scalar.AllAlike.self {as : List Scalar} (h : Scalar.AllAlike c Γ as as) {a : Scalar}
    (ha : a ∈ as) : Scalar.Alike c Γ a a := by
  induction as with
  | nil => cases ha
  | cons a' as ih =>
    cases h with
    | cons h hs =>
      rcases List.mem_cons.mp ha with rfl | ha
      · exact h
      · exact ih hs ha

/-- Keys with the same values put rows in the same order. -/
theorem SortKey.before_congr {ks : List SortKey} {ρ ρ' σ σ' : Valuation V}
    (h : ∀ k ∈ ks, k.value.eval D ρ none = k.value.eval D ρ' none)
    (h' : ∀ k ∈ ks, k.value.eval D σ none = k.value.eval D σ' none) :
    D.before (SortKey.keys D ks) ρ σ = D.before (SortKey.keys D ks) ρ' σ' := by
  induction ks with
  | nil => rfl
  | cons k ks ih =>
    obtain ⟨hk, hks⟩ := List.forall_mem_cons.mp h
    obtain ⟨hk', hks'⟩ := List.forall_mem_cons.mp h'
    obtain ⟨value, descending⟩ := k
    dsimp only at hk hk'
    simp only [SortKey.keys, Database.before, hk, hk', ih hks hks']

theorem SortKey.substituteAll_eq_map (σ : Substitution) (ks : List SortKey) :
    SortKey.substituteAll σ ks = ks.map (·.substitute σ) := by
  induction ks with
  | nil => rfl
  | cons k ks ih => rw [SortKey.substituteAll, ih, List.map_cons]

namespace Layer

variable {l b m : Layer} {L L' : List String}

theorem context_self {p : String × String} (h : p ∈ l.context l) : p.1 = p.2 := by
  have hjoins : ∀ {Γ : Context} (js : List (String × Scalar)), (∀ p ∈ Γ, p.1 = p.2) →
      ∀ p ∈ joinContext Γ js js, p.1 = p.2 := by
    intro Γ js
    induction js generalizing Γ with
    | nil => exact id
    | cons j js ih => exact fun hΓ => ih (List.forall_mem_cons.mpr ⟨rfl, hΓ⟩)
  exact hjoins l.joins (fun q hq => by rw [List.mem_singleton.mp hq]) p h

section

variable (hD : D.Lawful) (hc : c.Plain)

include hD hc

/-- What stands in the clauses of a layer depends on the names of the layer alone. -/
theorem eval_congr {s : Scalar} (hs : Scalar.Alike c (l.context l) s s) {ρ ρ' : Valuation V}
    (h : ∀ n ∈ l.names, ρ n = ρ' n) : s.eval D ρ none = s.eval D ρ' none :=
  hs.eval_eq hD hc.reads (fun p hp => by
    rw [← context_self hp]
    exact h _ (context_bound hp).1) trivial

theorem Alike.passes_congr (hb : Layer.Alike c b b) {ρ ρ' : Valuation V}
    (h : ∀ n ∈ b.names, ρ n = ρ' n) : Scalar.passes D b.filter ρ = Scalar.passes D b.filter ρ' := by
  rcases optionRel_cases hb.filter with ⟨hf, -⟩ | ⟨f, g, hf, hg, hfg⟩
  · rw [hf]
    rfl
  · obtain rfl : f = g := Option.some.inj (hf.symm.trans hg)
    rw [hf]
    exact congrArg D.holds (eval_congr hD hc hfg h)

theorem Alike.before_congr (hb : Layer.Alike c b b) {ρ ρ' σ σ' : Valuation V}
    (h : ∀ n ∈ b.names, ρ n = ρ' n) (h' : ∀ n ∈ b.names, σ n = σ' n) :
    D.before (SortKey.keys D b.orderBy) ρ σ = D.before (SortKey.keys D b.orderBy) ρ' σ' :=
  SortKey.before_congr
    (fun _ hk => eval_congr hD hc (hb.orderBy.self (List.mem_map_of_mem hk)) h)
    (fun _ hk => eval_congr hD hc (hb.orderBy.self (List.mem_map_of_mem hk)) h')

end

/-! ## Rows in the place of a name -/

/-- The names in a context stand for the same once the rows of a layer are put in the place of one
of them. -/
def Merging (D : Database V) (σ : Substitution) (Γ : Context) (ρ ρ' : Valuation V) : Prop :=
  (σ.name, σ.name) ∈ Γ ∧ ∀ p ∈ Γ, ((Scalar.ref p.1).substitute σ).eval D ρ none = ρ' p.2

section

variable (hD : D.Lawful) (hc : c.Plain) (hl : Layer.Alike (c.reserve L L') l l)
  (hb : Layer.Alike c b b) (hL : b.names ⊆ L) (hrow : b.row.isAggregate = false)

include hD hc hb hL hrow

theorem merging_means :
    (c.reserve L L').Means D D.parameter (l.onto b) (Merging D (l.onto b)) where
  count m n h := congrArg D.size (hc.count m n h)
  single := hrow
  leaf_single a b h := by
    obtain ⟨name, rfl, rfl⟩ := hc.leaf a b h
    exact ⟨rfl, rfl⟩
  leaf g g' h _ := by
    obtain ⟨name, rfl, rfl⟩ := hc.leaf _ _ h
    rfl
  ref {_ _ _ n _} g hρ hp := by
    have hsingle : ((Scalar.ref n).substitute (l.onto b)).isAggregate = false :=
      Scalar.isAggregate_substitute hrow _
    rw [Scalar.eval_single _ g hsingle]
    exact hρ.2 _ hp
  bind {Γ ρ ρ' n k} v hρ hn := by
    refine ⟨List.mem_cons_of_mem _ hρ.1, fun p hp => ?_⟩
    have hne := (hn.unbound _ hρ.1).1
    rcases List.mem_cons.mp hp with rfl | hp
    · rw [Scalar.substitute, if_neg hne.symm, Scalar.eval, Function.update_self,
        Function.update_self]
    · obtain ⟨h₁, h₂⟩ := hn.unbound p hp
      rw [Function.update_of_ne h₂, ← hρ.2 p hp, Scalar.substitute]
      split
      · refine eval_congr hD hc hb.row fun x hx => Function.update_of_ne ?_ _ _
        rintro rfl
        exact hn.left (List.mem_append_right _ (hL hx))
      · exact Function.update_of_ne h₁ _ _

omit hD hc hb hL hrow in
/-- Before its joins the upper layer has one name, which stands for the row of the lower one. -/
theorem Merging.row (ρ : Valuation V) :
    Merging D (l.onto b) [(l.name, l.name)] ρ
      (Function.update D.nothing l.name (b.row.eval D ρ none)) := by
  refine ⟨List.mem_singleton_self _, fun p hp => ?_⟩
  obtain rfl := List.mem_singleton.mp hp
  have hself : (Scalar.ref l.name).substitute (l.onto b) = b.row := if_pos rfl
  rw [hself, Function.update_self]

/-- The joins of the upper layer over a row of the lower one. -/
def joined (D : Database V) (l b : Layer) (ρ : Valuation V) : List (Valuation V) :=
  Source.valuations D (Source.substituteAll (l.onto b) (joinSources l.joins)) ρ

/-- The clauses of the upper layer with the rows of the lower one in the place of its name. -/
def mergedMeaning (D : Database V) (l b : Layer) : ClauseSemantics V where
  passes := Scalar.passes D (Scalar.substituteOption (l.onto b) l.filter)
  keys := SortKey.keys D (SortKey.substituteAll (l.onto b) l.orderBy)
  value := (l.row.substitute (l.onto b)).eval D
  aggregate := l.row.isAggregate
  missing := (l.row.substitute (l.onto b)).missing D
  distinct := l.isDistinct
  top := l.top.map D.size
  offset := l.offset.map D.size
  limit := l.limit.map D.size

include hl

theorem Alike.mergedMeaning_agree :
    (l.mergedMeaning D b).Agree (Merging D (l.onto b) (l.context l)) (l.meaning D) := by
  have hmeans : (c.reserve L L').Means D D.parameter (l.onto b) (Merging D (l.onto b)) :=
    merging_means hD hc hb hL hrow
  refine ⟨fun ρ ρ' hρ => ?_, ?_, fun ρ ρ' hρ => hl.row.eval hD hmeans hρ .none, rfl⟩
  · exact Scalar.passes_same (toList_alike hl.filter |>.eval hD hmeans) hρ
  · exact SortKey.keys_same (hl.orderBy.eval hD hmeans) rfl

/-- Joined rows of the lower layer are the rows of the upper one. -/
theorem Alike.joined_valuations (ρs : List (Valuation V)) :
    List.Forall₂ (Merging D (l.onto b) (l.context l)) (ρs.flatMap (l.joined D b))
      (l.valuations D (ρs.map fun ρ => b.row.eval D ρ none)) := by
  have hmeans : (c.reserve L L').Means D D.parameter (l.onto b) (Merging D (l.onto b)) :=
    merging_means hD hc hb hL hrow
  rw [valuations, List.flatMap_map]
  exact Rows.forall₂_flatMap_same ρs fun ρ => hl.joins.sources.valuations hD hmeans (.row ρ)

omit hD hc hb hrow in
/-- The joins of the upper layer bind none of the names of the lower one. -/
theorem Alike.joined_agree {ρ ρ' : Valuation V} (h : ρ' ∈ l.joined D b ρ) :
    ∀ n ∈ b.names, ρ' n = ρ n := by
  intro n hn
  rw [joined, ← joinSources_substitute] at h
  refine Source.valuations_of_notMem (fun s hs => ?_) h
  obtain ⟨j, hj, rfl⟩ := List.mem_map.mp hs
  obtain ⟨i, hi, rfl⟩ := List.mem_map.mp hj
  rintro rfl
  exact (hl.joins.fresh i hi).1 (List.mem_append_right _ (hL hn))

omit hrow in
/-- The lower filter passes a joined row as the row that it is joined to. -/
theorem Alike.filter_joined (ρs : List (Valuation V)) :
    (ρs.flatMap (l.joined D b)).filter (Scalar.passes D b.filter) =
      (ρs.filter (Scalar.passes D b.filter)).flatMap (l.joined D b) :=
  Rows.filter_flatMap (fun _ _ h => hb.passes_congr hD hc (hl.joined_agree hL h)) ρs

omit hrow in
/-- The lower order sorts joined rows as the rows that they are joined to. -/
theorem Alike.sorted_joined (ρs : List (Valuation V)) :
    D.sorted (SortKey.keys D b.orderBy) (ρs.flatMap (l.joined D b)) =
      (D.sorted (SortKey.keys D b.orderBy) ρs).flatMap (l.joined D b) :=
  Database.flatMap_sorted hD (fun _ _ _ hσ _ hσ' => hb.before_congr hD hc (hl.joined_agree hL hσ)
    (hl.joined_agree hL hσ')) ρs

end

/-! ## The parts of a merged layer -/

theorem passes_mergedFilter (hD : D.Lawful) (l b : Layer) (ρ : Valuation V) :
    Scalar.passes D (l.mergedFilter b) ρ =
      (Scalar.passes D b.filter ρ && (l.mergedMeaning D b).passes ρ) := by
  unfold mergedFilter mergedMeaning
  cases b.filter <;> cases l.filter <;>
    simp [Scalar.passes, Scalar.substituteOption, Scalar.and, Scalar.eval, hD.and]

/-- At most one of the layers sorts. -/
theorem mergedOrderBy_eq_ok {ks : List SortKey} (h : l.mergedOrderBy b = .ok ks) :
    b.orderBy = [] ∧ ks = SortKey.substituteAll (l.onto b) l.orderBy ∨
      l.orderBy = [] ∧ ks = b.orderBy := by
  unfold mergedOrderBy at h
  split at h
  · cases h
  · rename_i hb
    obtain rfl := Except.ok.inj h
    exact .inl ⟨hb, (SortKey.substituteAll_eq_map _ _).symm⟩
  · rename_i hl _
    obtain rfl := Except.ok.inj h
    exact .inr ⟨hl, rfl⟩

theorem valuations_mergedJoins (l b : Layer) (input : List V) :
    { b with joins := l.mergedJoins b }.valuations D input =
      (b.valuations D input).flatMap (l.joined D b) := by
  have hjoins : joinSources (l.mergedJoins b) =
      joinSources b.joins ++ Source.substituteAll (l.onto b) (joinSources l.joins) := by
    rw [← joinSources_substitute, mergedJoins, joinSources, List.map_append]
    rfl
  simp only [valuations, hjoins, Source.valuations_append, List.flatMap_assoc]
  rfl

/-- What the layer selects, if anything, is a value. -/
def Valued (l : Layer) : Prop := ∀ s, l.selection = some s → ∃ v, s.projection = .value v

/-- The value that a layer selects, if it selects one. -/
theorem Valued.selection_eq (h : l.Valued) :
    l.selection = none ∨ ∃ distinct top, l.selection = some ⟨.value l.row, distinct, top⟩ := by
  unfold row
  cases hs : l.selection with
  | none => exact .inl rfl
  | some s =>
    obtain ⟨v, hv⟩ := h s hs
    obtain ⟨projection, distinct, top⟩ := s
    subst hv
    exact .inr ⟨distinct, top, rfl⟩

theorem Plain.selection_eq (h : l.Plain) :
    l.selection = none ∨ ∃ distinct top, l.selection = some ⟨.value l.row, distinct, top⟩ :=
  Valued.selection_eq h.valued

/-- The value of a merged selection is that of the upper layer, with the rows of the lower one. -/
theorem value_mergedSelection (hl : l.Valued) (hb : b.Valued) {s : Selection}
    (h : l.mergedSelection b = some s) : s.value? = some (l.row.substitute (l.onto b)) := by
  unfold mergedSelection outerSelection at h
  rcases hl.selection_eq with hls | ⟨d, t, hls⟩
  · cases hj : l.joins.getLast? with
    | none =>
      have hrow : l.row.substitute (l.onto b) = b.row := by
        unfold row lastName
        rw [hls, hj]
        exact if_pos rfl
      rw [hrow]
      rcases hb.selection_eq with hbs | ⟨d', t', hbs⟩
      · simp [hls, hj, hbs] at h
      · simp only [hls, hj, hbs, Option.map_none, Option.some.injEq] at h
        rw [← h]
        rfl
    | some j =>
      have hrow : l.row = .ref j.1 := by
        unfold row lastName
        rw [hls, hj]
        rfl
      rw [hrow]
      rcases hb.selection_eq with hbs | ⟨d', t', hbs⟩ <;>
        simp only [hls, hj, hbs, Option.map_some, Option.some.injEq] at h <;> rw [← h] <;> rfl
  · rcases hb.selection_eq with hbs | ⟨d', t', hbs⟩ <;>
      simp only [hls, hbs, Option.map_some, Option.some.injEq] at h <;> rw [← h] <;> rfl

theorem row_merge (hl : l.Valued) (hb : b.Valued) (hm : l.merge b = .ok m) :
    m.row = l.row.substitute (l.onto b) := by
  obtain ⟨ks, top, offset, limit, -, -, -, -, rfl⟩ := merge_eq_ok.mp hm
  have hvalue := fun s => value_mergedSelection (s := s) hl hb
  unfold row
  cases hs : l.mergedSelection b with
  | some s =>
    dsimp only
    rw [Option.bind_some, hvalue s hs]
    rfl
  | none =>
    unfold mergedSelection outerSelection at hs
    rcases hl.selection_eq with hls | ⟨d, t, hls⟩ <;>
      rcases hb.selection_eq with hbs | ⟨d', t', hbs⟩ <;>
        cases hj : l.joins.getLast? <;> simp [hls, hbs, hj] at hs
    have hjoins : l.joins = [] := List.getLast?_eq_none_iff.mp hj
    simp [lastName, mergedJoins, hls, hbs, hjoins, Scalar.substitute, onto, row]

section

variable (hl : l.Plain) (hb : b.Plain) (hm : l.merge b = .ok m)

include hl hb hm

theorem isDistinct_merge : m.isDistinct = (l.isDistinct || b.isDistinct) := by
  obtain ⟨ks, top, offset, limit, -, -, -, -, rfl⟩ := merge_eq_ok.mp hm
  unfold isDistinct mergedSelection outerSelection
  rcases hl.selection_eq with hls | ⟨d, t, hls⟩ <;>
    rcases hb.selection_eq with hbs | ⟨d', t', hbs⟩ <;>
      cases l.joins.getLast? <;> simp [hls, hbs, Selection.substitute, Selection.ofValue]

variable (hrow : b.row.isAggregate = false)

include hrow

theorem Plain.merge : m.Plain where
  ungrouped := by
    obtain ⟨ks, top, offset, limit, -, -, -, -, rfl⟩ := merge_eq_ok.mp hm
    exact hb.ungrouped
  valued s hs := by
    obtain ⟨ks, top, offset, limit, -, -, -, -, rfl⟩ := merge_eq_ok.mp hm
    obtain ⟨projection, distinct, top⟩ := s
    have hv := value_mergedSelection hl.valued hb.valued hs
    cases projection with
    | star => cases hv
    | value v => exact ⟨v, rfl⟩
  total hagg := by
    rw [row_merge hl.valued hb.valued hm, Scalar.isAggregate_substitute hrow] at hagg
    rw [row_merge hl.valued hb.valued hm]
    exact (hl.total hagg).substitute _

end

/-! ## The values of a merged layer -/

section

variable (hD : D.Lawful) (hc : c.Plain) (hl : Layer.Alike (c.reserve L L') l l)
  (hb : Layer.Alike c b b) (hL : b.names ⊆ L) (hm : l.merge b = .ok m)

include hD hc hl hb hL hm

/-- What the merged layer keeps is what the upper layer keeps of the rows that the lower one
does. -/
theorem kept_merge (input : List V) :
    m.kept D input = (l.mergedMeaning D b).kept D ((b.kept D input).flatMap (l.joined D b)) := by
  obtain ⟨ks, top, offset, limit, hks, -, -, -, rfl⟩ := merge_eq_ok.mp hm
  have hvaluations : valuations D
      ⟨b.name, b.source, l.mergedJoins b, l.mergedSelection b, l.mergedFilter b, b.groupBy, ks, top,
        offset, limit⟩ input = (b.valuations D input).flatMap (l.joined D b) :=
    valuations_mergedJoins l b input
  have hfilter : ∀ ρs : List (Valuation V),
      (ρs.flatMap (l.joined D b)).filter (Scalar.passes D (l.mergedFilter b)) =
        ((ρs.filter (Scalar.passes D b.filter)).flatMap (l.joined D b)).filter
          (l.mergedMeaning D b).passes := by
    intro ρs
    rw [← hl.filter_joined hD hc hb hL, List.filter_filter]
    exact List.filter_congr fun ρ _ => by rw [passes_mergedFilter hD, Bool.and_comm]
  simp only [kept, ClauseSemantics.kept, hvaluations]
  show D.sorted (SortKey.keys D ks) (List.filter (Scalar.passes D (l.mergedFilter b)) _) = _
  rw [hfilter]
  rcases mergedOrderBy_eq_ok hks with ⟨hempty, rfl⟩ | ⟨hempty, rfl⟩
  · have hkeys : (b.meaning D).keys = [] := by rw [meaning, hempty, SortKey.keys]
    rw [hkeys, Database.sorted_nil]
    rfl
  · have hkeys : (l.mergedMeaning D b).keys = [] := by
      rw [mergedMeaning, hempty, SortKey.substituteAll, SortKey.keys]
    rw [hkeys, Database.sorted_nil, ← Database.filter_sorted hD, hl.sorted_joined hD hc hb hL]
    rfl

/-- **Merged layers select the values that the layers select over one another.** -/
theorem values_merge (hpl : l.Plain) (hpb : b.Plain) (hrow : b.row.isAggregate = false)
    (input : List V) : m.values D input = l.values D (b.values D input) := by
  have hupper : (l.mergedMeaning D b).values D D.nothing
      ((b.kept D input).flatMap (l.joined D b)) = l.values D (b.values D input) := by
    rw [values_eq_map hrow]
    have hjoined := hl.joined_valuations hD hc hb hL hrow (b.kept D input)
    have hmeans : (c.reserve L L').Means D D.parameter (l.onto b) (Merging D (l.onto b)) :=
      merging_means hD hc hb hL hrow
    refine (hl.mergedMeaning_agree hD hc hb hL hrow).values hjoined fun hagg ρs ρs' hρs => ?_
    exact ⟨hl.row.missing hD hmeans hρs,
      (hpl.total hagg).eval_same hD (hc.reserve L L') hmeans hl.row hρs⟩
  have hvalue : (m.meaning D).value = (l.mergedMeaning D b).value := by
    rw [meaning, mergedMeaning, row_merge hpl.valued hpb.valued hm]
  have haggregate : (m.meaning D).aggregate = (l.mergedMeaning D b).aggregate := by
    rw [meaning, mergedMeaning, row_merge hpl.valued hpb.valued hm,
      Scalar.isAggregate_substitute hrow]
  have hmissing : (m.meaning D).missing = (l.mergedMeaning D b).missing := by
    rw [meaning, mergedMeaning, row_merge hpl.valued hpb.valued hm]
  rw [← hupper, values, ClauseSemantics.values, ClauseSemantics.values, hvalue, haggregate,
    hmissing, ← kept, kept_merge hD hc hl hb hL hm]

end

end Layer

end LambdaQuery
