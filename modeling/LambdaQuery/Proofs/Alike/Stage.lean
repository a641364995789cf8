import LambdaQuery.Proofs.Alike.Substitution

/-!
# Alike layers and stages

Layers are `Alike` when their clauses are, under the names of their sources. The layers of a stage
bind names that occur in no layer below; that is what lets the rows of a lower layer take the place
of the name that the upper one has for them. Alike stages are therefore flattened in the same way,
to alike queries (`Stage.Alike.toQuery`).
-/

set_option autoImplicit false

namespace LambdaQuery

/-! ## Names -/

def LayerSource.names : LayerSource → List String
  | .container => []
  | .items path => path.names
  | .subquery query => query.names

namespace Layer

def joinNames (joins : List (String × Scalar)) : List String :=
  joins.flatMap fun j => j.1 :: j.2.names

/-- The names that the layer binds and those that occur in its clauses. -/
def names (l : Layer) : List String :=
  l.name :: (l.source.names ++ (joinNames l.joins ++
    ((l.selection.map Selection.names).getD [] ++ (Scalar.namesOption l.filter ++
      (Scalar.namesAll l.groupBy ++ SortKey.namesAll l.orderBy)))))

def allNames (ls : List Layer) : List String := ls.flatMap names

theorem mem_names {n : String} {l : Layer} :
    n ∈ l.names ↔ n = l.name ∨ n ∈ l.source.names ∨ n ∈ joinNames l.joins ∨
      (∃ s ∈ l.selection, n ∈ s.names) ∨ n ∈ Scalar.namesOption l.filter ∨
        n ∈ Scalar.namesAll l.groupBy ∨ n ∈ SortKey.namesAll l.orderBy := by
  cases hs : l.selection <;> simp [names, hs]

theorem name_mem_names (l : Layer) : l.name ∈ l.names := List.mem_cons_self

theorem lastName_mem_names (l : Layer) : l.lastName ∈ l.names := by
  rw [mem_names]
  unfold lastName
  split
  · rename_i name path h
    refine .inr (.inr (.inl ?_))
    exact List.mem_flatMap.mpr ⟨_, List.mem_of_getLast? h, List.mem_cons_self⟩
  · exact .inl rfl

/-- The names of a row occur in the layer. -/
theorem names_row (l : Layer) : l.row.names ⊆ l.names := by
  intro n hn
  unfold row at hn
  split at hn
  · rename_i value h
    obtain ⟨⟨projection, distinct, top⟩, hs, hv⟩ := Option.bind_eq_some_iff.mp h
    refine mem_names.mpr (.inr (.inr (.inr (.inl ⟨_, hs, ?_⟩))))
    cases projection with
    | star => cases hv
    | value v =>
      obtain rfl : v = value := Option.some.inj hv
      exact hn
  · obtain rfl := List.mem_singleton.mp hn
    exact l.lastName_mem_names

end Layer

/-! ## The relation -/

/-- What `c` asks for, where sources bind none of the given names either. -/
def Likeness.reserve (c : Likeness) (left right : List String) : Likeness where
  leaf := c.leaf
  count := c.count
  negation := c.negation
  named := c.named
  left := c.left ++ left
  right := c.right ++ right
  leaf_names a b h :=
    ⟨List.Subset.trans (c.leaf_names a b h).1 (List.subset_append_left ..),
      List.Subset.trans (c.leaf_names a b h).2 (List.subset_append_left ..)⟩
  count_literal := c.count_literal

theorem Likeness.reserve_le (c : Likeness) (left right : List String) :
    (c.reserve left right).Le c :=
  ⟨fun _ _ h => h, fun _ _ h => h, id, id, List.subset_append_left .., List.subset_append_left ..⟩

theorem Likeness.Le.reserve {c d : Likeness} (h : c.Le d) (left right : List String) :
    (c.reserve left right).Le (d.reserve left right) :=
  ⟨h.leaf, h.count, h.negation, h.named,
    List.append_subset.mpr ⟨List.subset_append_of_subset_left _ h.left,
      List.subset_append_right ..⟩,
    List.append_subset.mpr ⟨List.subset_append_of_subset_left _ h.right,
      List.subset_append_right ..⟩⟩

/-- The names of joins on both sides, after those of `Γ`. -/
def joinContext : Context → List (String × Scalar) → List (String × Scalar) → Context
  | Γ, (n, _) :: js, (m, _) :: ks => joinContext ((n, m) :: Γ) js ks
  | Γ, _, _ => Γ

/-- The names that the clauses of two layers see. -/
def Layer.context (l l' : Layer) : Context := joinContext [(l.name, l'.name)] l.joins l'.joins

section

variable (c : Likeness)

inductive LayerSource.Alike : LayerSource → LayerSource → Prop where
  | container : LayerSource.Alike .container .container
  | items {p q : Scalar} (h : Scalar.Alike c [] p q) : LayerSource.Alike (.items p) (.items q)
  | subquery {q r : Query} (h : Query.Alike c [] q r) :
    LayerSource.Alike (.subquery q) (.subquery r)

inductive JoinsAlike : Context → List (String × Scalar) → List (String × Scalar) → Prop where
  | nil {Γ} : JoinsAlike Γ [] []
  | cons {Γ n m p q js ks} (hp : Scalar.Alike c Γ p q) (hn : c.Fresh Γ n m)
    (h : JoinsAlike ((n, m) :: Γ) js ks) : JoinsAlike Γ ((n, p) :: js) ((m, q) :: ks)

/-- Both select a value, and both an aggregate or neither. -/
structure Selection.Alike (Γ : Context) (s t : Selection) : Prop where
  value : Option.Rel (fun v w => Scalar.Alike c Γ v w ∧ v.isAggregate = w.isAggregate)
    s.value? t.value?
  distinct : s.distinct = t.distinct

structure Layer.Alike (l l' : Layer) : Prop where
  name : c.Fresh [] l.name l'.name
  source : LayerSource.Alike c l.source l'.source
  joins : JoinsAlike c [(l.name, l'.name)] l.joins l'.joins
  selection : Option.Rel (Selection.Alike c (l.context l')) l.selection l'.selection
  filter : Option.Rel (Scalar.Alike c (l.context l')) l.filter l'.filter
  groupBy : Scalar.AllAlike c (l.context l') l.groupBy l'.groupBy
  orderBy : Scalar.AllAlike c (l.context l') (l.orderBy.map (·.value)) (l'.orderBy.map (·.value))
  descending : l.orderBy.map (·.descending) = l'.orderBy.map (·.descending)
  top : Option.Rel c.count l.top l'.top
  offset : Option.Rel c.count l.offset l'.offset
  limit : Option.Rel c.count l.limit l'.limit

/-- Layers over one another; each binds names that occur in none below. -/
inductive Layer.AllAlike : List Layer → List Layer → Prop where
  | nil : Layer.AllAlike [] []
  | cons {l l' : Layer} {ls ls' : List Layer}
    (h : Layer.Alike (c.reserve (Layer.allNames ls) (Layer.allNames ls')) l l')
    (hs : Layer.AllAlike ls ls') : Layer.AllAlike (l :: ls) (l' :: ls')

def Stage.Alike (s s' : Stage) : Prop := Layer.AllAlike c s.layers s'.layers

end

variable {c d : Likeness} {Γ : Context}

/-! ## Joins -/

theorem JoinsAlike.append {js ks js' ks' : List (String × Scalar)} (h : JoinsAlike c Γ js ks)
    (h' : JoinsAlike c (joinContext Γ js ks) js' ks') : JoinsAlike c Γ (js ++ js') (ks ++ ks') := by
  induction h with
  | nil => exact h'
  | cons hp hn h ih => exact .cons hp hn (ih h')

theorem JoinsAlike.joinContext_append {js ks : List (String × Scalar)}
    (h : JoinsAlike c Γ js ks) (js' ks' : List (String × Scalar)) :
    joinContext Γ (js ++ js') (ks ++ ks') = joinContext (joinContext Γ js ks) js' ks' := by
  induction h with
  | nil => rfl
  | cons hp hn h ih => exact ih

theorem JoinsAlike.subset {js ks : List (String × Scalar)} (h : JoinsAlike c Γ js ks) :
    Γ ⊆ joinContext Γ js ks := by
  induction h with
  | nil => exact List.Subset.refl _
  | cons hp hn h ih => exact List.Subset.trans (List.subset_cons_self ..) ih

/-- The names of the context are those before the joins and those of the joins. -/
theorem joinContext_bound {js ks : List (String × Scalar)} {p : String × String}
    (h : p ∈ joinContext Γ js ks) :
    p ∈ Γ ∨ p.1 ∈ Layer.joinNames js ∧ p.2 ∈ Layer.joinNames ks := by
  induction js generalizing Γ ks with
  | nil => exact .inl h
  | cons j js ih =>
    cases ks with
    | nil => exact .inl h
    | cons k ks =>
      rcases ih h with h | ⟨h₁, h₂⟩
      · rcases List.mem_cons.mp h with rfl | h
        · exact .inr ⟨List.mem_cons_self, List.mem_cons_self⟩
        · exact .inl h
      · exact .inr ⟨List.mem_cons_of_mem _ (List.mem_append_right _ h₁),
          List.mem_cons_of_mem _ (List.mem_append_right _ h₂)⟩

theorem Layer.context_bound {l l' : Layer} {p : String × String} (h : p ∈ l.context l') :
    p.1 ∈ l.names ∧ p.2 ∈ l'.names := by
  rcases joinContext_bound h with h | ⟨h₁, h₂⟩
  · obtain rfl := List.mem_singleton.mp h
    exact ⟨l.name_mem_names, l'.name_mem_names⟩
  · exact ⟨Layer.mem_names.mpr (.inr (.inr (.inl h₁))),
      Layer.mem_names.mpr (.inr (.inr (.inl h₂)))⟩

/-- A pair that is bound before the joins is the only one with its names. -/
theorem JoinsAlike.pair_iff {js ks : List (String × Scalar)} (h : JoinsAlike c Γ js ks)
    {x y : String} (hxy : (x, y) ∈ Γ) (hΓ : ∀ p ∈ Γ, p.1 = x ↔ p.2 = y) :
    ∀ p ∈ joinContext Γ js ks, p.1 = x ↔ p.2 = y := by
  induction h with
  | nil => exact hΓ
  | cons hp hn h ih =>
    refine ih (List.mem_cons_of_mem _ hxy) fun p hmem => ?_
    rcases List.mem_cons.mp hmem with rfl | hmem
    · have hne := hn.unbound _ hxy
      exact ⟨fun h => absurd h.symm hne.1, fun h => absurd h.symm hne.2⟩
    · exact hΓ p hmem

/-- The last joins of both sides are bound to each other. -/
theorem JoinsAlike.getLast? {js ks : List (String × Scalar)} (h : JoinsAlike c Γ js ks) :
    Option.Rel (fun j k => (j.1, k.1) ∈ joinContext Γ js ks) js.getLast? ks.getLast? := by
  induction h with
  | nil => exact .none
  | @cons Γ n m p q js ks hp hn h ih =>
    cases h with
    | nil => exact .some List.mem_cons_self
    | cons hp' hn' h' => exact ih

/-! ## Rows -/

theorem Layer.Alike.lastName {l l' : Layer} (h : Layer.Alike c l l') :
    (l.lastName, l'.lastName) ∈ l.context l' := by
  unfold Layer.lastName
  rcases optionRel_cases h.joins.getLast? with ⟨h₁, h₂⟩ | ⟨j, k, h₁, h₂, hjk⟩
  · rw [h₁, h₂]
    exact h.joins.subset (List.mem_singleton_self _)
  · rw [h₁, h₂]
    exact hjk

theorem Layer.Alike.row {l l' : Layer} (h : Layer.Alike c l l') :
    Scalar.Alike c (l.context l') l.row l'.row := by
  have hlast : Scalar.Alike c (l.context l') (.ref l.lastName) (.ref l'.lastName) :=
    .ref h.lastName
  unfold Layer.row
  rcases optionRel_cases h.selection with ⟨h₁, h₂⟩ | ⟨s, t, h₁, h₂, hs⟩
  · rw [h₁, h₂]
    exact hlast
  · rcases optionRel_cases hs.value with ⟨hv₁, hv₂⟩ | ⟨v, w, hv₁, hv₂, hv⟩
    · simpa [h₁, h₂, hv₁, hv₂] using hlast
    · simpa [h₁, h₂, hv₁, hv₂] using hv.1

theorem LayerSource.Alike.mono (hcd : c.Le d) {s t : LayerSource}
    (h : LayerSource.Alike c s t) : LayerSource.Alike d s t := by
  cases h with
  | container => exact .container
  | items h => exact .items (h.mono hcd)
  | subquery h => exact .subquery (h.mono hcd)

theorem JoinsAlike.mono (hcd : c.Le d) {js ks : List (String × Scalar)}
    (h : JoinsAlike c Γ js ks) : JoinsAlike d Γ js ks := by
  induction h with
  | nil => exact .nil
  | cons hp hn h ih => exact .cons (hp.mono hcd) (hn.mono hcd) ih

theorem Selection.Alike.mono (hcd : c.Le d) {s t : Selection} (h : Selection.Alike c Γ s t) :
    Selection.Alike d Γ s t :=
  ⟨optionRel_mono (fun _ _ hv => ⟨hv.1.mono hcd, hv.2⟩) h.value, h.distinct⟩

theorem Layer.Alike.mono (hcd : c.Le d) {l l' : Layer} (h : Layer.Alike c l l') :
    Layer.Alike d l l' where
  name := h.name.mono hcd
  source := h.source.mono hcd
  joins := h.joins.mono hcd
  selection := optionRel_mono (fun _ _ hs => hs.mono hcd) h.selection
  filter := optionRel_mono (fun _ _ hf => hf.mono hcd) h.filter
  groupBy := h.groupBy.mono hcd
  orderBy := h.orderBy.mono hcd
  descending := h.descending
  top := optionRel_mono hcd.count h.top
  offset := optionRel_mono hcd.count h.offset
  limit := optionRel_mono hcd.count h.limit

theorem Layer.AllAlike.mono {c d : Likeness} (hcd : c.Le d) {ls ls' : List Layer}
    (h : Layer.AllAlike c ls ls') : Layer.AllAlike d ls ls' := by
  induction h with
  | nil => exact .nil
  | cons h hs ih => exact .cons (h.mono (hcd.reserve _ _)) ih

/-! ## Setting clauses -/

theorem Selection.Alike.ofValue {a b : Scalar} (h : Scalar.Alike c Γ a b)
    (ha : a.isAggregate = b.isAggregate) :
    Selection.Alike c Γ (.ofValue a) (.ofValue b) := ⟨.some ⟨h, ha⟩, rfl⟩

theorem Selection.Alike.weaken {Δ : Context} {s t : Selection} (h : Selection.Alike c Γ s t)
    (hΓ : Γ ⊆ Δ) (ha : Context.Apart Γ Δ s.names t.names) : Selection.Alike c Δ s t := by
  refine ⟨?_, h.distinct⟩
  obtain ⟨p, sd, st⟩ := s
  obtain ⟨q, td, tt⟩ := t
  have hv := h.value
  cases p <;> cases q
  · exact .none
  · cases hv
  · cases hv
  · cases hv with
    | some hv => exact .some ⟨hv.1.weaken (.refl c) hΓ ha, hv.2⟩

theorem Scalar.AllAlike.append {as bs as' bs' : List Scalar} (h : Scalar.AllAlike c Γ as bs)
    (h' : Scalar.AllAlike c Γ as' bs') : Scalar.AllAlike c Γ (as ++ as') (bs ++ bs') := by
  induction as generalizing bs with
  | nil =>
    cases h
    exact h'
  | cons a as ih =>
    cases h with
    | cons h hs => exact .cons h (ih hs)

theorem Scalar.namesAll_values (ks : List SortKey) :
    Scalar.namesAll (ks.map (·.value)) = SortKey.namesAll ks := by
  induction ks with
  | nil => rfl
  | cons k ks ih =>
    obtain ⟨value, descending⟩ := k
    rw [List.map_cons, Scalar.namesAll, ih]
    rfl

namespace Layer.Alike

variable {l l' : Layer}

theorem addFilter (h : Layer.Alike c l l') {a b : Scalar}
    (hab : Scalar.Alike c (l.context l') a b) :
    Layer.Alike c
      { l with filter := some (match l.filter with
          | some existing => .and existing a
          | none => a) }
      { l' with filter := some (match l'.filter with
          | some existing => .and existing b
          | none => b) } := by
  refine { h with filter := .some ?_ }
  rcases optionRel_cases h.filter with ⟨h₁, h₂⟩ | ⟨f, g, h₁, h₂, hf⟩
  · rw [h₁, h₂]
    exact hab
  · rw [h₁, h₂]
    exact .binary _ hf hab

theorem select (h : Layer.Alike c l l') {s t : Selection}
    (hs : Selection.Alike c (l.context l') s t) :
    Layer.Alike c { l with selection := some s } { l' with selection := some t } :=
  { h with selection := .some hs }

theorem setDistinct (h : Layer.Alike c l l') (hagg : l.row.isAggregate = l'.row.isAggregate) :
    Layer.Alike c
      { l with selection := some { l.selection.getD (.ofValue l.row) with distinct := true } }
      { l' with
        selection := some { l'.selection.getD (.ofValue l'.row) with distinct := true } } := by
  refine h.select ⟨?_, rfl⟩
  rcases optionRel_cases h.selection with ⟨h₁, h₂⟩ | ⟨s, t, h₁, h₂, hst⟩
  · rw [h₁, h₂]
    exact .some ⟨h.row, hagg⟩
  · rw [h₁, h₂]
    exact hst.value

theorem context_addJoin (h : Layer.Alike c l l') (n m : String) (p q : Scalar) :
    Layer.context { l with joins := l.joins ++ [(n, p)] }
        { l' with joins := l'.joins ++ [(m, q)] } =
      (n, m) :: l.context l' :=
  h.joins.joinContext_append [(n, p)] [(m, q)]

/-- A join under names that do not occur yet. -/
theorem addJoin (h : Layer.Alike c l l') {n m : String} {p q : Scalar}
    (hp : Scalar.Alike c (l.context l') p q) (hn : c.Fresh (l.context l') n m)
    (hl : n ∉ l.names) (hr : m ∉ l'.names) :
    Layer.Alike c { l with joins := l.joins ++ [(n, p)] }
      { l' with joins := l'.joins ++ [(m, q)] } := by
  have hctx := h.context_addJoin n m p q
  have hsub : l.context l' ⊆ (n, m) :: l.context l' := List.subset_cons_self ..
  have hap : Context.Apart (l.context l') ((n, m) :: l.context l') l.names l'.names := by
    intro r hr'
    rcases List.mem_cons.mp hr' with rfl | hr'
    · exact .inr ⟨hl, hr⟩
    · exact .inl hr'
  refine ⟨h.name, h.source, h.joins.append (.cons hp hn .nil), ?_, ?_, ?_, ?_, h.descending, h.top,
    h.offset, h.limit⟩
  · show Option.Rel (Selection.Alike c _) l.selection l'.selection
    rw [hctx]
    rcases optionRel_cases h.selection with ⟨h₁, h₂⟩ | ⟨s, t, h₁, h₂, hs⟩
    · rw [h₁, h₂]
      exact .none
    · rw [h₁, h₂]
      exact .some (hs.weaken hsub (hap.mono
        (fun z hz => mem_names.mpr (.inr (.inr (.inr (.inl ⟨s, h₁, hz⟩)))))
        fun z hz => mem_names.mpr (.inr (.inr (.inr (.inl ⟨t, h₂, hz⟩))))))
  · show Option.Rel (Scalar.Alike c _) l.filter l'.filter
    rw [hctx]
    rcases optionRel_cases h.filter with ⟨h₁, h₂⟩ | ⟨f, g, h₁, h₂, hf⟩
    · rw [h₁, h₂]
      exact .none
    · rw [h₁, h₂]
      refine .some (hf.weaken (.refl c) hsub (hap.mono ?_ ?_))
      · exact fun z hz => mem_names.mpr (.inr (.inr (.inr (.inr (.inl (h₁ ▸ hz))))))
      · exact fun z hz => mem_names.mpr (.inr (.inr (.inr (.inr (.inl (h₂ ▸ hz))))))
  · show Scalar.AllAlike c _ l.groupBy l'.groupBy
    rw [hctx]
    exact h.groupBy.weaken (.refl c) hsub (hap.mono
      (fun z hz => mem_names.mpr (.inr (.inr (.inr (.inr (.inr (.inl hz)))))))
      fun z hz => mem_names.mpr (.inr (.inr (.inr (.inr (.inr (.inl hz)))))))
  · show Scalar.AllAlike c _ (l.orderBy.map (·.value)) (l'.orderBy.map (·.value))
    rw [hctx]
    refine h.orderBy.weaken (.refl c) hsub (hap.mono ?_ ?_)
    · rw [Scalar.namesAll_values]
      exact fun z hz => mem_names.mpr (.inr (.inr (.inr (.inr (.inr (.inr hz))))))
    · rw [Scalar.namesAll_values]
      exact fun z hz => mem_names.mpr (.inr (.inr (.inr (.inr (.inr (.inr hz))))))

theorem orderBy' (h : Layer.Alike c l l') {ks ks' : List SortKey}
    (hk : Scalar.AllAlike c (l.context l') (ks.map (·.value)) (ks'.map (·.value)))
    (hd : ks.map (·.descending) = ks'.map (·.descending)) :
    Layer.Alike c { l with orderBy := ks } { l' with orderBy := ks' } :=
  { h with orderBy := hk, descending := hd }

end Layer.Alike

end LambdaQuery
