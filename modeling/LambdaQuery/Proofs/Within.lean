import LambdaQuery.Proofs.Parts

/-!
# Scalars within scalars

A scalar is within another one if that has all parts of it, and still has them whatever is put for
names in both (`Scalar.Within`). What an operation or a builtin function is applied to is within its
result; so is the array that the rows of a query come from (`Scalar.Within.rows`).
-/

set_option autoImplicit false

namespace LambdaQuery

/-- All parts of `r` are in `a`, and stay so whatever is put for names in both. -/
structure Scalar.Within (r a : Scalar) : Prop where
  parts : r.parts ⊆ a.parts
  substituted : ∀ σ, (r.substitute σ).parts ⊆ (a.substitute σ).parts

/-- What is put for a name is where the name was. -/
theorem Scalar.Within.replacement {σ : Substitution} {a : Scalar}
    (h : (Scalar.ref σ.name).Within a) : σ.replacement.parts ⊆ (a.substitute σ).parts := by
  have hs := h.substituted σ
  rwa [Scalar.substitute, if_pos rfl] at hs

namespace Scalar

variable {r a b c : Scalar} {as : List Scalar}

theorem Within.refl (r : Scalar) : r.Within r := ⟨List.Subset.refl _, fun _ => List.Subset.refl _⟩

theorem Within.trans (h : r.Within a) (h' : a.Within b) : r.Within b :=
  ⟨List.Subset.trans h.parts h'.parts,
    fun σ => List.Subset.trans (h.substituted σ) (h'.substituted σ)⟩

/-- Nothing is within a literal but what has no parts, which is within everything. -/
theorem Within.of_literal {v : Literal} (h : r.Within (.literal v)) (b : Scalar) : r.Within b :=
  ⟨fun _ hp => (nomatch h.parts hp), fun σ _ hp => (nomatch h.substituted σ hp)⟩

theorem Within.index (h : r.Within a ∨ r.Within b) : r.Within (.index a b) := by
  rcases h with h | h
  · exact h.trans ⟨List.subset_append_left _ _, fun _ => List.subset_append_left _ _⟩
  · exact h.trans ⟨List.subset_append_right _ _, fun _ => List.subset_append_right _ _⟩

theorem Within.binary (op : QueryBinaryOp) (h : r.Within a ∨ r.Within b) :
    r.Within (.binary op a b) := by
  rcases h with h | h
  · exact h.trans ⟨List.subset_append_left _ _, fun _ => List.subset_append_left _ _⟩
  · exact h.trans ⟨List.subset_append_right _ _, fun _ => List.subset_append_right _ _⟩

theorem Within.unary (op : QueryUnaryOp) (h : r.Within a) : r.Within (.unary op a) :=
  h.trans ⟨List.Subset.refl _, fun _ => List.Subset.refl _⟩

theorem Within.conditional (h : r.Within a ∨ r.Within b ∨ r.Within c) :
    r.Within (.conditional a b c) := by
  have hright : ∀ {as bs cs : List Part}, as ⊆ bs → as ⊆ cs ++ bs := fun h =>
    List.subset_append_of_subset_right _ h
  rcases h with h | h | h
  · exact h.trans ⟨List.subset_append_left _ _, fun _ => List.subset_append_left _ _⟩
  · exact h.trans ⟨hright (List.subset_append_left _ _),
      fun _ => hright (List.subset_append_left _ _)⟩
  · exact h.trans ⟨hright (List.subset_append_right _ _),
      fun _ => hright (List.subset_append_right _ _)⟩

theorem substituteAll_eq_map {σ : Substitution} (as : List Scalar) :
    substituteAll σ as = as.map (·.substitute σ) := by
  induction as with
  | nil => rfl
  | cons a as ih => rw [substituteAll, ih, List.map_cons]

theorem Within.all (h : ∃ a ∈ as, r.Within a) : r.parts ⊆ partsAll as ∧
    ∀ σ, (r.substitute σ).parts ⊆ partsAll (substituteAll σ as) := by
  obtain ⟨a, ha, h⟩ := h
  refine ⟨fun p hp => mem_partsAll.mpr ⟨a, ha, h.parts hp⟩, fun σ p hp => ?_⟩
  rw [substituteAll_eq_map]
  exact mem_partsAll.mpr ⟨_, List.mem_map_of_mem ha, h.substituted σ hp⟩

theorem Within.call (name : String) (udf : Bool) (h : ∃ a ∈ as, r.Within a) :
    r.Within (.call name as udf) := ⟨(Within.all h).1, (Within.all h).2⟩

theorem Within.array (h : ∃ a ∈ as, r.Within a) : r.Within (.array as) :=
  ⟨(Within.all h).1, (Within.all h).2⟩

/-- The items of an array, as arguments. -/
theorem Within.spread (name : String) (udf : Bool) (h : r.Within (.array as)) :
    r.Within (.call name as udf) := h.trans ⟨List.Subset.refl _, fun _ => List.Subset.refl _⟩

theorem Within.isIn (negated : Bool) (h : r.Within a ∨ r.Within (.array as)) :
    r.Within (.isIn a as negated) := by
  rcases h with h | h
  · exact h.trans ⟨List.subset_append_left _ _, fun _ => List.subset_append_left _ _⟩
  · exact h.trans ⟨List.subset_append_right _ _, fun _ => List.subset_append_right _ _⟩

theorem Within.object {ps : List (String × Scalar)} (h : ∃ p ∈ ps, r.Within p.2) :
    r.Within (.object ps) := by
  obtain ⟨⟨name, a⟩, ha, h⟩ := h
  refine ⟨fun p hp => mem_partsProperties.mpr ⟨_, ha, h.parts hp⟩, fun σ p hp => ?_⟩
  have hmem : (name, a.substitute σ) ∈ substituteProperties σ ps := by
    clear hp
    induction ps with
    | nil => cases ha
    | cons q ps ih =>
      obtain ⟨n, b⟩ := q
      rcases List.mem_cons.mp ha with heq | ha
      · cases heq
        exact List.mem_cons_self
      · exact List.mem_cons_of_mem _ (ih ha)
  exact mem_partsProperties.mpr ⟨_, hmem, h.substituted σ hp⟩

theorem Within.zip {names : List String} (hlength : as.length ≤ names.length)
    (h : ∃ a ∈ as, r.Within a) : r.Within (.object (names.zip as)) := by
  obtain ⟨a, ha, h⟩ := h
  rw [← List.map_snd_zip hlength] at ha
  obtain ⟨p, hp, rfl⟩ := List.mem_map.mp ha
  exact .object ⟨p, hp, h⟩

end Scalar

end LambdaQuery
