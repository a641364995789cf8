import LambdaQuery.Stage

/-!
# Names in scalars and queries

`Scalar.names` lists the names in a scalar: those that it refers to and those that the sources of
its nested queries bind. A substitution brings in no names but those of its replacement.
-/

set_option autoImplicit false

namespace LambdaQuery

mutual

/-- The names that a scalar refers to, and those that its nested queries bind. -/
def Scalar.names : Scalar → List String
  | .literal _ => []
  | .ref name => [name]
  | .index object key => object.names ++ key.names
  | .binary _ left right => left.names ++ right.names
  | .unary _ operand => operand.names
  | .call _ args _ => Scalar.namesAll args
  | .array items => Scalar.namesAll items
  | .object properties => Scalar.namesProperties properties
  | .conditional test ifTrue ifFalse => test.names ++ (ifTrue.names ++ ifFalse.names)
  | .isIn item items _ => item.names ++ Scalar.namesAll items
  | .parameter _ => []
  | .exists query | .arrayOf query | .subquery query => query.names

def Scalar.namesAll : List Scalar → List String
  | [] => []
  | s :: ss => s.names ++ Scalar.namesAll ss

def Scalar.namesProperties : List (String × Scalar) → List String
  | [] => []
  | (_, s) :: ps => s.names ++ Scalar.namesProperties ps

def Projection.names : Projection → List String
  | .star => []
  | .value value => value.names

def Selection.names : Selection → List String
  | ⟨projection, _, _⟩ => projection.names

def Source.names : Source → List String
  | .container name => [name]
  | .items name path => name :: path.names
  | .subquery name query => name :: query.names

def Source.namesAll : List Source → List String
  | [] => []
  | s :: ss => s.names ++ Source.namesAll ss

def SortKey.names : SortKey → List String
  | ⟨value, _⟩ => value.names

def SortKey.namesAll : List SortKey → List String
  | [] => []
  | k :: ks => k.names ++ SortKey.namesAll ks

def Scalar.namesOption : Option Scalar → List String
  | none => []
  | some s => s.names

def Query.names : Query → List String
  | ⟨selection, sources, filter, groupBy, orderBy, _, _⟩ =>
    Source.namesAll sources ++ (selection.names ++ (Scalar.namesOption filter ++
      (Scalar.namesAll groupBy ++ SortKey.namesAll orderBy)))

end

theorem Scalar.mem_namesAll {n : String} {ss : List Scalar} :
    n ∈ Scalar.namesAll ss ↔ ∃ s ∈ ss, n ∈ s.names := by
  induction ss with
  | nil => simp [Scalar.namesAll]
  | cons s ss ih => simp [Scalar.namesAll, ih]

theorem Scalar.mem_namesProperties {n : String} {ps : List (String × Scalar)} :
    n ∈ Scalar.namesProperties ps ↔ ∃ p ∈ ps, n ∈ p.2.names := by
  induction ps with
  | nil => simp [Scalar.namesProperties]
  | cons p ps ih => simp [Scalar.namesProperties, ih]

theorem SortKey.mem_namesAll {n : String} {ks : List SortKey} :
    n ∈ SortKey.namesAll ks ↔ ∃ k ∈ ks, n ∈ k.value.names := by
  induction ks with
  | nil => simp [SortKey.namesAll]
  | cons k ks ih =>
    obtain ⟨value, descending⟩ := k
    simp [SortKey.namesAll, SortKey.names, ih]

theorem Source.mem_namesAll {n : String} {ss : List Source} :
    n ∈ Source.namesAll ss ↔ ∃ s ∈ ss, n ∈ s.names := by
  induction ss with
  | nil => simp [Source.namesAll]
  | cons s ss ih => simp [Source.namesAll, ih]

theorem Scalar.mem_namesOption {n : String} {s : Option Scalar} :
    n ∈ Scalar.namesOption s ↔ ∃ t ∈ s, n ∈ t.names := by
  cases s <;> simp [Scalar.namesOption]

theorem Query.mem_names {n : String} (q : Query) :
    n ∈ q.names ↔ n ∈ Source.namesAll q.sources ∨
      n ∈ Scalar.namesAll q.selection.value?.toList ∨ n ∈ Scalar.namesAll q.filter.toList ∨
      n ∈ Scalar.namesAll q.groupBy ∨ n ∈ Scalar.namesAll (q.orderBy.map (·.value)) := by
  obtain ⟨⟨projection, distinct, top⟩, sources, filter, groupBy, orderBy, offset, limit⟩ := q
  have hp : Projection.names projection =
      Scalar.namesAll (Selection.value? ⟨projection, distinct, top⟩).toList := by
    cases projection <;> simp [Projection.names, Selection.value?, Scalar.namesAll]
  have hf : Scalar.namesOption filter = Scalar.namesAll filter.toList := by
    cases filter <;> simp [Scalar.namesOption, Scalar.namesAll]
  have ho : n ∈ SortKey.namesAll orderBy ↔ n ∈ Scalar.namesAll (orderBy.map (·.value)) := by
    rw [SortKey.mem_namesAll, Scalar.mem_namesAll]
    constructor
    · rintro ⟨k, hk, h⟩
      exact ⟨_, List.mem_map_of_mem hk, h⟩
    · rintro ⟨_, hs, h⟩
      obtain ⟨k, hk, rfl⟩ := List.mem_map.mp hs
      exact ⟨k, hk, h⟩
  simp only [Query.names, Selection.names, List.mem_append, hp, hf, ho]

/-! ## Substitution -/

section

variable {n : String} {σ : Substitution}

mutual

theorem Scalar.mem_names_substitute : ∀ s : Scalar, n ∈ (s.substitute σ).names →
    n ∈ s.names ∨ n ∈ σ.replacement.names
  | .literal _, h => .inl h
  | .ref name, h => by
    simp only [Scalar.substitute] at h
    split at h
    · exact .inr h
    · exact .inl h
  | .index object key, h => by
    simp only [Scalar.substitute, Scalar.names, List.mem_append] at h ⊢
    rcases h with h | h
    · exact (object.mem_names_substitute h).imp_left .inl
    · exact (key.mem_names_substitute h).imp_left .inr
  | .binary _ left right, h => by
    simp only [Scalar.substitute, Scalar.names, List.mem_append] at h ⊢
    rcases h with h | h
    · exact (left.mem_names_substitute h).imp_left .inl
    · exact (right.mem_names_substitute h).imp_left .inr
  | .unary _ operand, h => operand.mem_names_substitute h
  | .call _ args _, h => Scalar.mem_namesAll_substitute args h
  | .array items, h => Scalar.mem_namesAll_substitute items h
  | .object properties, h => Scalar.mem_namesProperties_substitute properties h
  | .conditional test ifTrue ifFalse, h => by
    simp only [Scalar.substitute, Scalar.names, List.mem_append] at h ⊢
    rcases h with h | h | h
    · exact (test.mem_names_substitute h).imp_left .inl
    · exact (ifTrue.mem_names_substitute h).imp_left (.inr ∘ .inl)
    · exact (ifFalse.mem_names_substitute h).imp_left (.inr ∘ .inr)
  | .isIn item items _, h => by
    simp only [Scalar.substitute, Scalar.names, List.mem_append] at h ⊢
    rcases h with h | h
    · exact (item.mem_names_substitute h).imp_left .inl
    · exact (Scalar.mem_namesAll_substitute items h).imp_left .inr
  | .parameter _, h => .inl h
  | .exists query, h => query.mem_names_substitute h
  | .arrayOf query, h => query.mem_names_substitute h
  | .subquery query, h => query.mem_names_substitute h

theorem Scalar.mem_namesAll_substitute : ∀ ss : List Scalar,
    n ∈ Scalar.namesAll (Scalar.substituteAll σ ss) →
      n ∈ Scalar.namesAll ss ∨ n ∈ σ.replacement.names
  | [], h => .inl h
  | s :: ss, h => by
    simp only [Scalar.substituteAll, Scalar.namesAll, List.mem_append] at h ⊢
    rcases h with h | h
    · exact (s.mem_names_substitute h).imp_left .inl
    · exact (Scalar.mem_namesAll_substitute ss h).imp_left .inr

theorem Scalar.mem_namesProperties_substitute : ∀ ps : List (String × Scalar),
    n ∈ Scalar.namesProperties (Scalar.substituteProperties σ ps) →
      n ∈ Scalar.namesProperties ps ∨ n ∈ σ.replacement.names
  | [], h => .inl h
  | (_, s) :: ps, h => by
    simp only [Scalar.substituteProperties, Scalar.namesProperties, List.mem_append] at h ⊢
    rcases h with h | h
    · exact (s.mem_names_substitute h).imp_left .inl
    · exact (Scalar.mem_namesProperties_substitute ps h).imp_left .inr

theorem Projection.mem_names_substitute : ∀ p : Projection, n ∈ (p.substitute σ).names →
    n ∈ p.names ∨ n ∈ σ.replacement.names
  | .star, h => .inl h
  | .value value, h => value.mem_names_substitute h

theorem Selection.mem_names_substitute : ∀ s : Selection, n ∈ (s.substitute σ).names →
    n ∈ s.names ∨ n ∈ σ.replacement.names
  | ⟨projection, _, _⟩, h => projection.mem_names_substitute h

theorem Source.mem_namesAll_substitute : ∀ ss : List Source,
    n ∈ Source.namesAll (Source.substituteAll σ ss) →
      n ∈ Source.namesAll ss ∨ n ∈ σ.replacement.names
  | [], h => .inl h
  | .container name :: ss, h => by
    simp only [Source.substituteAll, Source.substitute, Source.namesAll, List.mem_append] at h ⊢
    rcases h with h | h
    · exact .inl (.inl h)
    · exact (Source.mem_namesAll_substitute ss h).imp_left .inr
  | .items name path :: ss, h => by
    simp only [Source.substituteAll, Source.substitute, Source.namesAll, Source.names,
      List.mem_append, List.mem_cons] at h ⊢
    rcases h with (h | h) | h
    · exact .inl (.inl (.inl h))
    · exact (path.mem_names_substitute h).imp_left (.inl ∘ .inr)
    · exact (Source.mem_namesAll_substitute ss h).imp_left .inr
  | .subquery name query :: ss, h => by
    simp only [Source.substituteAll, Source.substitute, Source.namesAll, Source.names,
      List.mem_append, List.mem_cons] at h ⊢
    rcases h with (h | h) | h
    · exact .inl (.inl (.inl h))
    · exact (query.mem_names_substitute h).imp_left (.inl ∘ .inr)
    · exact (Source.mem_namesAll_substitute ss h).imp_left .inr

theorem SortKey.mem_namesAll_substitute : ∀ ks : List SortKey,
    n ∈ SortKey.namesAll (SortKey.substituteAll σ ks) →
      n ∈ SortKey.namesAll ks ∨ n ∈ σ.replacement.names
  | [], h => .inl h
  | ⟨value, _⟩ :: ks, h => by
    simp only [SortKey.substituteAll, SortKey.substitute, SortKey.namesAll, SortKey.names,
      List.mem_append] at h ⊢
    rcases h with h | h
    · exact (value.mem_names_substitute h).imp_left .inl
    · exact (SortKey.mem_namesAll_substitute ks h).imp_left .inr

theorem Scalar.mem_namesOption_substitute : ∀ s : Option Scalar,
    n ∈ Scalar.namesOption (Scalar.substituteOption σ s) →
      n ∈ Scalar.namesOption s ∨ n ∈ σ.replacement.names
  | none, h => .inl h
  | some s, h => s.mem_names_substitute h

theorem Query.mem_names_substitute : ∀ q : Query, n ∈ (q.substitute σ).names →
    n ∈ q.names ∨ n ∈ σ.replacement.names
  | ⟨selection, sources, filter, groupBy, orderBy, _, _⟩, h => by
    simp only [Query.substitute, Query.names, List.mem_append] at h ⊢
    rcases h with h | h | h | h | h
    · exact (Source.mem_namesAll_substitute sources h).imp_left .inl
    · exact (selection.mem_names_substitute h).imp_left (.inr ∘ .inl)
    · exact (Scalar.mem_namesOption_substitute filter h).imp_left (.inr ∘ .inr ∘ .inl)
    · exact (Scalar.mem_namesAll_substitute groupBy h).imp_left (.inr ∘ .inr ∘ .inr ∘ .inl)
    · exact (SortKey.mem_namesAll_substitute orderBy h).imp_left (.inr ∘ .inr ∘ .inr ∘ .inr)

end

mutual

/-- A name that does not occur is not replaced. -/
theorem Scalar.substitute_of_not_mem : ∀ s : Scalar, σ.name ∉ s.names → s.substitute σ = s
  | .literal _, _ => rfl
  | .ref name, h => by
    have hn : name ≠ σ.name := fun hn => h (hn ▸ List.mem_singleton_self _)
    rw [Scalar.substitute, if_neg hn]
  | .index object key, h => by
    simp only [Scalar.names, List.mem_append, not_or] at h
    rw [Scalar.substitute, object.substitute_of_not_mem h.1, key.substitute_of_not_mem h.2]
  | .binary _ left right, h => by
    simp only [Scalar.names, List.mem_append, not_or] at h
    rw [Scalar.substitute, left.substitute_of_not_mem h.1, right.substitute_of_not_mem h.2]
  | .unary _ operand, h => by rw [Scalar.substitute, operand.substitute_of_not_mem h]
  | .call _ args _, h => by rw [Scalar.substitute, Scalar.substituteAll_of_not_mem args h]
  | .array items, h => by rw [Scalar.substitute, Scalar.substituteAll_of_not_mem items h]
  | .object properties, h => by
    rw [Scalar.substitute, Scalar.substituteProperties_of_not_mem properties h]
  | .conditional test ifTrue ifFalse, h => by
    simp only [Scalar.names, List.mem_append, not_or] at h
    rw [Scalar.substitute, test.substitute_of_not_mem h.1, ifTrue.substitute_of_not_mem h.2.1,
      ifFalse.substitute_of_not_mem h.2.2]
  | .isIn item items _, h => by
    simp only [Scalar.names, List.mem_append, not_or] at h
    rw [Scalar.substitute, item.substitute_of_not_mem h.1,
      Scalar.substituteAll_of_not_mem items h.2]
  | .parameter _, _ => rfl
  | .exists query, h => by rw [Scalar.substitute, query.substitute_of_not_mem h]
  | .arrayOf query, h => by rw [Scalar.substitute, query.substitute_of_not_mem h]
  | .subquery query, h => by rw [Scalar.substitute, query.substitute_of_not_mem h]

theorem Scalar.substituteAll_of_not_mem : ∀ ss : List Scalar, σ.name ∉ Scalar.namesAll ss →
    Scalar.substituteAll σ ss = ss
  | [], _ => rfl
  | s :: ss, h => by
    simp only [Scalar.namesAll, List.mem_append, not_or] at h
    rw [Scalar.substituteAll, s.substitute_of_not_mem h.1,
      Scalar.substituteAll_of_not_mem ss h.2]

theorem Scalar.substituteProperties_of_not_mem : ∀ ps : List (String × Scalar),
    σ.name ∉ Scalar.namesProperties ps → Scalar.substituteProperties σ ps = ps
  | [], _ => rfl
  | (_, s) :: ps, h => by
    simp only [Scalar.namesProperties, List.mem_append, not_or] at h
    rw [Scalar.substituteProperties, s.substitute_of_not_mem h.1,
      Scalar.substituteProperties_of_not_mem ps h.2]

theorem Projection.substitute_of_not_mem : ∀ p : Projection, σ.name ∉ p.names →
    p.substitute σ = p
  | .star, _ => rfl
  | .value value, h => by rw [Projection.substitute, value.substitute_of_not_mem h]

theorem Selection.substitute_of_not_mem : ∀ s : Selection, σ.name ∉ s.names →
    s.substitute σ = s
  | ⟨projection, _, _⟩, h => by rw [Selection.substitute, projection.substitute_of_not_mem h]

theorem Source.substituteAll_of_not_mem : ∀ ss : List Source, σ.name ∉ Source.namesAll ss →
    Source.substituteAll σ ss = ss
  | [], _ => rfl
  | .container _ :: ss, h => by
    simp only [Source.namesAll, List.mem_append, not_or] at h
    rw [Source.substituteAll, Source.substitute, Source.substituteAll_of_not_mem ss h.2]
  | .items _ path :: ss, h => by
    simp only [Source.namesAll, Source.names, List.mem_append, List.mem_cons, not_or] at h
    rw [Source.substituteAll, Source.substitute, path.substitute_of_not_mem h.1.2,
      Source.substituteAll_of_not_mem ss h.2]
  | .subquery _ query :: ss, h => by
    simp only [Source.namesAll, Source.names, List.mem_append, List.mem_cons, not_or] at h
    rw [Source.substituteAll, Source.substitute, query.substitute_of_not_mem h.1.2,
      Source.substituteAll_of_not_mem ss h.2]

theorem SortKey.substituteAll_of_not_mem : ∀ ks : List SortKey, σ.name ∉ SortKey.namesAll ks →
    SortKey.substituteAll σ ks = ks
  | [], _ => rfl
  | ⟨value, _⟩ :: ks, h => by
    simp only [SortKey.namesAll, SortKey.names, List.mem_append, not_or] at h
    rw [SortKey.substituteAll, SortKey.substitute, value.substitute_of_not_mem h.1,
      SortKey.substituteAll_of_not_mem ks h.2]

theorem Scalar.substituteOption_of_not_mem : ∀ s : Option Scalar,
    σ.name ∉ Scalar.namesOption s → Scalar.substituteOption σ s = s
  | none, _ => rfl
  | some s, h => by rw [Scalar.substituteOption, s.substitute_of_not_mem h]

theorem Query.substitute_of_not_mem : ∀ q : Query, σ.name ∉ q.names → q.substitute σ = q
  | ⟨selection, sources, filter, groupBy, orderBy, _, _⟩, h => by
    simp only [Query.names, List.mem_append, not_or] at h
    obtain ⟨hs, hv, hf, hg, ho⟩ := h
    rw [Query.substitute, selection.substitute_of_not_mem hv,
      Source.substituteAll_of_not_mem sources hs, Scalar.substituteOption_of_not_mem filter hf,
      Scalar.substituteAll_of_not_mem groupBy hg, SortKey.substituteAll_of_not_mem orderBy ho]

end

/-! ### Substitution in the parts of a query -/

theorem Selection.value?_substitute (s : Selection) :
    (s.substitute σ).value?.toList = Scalar.substituteAll σ s.value?.toList := by
  obtain ⟨projection, distinct, top⟩ := s
  cases projection <;> rfl

theorem Scalar.toList_substituteOption (s : Option Scalar) :
    (Scalar.substituteOption σ s).toList = Scalar.substituteAll σ s.toList := by
  cases s <;> rfl

theorem SortKey.values_substituteAll (ks : List SortKey) :
    (SortKey.substituteAll σ ks).map (·.value) = Scalar.substituteAll σ (ks.map (·.value)) := by
  induction ks with
  | nil => rfl
  | cons k ks ih =>
    obtain ⟨value, descending⟩ := k
    rw [SortKey.substituteAll, List.map_cons, ih]
    rfl

theorem SortKey.descending_substituteAll (ks : List SortKey) :
    (SortKey.substituteAll σ ks).map (·.descending) = ks.map (·.descending) := by
  induction ks with
  | nil => rfl
  | cons k ks ih =>
    obtain ⟨value, descending⟩ := k
    rw [SortKey.substituteAll, List.map_cons, ih]
    rfl

end

end LambdaQuery
