import LambdaQuery.Proofs.Edits
import LambdaQuery.Proofs.Within

/-!
# What flattening keeps

A merged layer has all clauses of both layers, but the selection of the lower one where the upper
one selects as well. What is selected there is still in the merged layer if a clause of the upper
one reads the rows below (`Layer.UsesBelow`). A stage is `Lossless` if every layer of it reads the
rows below, selects nothing or has nothing to lose below; its query refers to all parameters of its
layers (`Stage.Lossless.parameters`).
-/

set_option autoImplicit false

namespace LambdaQuery

/-! ## Substitution takes nothing away -/

section

variable {σ : Substitution}

theorem List.append_mono {α : Type} {as as' bs bs' : List α} (ha : as ⊆ as') (hb : bs ⊆ bs') :
    as ++ bs ⊆ as' ++ bs' :=
  List.append_subset_of_subset_of_subset (List.subset_append_of_subset_left _ ha)
    (List.subset_append_of_subset_right _ hb)

mutual

theorem Scalar.parts_subset_substitute : ∀ s : Scalar, s.parts ⊆ (s.substitute σ).parts
  | .literal _ | .ref _ => List.nil_subset _
  | .index object key =>
    List.append_mono object.parts_subset_substitute key.parts_subset_substitute
  | .binary _ left right =>
    List.append_mono left.parts_subset_substitute right.parts_subset_substitute
  | .unary _ operand => operand.parts_subset_substitute
  | .call _ args _ => Scalar.partsAll_subset_substitute args
  | .array items => Scalar.partsAll_subset_substitute items
  | .object properties => Scalar.partsProperties_subset_substitute properties
  | .conditional test ifTrue ifFalse => List.append_mono test.parts_subset_substitute
    (List.append_mono ifTrue.parts_subset_substitute ifFalse.parts_subset_substitute)
  | .isIn item items _ =>
    List.append_mono item.parts_subset_substitute (Scalar.partsAll_subset_substitute items)
  | .parameter _ => List.Subset.refl _
  | .exists query | .arrayOf query | .subquery query => query.parts_subset_substitute

theorem Scalar.partsAll_subset_substitute : ∀ ss : List Scalar,
    Scalar.partsAll ss ⊆ Scalar.partsAll (Scalar.substituteAll σ ss)
  | [] => List.nil_subset _
  | s :: ss => List.append_mono s.parts_subset_substitute (Scalar.partsAll_subset_substitute ss)

theorem Scalar.partsProperties_subset_substitute : ∀ ps : List (String × Scalar),
    Scalar.partsProperties ps ⊆ Scalar.partsProperties (Scalar.substituteProperties σ ps)
  | [] => List.nil_subset _
  | (_, s) :: ps =>
    List.append_mono s.parts_subset_substitute (Scalar.partsProperties_subset_substitute ps)

theorem Projection.parts_subset_substitute : ∀ p : Projection, p.parts ⊆ (p.substitute σ).parts
  | .star => List.nil_subset _
  | .value value => value.parts_subset_substitute

theorem Selection.parts_subset_substitute : ∀ s : Selection, s.parts ⊆ (s.substitute σ).parts
  | ⟨projection, _, _⟩ => projection.parts_subset_substitute

theorem Source.parts_subset_substitute : ∀ s : Source, s.parts ⊆ (s.substitute σ).parts
  | .container _ => List.nil_subset _
  | .items _ path => path.parts_subset_substitute
  | .subquery _ query => query.parts_subset_substitute

theorem Source.partsAll_subset_substitute : ∀ ss : List Source,
    Source.partsAll ss ⊆ Source.partsAll (Source.substituteAll σ ss)
  | [] => List.nil_subset _
  | s :: ss => List.append_mono s.parts_subset_substitute (Source.partsAll_subset_substitute ss)

theorem SortKey.partsAll_subset_substitute : ∀ ks : List SortKey,
    SortKey.partsAll ks ⊆ SortKey.partsAll (SortKey.substituteAll σ ks)
  | [] => List.nil_subset _
  | ⟨value, _⟩ :: ks =>
    List.append_mono value.parts_subset_substitute (SortKey.partsAll_subset_substitute ks)

theorem Scalar.partsOption_subset_substitute : ∀ s : Option Scalar,
    Scalar.partsOption s ⊆ Scalar.partsOption (Scalar.substituteOption σ s)
  | none => List.nil_subset _
  | some s => s.parts_subset_substitute

theorem Query.parts_subset_substitute : ∀ q : Query, q.parts ⊆ (q.substitute σ).parts
  | ⟨⟨_, _, _⟩, sources, filter, groupBy, orderBy, _, _⟩ =>
    List.append_mono (List.Subset.refl [_])
      (List.append_mono (Source.partsAll_subset_substitute sources)
        (List.append_mono (Selection.parts_subset_substitute _)
          (List.append_mono (Scalar.partsOption_subset_substitute filter)
            (List.append_mono (Scalar.partsAll_subset_substitute groupBy)
              (SortKey.partsAll_subset_substitute orderBy)))))

end

end

/-! ## Parameters of bounds -/

theorem Window.mem_parameters {w : Window} {name : String} :
    name ∈ (Part.window w).parameters ↔ w.top = some (.parameter name) ∨
      w.offset = some (.parameter name) ∨ w.limit = some (.parameter name) := by
  have hparameter : ∀ c : Count, c.parameter? = some name ↔ c = .parameter name := by
    rintro (_ | _) <;> simp [Count.parameter?]
  simp only [Part.parameters, List.mem_filterMap, hparameter, exists_eq_right, Window.mem_counts]

/-! ## Layers -/

namespace Layer

variable {l b m next : Layer} {ls rest : List Layer} {name : String}

/-- The parameters in the clauses and the bounds of a layer. -/
def parameters (l : Layer) : List String := (.window l.window :: l.parts).flatMap Part.parameters

theorem mem_parameters : name ∈ l.parameters ↔
    name ∈ (Part.window l.window).parameters ∨ ∃ p ∈ l.parts, name ∈ p.parameters := by
  simp [parameters]

/-- There is nothing to lose in the selection. -/
def Free (l : Layer) : Prop := ∀ v ∈ l.selection.bind (·.value?), v.parts = []

/-- A clause of the layer is built over the rows below. -/
def UsesBelow (l : Layer) : Prop := ∃ s ∈ l.clauses, (Scalar.ref l.name).Within s

/-- The selection below stays. -/
def Passes (l : Layer) : Prop := l.outerSelection = none ∨ l.hasGroupBy = true ∨ l.UsesBelow

/-- No layer takes the selection of the one below away, or else there is nothing in it. -/
inductive Lossless : Layer → List Layer → Prop where
  | bottom (l : Layer) : Lossless l []
  | above {l next : Layer} {rest : List Layer} (hsource : l.source = .container)
    (hpasses : l.Passes ∨ ∀ k ∈ next :: rest, k.Free) (h : Lossless next rest) :
    Lossless l (next :: rest)

/-! ### The query of a layer -/

/-- The query of a layer has all parts of it. -/
theorem parts_subset_toQuery (l : Layer) : .window l.window :: l.parts ⊆ l.toQuery.parts := by
  have hclauses : ∀ s ∈ l.clauses, s.parts ⊆ l.toQuery.parts := by
    intro s hs p hp
    rw [Query.mem_parts]
    rcases mem_clauses.mp hs with ⟨j, hj, rfl⟩ | hv | hf | ⟨k, hk, rfl⟩
    · exact .inr (.inl ⟨_, List.mem_cons_of_mem _ (List.mem_map_of_mem hj), hp⟩)
    · obtain ⟨selection, hselection, hv⟩ := Option.bind_eq_some_iff.mp hv
      refine .inr (.inr (.inl ⟨s, ?_, hp⟩))
      simpa [toQuery, hselection, Selection.value?] using hv
    · exact .inr (.inr (.inr (.inl ⟨s, hf, hp⟩)))
    · exact .inr (.inr (.inr (.inr (.inr ⟨k, hk, hp⟩))))
  refine List.cons_subset.mpr ⟨Query.mem_parts.mpr (.inl rfl), fun p hp => ?_⟩
  rcases mem_parts.mp hp with hp | ⟨s, hs, hp⟩ | ⟨k, hk, hp⟩
  · exact Query.mem_parts.mpr (.inr (.inl ⟨_, List.mem_cons_self, hp⟩))
  · exact hclauses s hs hp
  · exact Query.mem_parts.mpr (.inr (.inr (.inr (.inr (.inl ⟨k, hk, hp⟩)))))

theorem parameters_subset_toQuery (l : Layer) : l.parameters ⊆ l.toQuery.parameters := by
  intro name hname
  obtain ⟨p, hp, hname⟩ := List.mem_flatMap.mp hname
  exact List.mem_flatMap.mpr ⟨p, l.parts_subset_toQuery hp, hname⟩

/-! ### Merged layers -/

/-- A value that the upper layer selects, with the rows below in it. -/
theorem mergedSelection_outer {v : Scalar} (h : l.selection.bind (·.value?) = some v) :
    (l.mergedSelection b).bind (·.value?) = some (v.substitute (l.onto b)) := by
  obtain ⟨⟨projection, distinct, top⟩, hselection, hv⟩ := Option.bind_eq_some_iff.mp h
  cases projection with
  | star => cases hv
  | value =>
    cases hv
    have houter : l.outerSelection = l.selection := by
      unfold outerSelection
      rw [hselection]
    unfold mergedSelection
    rw [houter, hselection]
    cases b.selection <;> rfl

/-- The value that the lower layer selects, where the upper one selects none. -/
theorem mergedSelection_inner (h : l.outerSelection = none) :
    l.mergedSelection b = b.selection := by
  unfold mergedSelection
  rw [h]
  cases b.selection <;> rfl

theorem mergedFilter_outer {f : Scalar} (h : l.filter = some f) :
    ∃ g, l.mergedFilter b = some g ∧ (f.substitute (l.onto b)).parts ⊆ g.parts := by
  unfold mergedFilter
  rw [h]
  cases b.filter with
  | none => exact ⟨_, rfl, List.Subset.refl _⟩
  | some => exact ⟨_, rfl, List.subset_append_right _ _⟩

theorem mergedFilter_inner {f : Scalar} (h : b.filter = some f) :
    ∃ g, l.mergedFilter b = some g ∧ f.parts ⊆ g.parts := by
  unfold mergedFilter
  rw [h]
  cases l.filter with
  | none => exact ⟨_, rfl, List.Subset.refl _⟩
  | some => exact ⟨_, rfl, List.subset_append_left _ _⟩

theorem mergedOrderBy_outer {k : SortKey} {ks : List SortKey} (h : l.mergedOrderBy b = .ok ks)
    (hk : k ∈ l.orderBy) : k.substitute (l.onto b) ∈ ks := by
  unfold mergedOrderBy at h
  split at h
  · cases h
  · cases h
    exact List.mem_map_of_mem hk
  · rename_i hnone _
    rw [hnone] at hk
    cases hk

theorem mergedOrderBy_inner {k : SortKey} {ks : List SortKey} (h : l.mergedOrderBy b = .ok ks)
    (hk : k ∈ b.orderBy) : k ∈ ks := by
  unfold mergedOrderBy at h
  split at h
  · cases h
  · rename_i hnone
    rw [hnone] at hk
    cases hk
  · cases h
    exact hk

/-- Every clause of the upper layer is in the merged one, with the rows below in it. -/
theorem onto_subset_merge (h : l.merge b = .ok m) {s : Scalar} (hs : s ∈ l.clauses) :
    (s.substitute (l.onto b)).parts ⊆ m.parts := by
  obtain ⟨ks, top, offset, limit, hks, -, -, -, rfl⟩ := merge_eq_ok.mp h
  rcases mem_clauses.mp hs with ⟨j, hj, rfl⟩ | hv | hf | ⟨⟨value, descending⟩, hk, rfl⟩
  · exact parts_clauses (mem_clauses.mpr (.inl
      ⟨_, List.mem_append_right _ (List.mem_map_of_mem hj), rfl⟩))
  · exact parts_clauses (mem_clauses.mpr (.inr (.inl (mergedSelection_outer hv))))
  · obtain ⟨g, hg, hsub⟩ := mergedFilter_outer (b := b) hf
    exact List.Subset.trans hsub (parts_clauses (mem_clauses.mpr (.inr (.inr (.inl hg)))))
  · exact parts_clauses (mem_clauses.mpr (.inr (.inr (.inr ⟨_, mergedOrderBy_outer hks hk, rfl⟩))))

/-- What the lower layer selects is kept if the upper one passes it on, or has no parts. -/
theorem selection_subset_merge (h : l.merge b = .ok m) (hgroup : l.hasGroupBy = false)
    (hkept : l.Passes ∨ b.Free) {v : Scalar} (hv : b.selection.bind (·.value?) = some v) :
    v.parts ⊆ m.parts := by
  rcases hkept with (hnone | hgrouped | ⟨s, hs, hreads⟩) | hfree
  · obtain ⟨ks, top, offset, limit, -, -, -, -, rfl⟩ := merge_eq_ok.mp h
    refine parts_clauses (mem_clauses.mpr (.inr (.inl ?_)))
    show (l.mergedSelection b).bind (·.value?) = some v
    rw [mergedSelection_inner hnone, hv]
  · rw [hgroup] at hgrouped
    cases hgrouped
  · have hrow : b.row = v := by
      unfold row
      rw [hv]
    exact List.Subset.trans (hrow ▸ hreads.replacement (σ := l.onto b)) (onto_subset_merge h hs)
  · rw [hfree v hv]
    exact List.nil_subset _

/-- Merging takes no parts away but those that the lower layer selects. -/
theorem parts_subset_merge (h : l.merge b = .ok m) (hsource : l.source = .container)
    (hgroup : l.hasGroupBy = false) (hkept : l.Passes ∨ b.Free) : l.parts ++ b.parts ⊆ m.parts := by
  have hselection := fun v => selection_subset_merge h hgroup hkept (v := v)
  have honto := fun s => onto_subset_merge h (s := s)
  obtain ⟨ks, top, offset, limit, hks, -, -, -, rfl⟩ := merge_eq_ok.mp h
  refine List.append_subset.mpr ⟨fun p hp => ?_, fun p hp => ?_⟩
  · rcases mem_parts.mp hp with hp | ⟨s, hs, hp⟩ | ⟨k, hk, -⟩
    · unfold toSource at hp
      rw [hsource] at hp
      cases hp
    · exact honto s hs (s.parts_subset_substitute hp)
    · unfold hasGroupBy at hgroup
      rw [List.isEmpty_eq_false_iff.mpr (List.ne_nil_of_mem hk)] at hgroup
      cases hgroup
  rcases mem_parts.mp hp with hp | ⟨s, hs, hp⟩ | hk
  · exact mem_parts.mpr (.inl hp)
  · rcases mem_clauses.mp hs with ⟨j, hj, rfl⟩ | hv | hf | ⟨k, hk, rfl⟩
    · exact parts_clauses (mem_clauses.mpr (.inl ⟨j, List.mem_append_left _ hj, rfl⟩)) hp
    · exact hselection s hv hp
    · obtain ⟨g, hg, hsub⟩ := mergedFilter_inner (l := l) hf
      exact parts_clauses (mem_clauses.mpr (.inr (.inr (.inl hg)))) (hsub hp)
    · exact parts_clauses (mem_clauses.mpr (.inr (.inr (.inr
        ⟨k, mergedOrderBy_inner hks hk, rfl⟩)))) hp
  · exact mem_parts.mpr (.inr (.inr hk))

theorem window_subset_merge (h : l.merge b = .ok m)
    (hname : name ∈ (Part.window l.window).parameters ∨ name ∈ (Part.window b.window).parameters) :
    name ∈ (Part.window m.window).parameters := by
  obtain ⟨ks, top, offset, limit, -, htop, hoffset, hlimit, rfl⟩ := merge_eq_ok.mp h
  have htop := (Count.min?_combines.parameter htop name).mpr
  have hoffset := (Count.sum?_combines.parameter hoffset name).mpr
  have hlimit := (Count.min?_combines.parameter hlimit name).mpr
  simp only [Window.mem_parameters, window] at hname ⊢
  tauto

/-! ### Flattened layers -/

theorem parameters_flattenOnto (h : l.flattenOnto b = .ok m) (hsource : l.source = .container)
    (hkept : l.Passes ∨ b.Free) : l.parameters ++ b.parameters ⊆ m.parameters := by
  obtain ⟨-, h⟩ := flattenOnto_eq_ok.mp h
  split at h
  · subst h
    refine List.append_subset.mpr ⟨fun name hname => ?_, fun name hname => ?_⟩
    · refine mem_parameters.mpr ((mem_parameters.mp hname).imp_right ?_)
      rintro ⟨p, hp, hname⟩
      refine ⟨p, mem_parts.mpr ((mem_parts.mp hp).imp_left fun hp => ?_), hname⟩
      unfold toSource at hp
      rw [hsource] at hp
      cases hp
    · obtain ⟨p, hp, hname⟩ := List.mem_flatMap.mp (b.parameters_subset_toQuery hname)
      exact mem_parameters.mpr (.inr ⟨p, mem_parts.mpr (.inl hp), hname⟩)
  · rename_i hmerged
    have hgroup : l.hasGroupBy = false := by
      unfold needsSubquery at hmerged
      cases hg : l.hasGroupBy <;> simp_all
    have hparts := List.append_subset.mp (parts_subset_merge h hsource hgroup hkept)
    refine List.append_subset.mpr ⟨fun name hname => ?_, fun name hname => ?_⟩
    · exact mem_parameters.mpr ((mem_parameters.mp hname).imp
        (fun hw => window_subset_merge h (.inl hw)) fun ⟨p, hp, hname⟩ => ⟨p, hparts.1 hp, hname⟩)
    · exact mem_parameters.mpr ((mem_parameters.mp hname).imp
        (fun hw => window_subset_merge h (.inr hw)) fun ⟨p, hp, hname⟩ => ⟨p, hparts.2 hp, hname⟩)

theorem Free.outerSelection (h : l.Free) {outer : Selection} (ho : l.outerSelection = some outer)
    {v : Scalar} (hv : outer.value? = some v) : v.parts = [] := by
  unfold Layer.outerSelection at ho
  split at ho
  · obtain rfl := Option.some.inj ho
    cases hv
    rfl
  · refine h v ?_
    rw [ho]
    exact hv

/-- Where the layers have nothing to lose, neither has what they are flattened to. -/
theorem Free.flattenOnto (hl : l.Free) (hb : b.Free) (h : l.flattenOnto b = .ok m) : m.Free := by
  obtain ⟨-, h⟩ := flattenOnto_eq_ok.mp h
  split at h
  · subst h
    exact hl
  · obtain ⟨ks, top, offset, limit, -, -, -, -, rfl⟩ := merge_eq_ok.mp h
    intro v hv
    cases ho : l.outerSelection with
    | none =>
      refine hb v ?_
      rw [← mergedSelection_inner ho]
      exact hv
    | some outer =>
      obtain ⟨u, hu, rfl⟩ : ∃ u, outer.value? = some u ∧ v = u.substitute (l.onto b) := by
        obtain ⟨projection, distinct, top⟩ := outer
        change v ∈ (l.mergedSelection b).bind (·.value?) at hv
        unfold mergedSelection at hv
        rw [ho] at hv
        cases projection <;> cases hsel : b.selection <;>
          simp_all [Selection.substitute, Projection.substitute, Selection.value?]
      have hrow : b.row.parts = [] := by
        unfold row
        split
        · exact hb _ ‹_›
        · rfl
      have hparts := Scalar.parts_substitute (σ := l.onto b) u
      rw [hl.outerSelection ho hu, show (l.onto b).replacement = b.row from rfl, hrow] at hparts
      exact List.subset_nil.mp hparts

theorem Free.flattenAll (h : ∀ k ∈ l :: ls, k.Free) (hm : l.flattenAll ls = .ok m) : m.Free := by
  induction ls generalizing l m with
  | nil =>
    cases hm
    exact h _ List.mem_cons_self
  | cons next rest ih =>
    obtain ⟨b, hb, hm⟩ := bind_eq_ok.mp hm
    exact (h l List.mem_cons_self).flattenOnto
      (ih (fun k hk => h k (List.mem_cons_of_mem _ hk)) hb) hm

theorem Lossless.parameters (h : Lossless l ls) (hm : l.flattenAll ls = .ok m) :
    ∀ k ∈ l :: ls, k.parameters ⊆ m.parameters := by
  induction h generalizing m with
  | bottom l =>
    cases hm
    exact List.forall_mem_singleton.mpr (List.Subset.refl _)
  | above hsource hpasses h ih =>
    obtain ⟨b, hb, hm⟩ := bind_eq_ok.mp hm
    obtain ⟨hl, hbelow⟩ := List.append_subset.mp
      (parameters_flattenOnto hm hsource (hpasses.imp_right fun hfree => Free.flattenAll hfree hb))
    exact List.forall_mem_cons.mpr ⟨hl, fun k hk => List.Subset.trans (ih hb k hk) hbelow⟩

end Layer

/-- A stage whose query refers to all that its layers do. -/
def Stage.Lossless (st : Stage) : Prop := Layer.Lossless st.layer st.below

/-- The parameters in the layers of a stage. -/
def Stage.parameters (st : Stage) : List String := st.layers.flatMap Layer.parameters

theorem Stage.Lossless.parameters {st : Stage} {q : Query} (h : st.Lossless)
    (hq : st.toQuery = .ok q) : st.parameters ⊆ q.parameters := by
  obtain ⟨m, hm, hq⟩ := bind_eq_ok.mp hq
  obtain rfl := Except.ok.inj hq
  intro name hname
  obtain ⟨l, hl, hname⟩ := List.mem_flatMap.mp hname
  exact m.parameters_subset_toQuery (Layer.Lossless.parameters h hm l hl hname)

end LambdaQuery
