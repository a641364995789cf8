import LambdaQuery.Proofs.Alike.Data
import LambdaQuery.Proofs.Alike.Flatten

/-!
# Parts of queries

`Query.parts` lists what a query has that names nothing: the parameters that its scalars refer to,
and the bounds of its rows, at any depth. A substitution brings in no parts but those of its
replacement (`Scalar.parts_substitute`). What holds of the parts of all layers of a stage, and stays
true of bounds that are combined, holds of the parts of its query (`Stage.made_toQuery`).
-/

set_option autoImplicit false

namespace LambdaQuery

/-! ## Parts -/

/-- Which rows of a query count. -/
structure Window where
  top : Option Count
  offset : Option Count
  limit : Option Count

/-- A parameter that a scalar refers to, or the bounds of a query. -/
inductive Part where
  | parameter (name : String)
  | window (w : Window)

def Count.parameter? : Count → Option String
  | .literal _ => none
  | .parameter name => some name

namespace Window

def counts (w : Window) : List Count := w.top.toList ++ w.offset.toList ++ w.limit.toList

theorem mem_counts {w : Window} {c : Count} :
    c ∈ w.counts ↔ w.top = some c ∨ w.offset = some c ∨ w.limit = some c := by
  simp [counts]

end Window

mutual

/-- The parameters in a scalar, and the parts of its nested queries. -/
def Scalar.parts : Scalar → List Part
  | .literal _ | .ref _ => []
  | .index object key => object.parts ++ key.parts
  | .binary _ left right => left.parts ++ right.parts
  | .unary _ operand => operand.parts
  | .call _ args _ => Scalar.partsAll args
  | .array items => Scalar.partsAll items
  | .object properties => Scalar.partsProperties properties
  | .conditional test ifTrue ifFalse => test.parts ++ (ifTrue.parts ++ ifFalse.parts)
  | .isIn item items _ => item.parts ++ Scalar.partsAll items
  | .parameter name => [.parameter name]
  | .exists query | .arrayOf query | .subquery query => query.parts

def Scalar.partsAll : List Scalar → List Part
  | [] => []
  | s :: ss => s.parts ++ Scalar.partsAll ss

def Scalar.partsProperties : List (String × Scalar) → List Part
  | [] => []
  | (_, s) :: ps => s.parts ++ Scalar.partsProperties ps

def Projection.parts : Projection → List Part
  | .star => []
  | .value value => value.parts

def Selection.parts : Selection → List Part
  | ⟨projection, _, _⟩ => projection.parts

def Source.parts : Source → List Part
  | .container _ => []
  | .items _ path => path.parts
  | .subquery _ query => query.parts

def Source.partsAll : List Source → List Part
  | [] => []
  | s :: ss => s.parts ++ Source.partsAll ss

def SortKey.parts : SortKey → List Part
  | ⟨value, _⟩ => value.parts

def SortKey.partsAll : List SortKey → List Part
  | [] => []
  | k :: ks => k.parts ++ SortKey.partsAll ks

def Scalar.partsOption : Option Scalar → List Part
  | none => []
  | some s => s.parts

/-- The bounds of a query, and the parts of its clauses. -/
def Query.parts : Query → List Part
  | ⟨selection, sources, filter, groupBy, orderBy, offset, limit⟩ =>
    .window ⟨selection.top, offset, limit⟩ :: (Source.partsAll sources ++ (selection.parts ++
      (Scalar.partsOption filter ++ (Scalar.partsAll groupBy ++ SortKey.partsAll orderBy))))

end

/-- The bounds of a query and of all queries nested in it. -/
def Query.windows (q : Query) : List Window :=
  q.parts.filterMap fun
    | .window w => some w
    | .parameter _ => none

theorem Query.mem_windows {q : Query} {w : Window} : w ∈ q.windows ↔ .window w ∈ q.parts := by
  rw [windows, List.mem_filterMap]
  constructor
  · rintro ⟨_ | w', hp, hw⟩
    · cases hw
    · cases hw
      exact hp
  · exact fun h => ⟨_, h, rfl⟩

/-- The parameters that a part refers to. -/
def Part.parameters : Part → List String
  | .parameter name => [name]
  | .window w => w.counts.filterMap Count.parameter?

/-- The parameters that a query refers to, in scalars or as numbers of rows, at any depth. -/
def Query.parameters (q : Query) : List String := q.parts.flatMap Part.parameters

theorem Scalar.partsAll_eq (ss : List Scalar) : Scalar.partsAll ss = ss.flatMap Scalar.parts := by
  induction ss with
  | nil => rfl
  | cons s ss ih => exact congrArg (s.parts ++ ·) ih

theorem Scalar.partsProperties_eq (ps : List (String × Scalar)) :
    Scalar.partsProperties ps = ps.flatMap (·.2.parts) := by
  induction ps with
  | nil => rfl
  | cons p ps ih => exact congrArg (p.2.parts ++ ·) ih

theorem SortKey.partsAll_eq (ks : List SortKey) :
    SortKey.partsAll ks = ks.flatMap (·.value.parts) := by
  induction ks with
  | nil => rfl
  | cons k ks ih =>
    obtain ⟨value, descending⟩ := k
    exact congrArg (value.parts ++ ·) ih

theorem Source.partsAll_eq (ss : List Source) : Source.partsAll ss = ss.flatMap Source.parts := by
  induction ss with
  | nil => rfl
  | cons s ss ih => exact congrArg (s.parts ++ ·) ih

theorem Scalar.mem_partsAll {p : Part} {ss : List Scalar} :
    p ∈ Scalar.partsAll ss ↔ ∃ s ∈ ss, p ∈ s.parts := by
  rw [partsAll_eq, List.mem_flatMap]

theorem Scalar.mem_partsProperties {p : Part} {ps : List (String × Scalar)} :
    p ∈ Scalar.partsProperties ps ↔ ∃ q ∈ ps, p ∈ q.2.parts := by
  rw [partsProperties_eq, List.mem_flatMap]

theorem SortKey.mem_partsAll {p : Part} {ks : List SortKey} :
    p ∈ SortKey.partsAll ks ↔ ∃ k ∈ ks, p ∈ k.value.parts := by
  rw [partsAll_eq, List.mem_flatMap]

theorem Source.mem_partsAll {p : Part} {ss : List Source} :
    p ∈ Source.partsAll ss ↔ ∃ s ∈ ss, p ∈ s.parts := by
  rw [partsAll_eq, List.mem_flatMap]

theorem Scalar.mem_partsOption {p : Part} {s : Option Scalar} :
    p ∈ Scalar.partsOption s ↔ ∃ t ∈ s, p ∈ t.parts := by
  cases s with
  | none => exact iff_of_false List.not_mem_nil nofun
  | some s =>
    refine ⟨fun h => ⟨s, rfl, h⟩, ?_⟩
    rintro ⟨_, ⟨⟩, h⟩
    exact h

theorem Selection.mem_parts {p : Part} {s : Selection} :
    p ∈ s.parts ↔ ∃ v ∈ s.value?, p ∈ v.parts := by
  obtain ⟨projection, distinct, top⟩ := s
  cases projection with
  | star => exact iff_of_false List.not_mem_nil nofun
  | value v =>
    refine ⟨fun h => ⟨v, rfl, h⟩, ?_⟩
    rintro ⟨_, ⟨⟩, h⟩
    exact h

/-- The bounds of a query. -/
def Query.bounds (q : Query) : Window := ⟨q.selection.top, q.offset, q.limit⟩

theorem Query.mem_parts {p : Part} {q : Query} : p ∈ q.parts ↔ p = .window q.bounds ∨
    (∃ s ∈ q.sources, p ∈ s.parts) ∨ (∃ v ∈ q.selection.value?, p ∈ v.parts) ∨
      (∃ f ∈ q.filter, p ∈ f.parts) ∨ (∃ k ∈ q.groupBy, p ∈ k.parts) ∨
        ∃ k ∈ q.orderBy, p ∈ k.value.parts := by
  obtain ⟨selection, sources, filter, groupBy, orderBy, offset, limit⟩ := q
  refine List.mem_cons.trans (or_congr_right ?_)
  simp only [List.mem_append, Source.mem_partsAll, Selection.mem_parts, Scalar.mem_partsOption,
    Scalar.mem_partsAll, SortKey.mem_partsAll]

/-! ## Substitution -/

section

variable {σ : Substitution}

/-- What two lists gain of a third one, the lists together gain of it. -/
theorem List.append_subset_append {α : Type} {as as' bs bs' cs : List α} (ha : as ⊆ as' ++ cs)
    (hb : bs ⊆ bs' ++ cs) : as ++ bs ⊆ as' ++ bs' ++ cs := by
  intro x hx
  have := List.mem_append.mp hx
  grind

mutual

theorem Scalar.parts_substitute : ∀ s : Scalar,
    (s.substitute σ).parts ⊆ s.parts ++ σ.replacement.parts
  | .literal _ => List.nil_subset _
  | .ref name => by
    rw [Scalar.substitute]
    split
    · exact List.subset_append_right _ _
    · exact List.nil_subset _
  | .index object key => List.append_subset_append object.parts_substitute key.parts_substitute
  | .binary _ left right => List.append_subset_append left.parts_substitute right.parts_substitute
  | .unary _ operand => operand.parts_substitute
  | .call _ args _ => Scalar.partsAll_substitute args
  | .array items => Scalar.partsAll_substitute items
  | .object properties => Scalar.partsProperties_substitute properties
  | .conditional test ifTrue ifFalse => List.append_subset_append test.parts_substitute
    (List.append_subset_append ifTrue.parts_substitute ifFalse.parts_substitute)
  | .isIn item items _ =>
    List.append_subset_append item.parts_substitute (Scalar.partsAll_substitute items)
  | .parameter _ => List.subset_append_left _ _
  | .exists query | .arrayOf query | .subquery query => query.parts_substitute

theorem Scalar.partsAll_substitute : ∀ ss : List Scalar,
    Scalar.partsAll (Scalar.substituteAll σ ss) ⊆ Scalar.partsAll ss ++ σ.replacement.parts
  | [] => List.nil_subset _
  | s :: ss => List.append_subset_append s.parts_substitute (Scalar.partsAll_substitute ss)

theorem Scalar.partsProperties_substitute : ∀ ps : List (String × Scalar),
    Scalar.partsProperties (Scalar.substituteProperties σ ps) ⊆
      Scalar.partsProperties ps ++ σ.replacement.parts
  | [] => List.nil_subset _
  | (_, s) :: ps =>
    List.append_subset_append s.parts_substitute (Scalar.partsProperties_substitute ps)

theorem Projection.parts_substitute : ∀ p : Projection,
    (p.substitute σ).parts ⊆ p.parts ++ σ.replacement.parts
  | .star => List.nil_subset _
  | .value value => value.parts_substitute

theorem Selection.parts_substitute : ∀ s : Selection,
    (s.substitute σ).parts ⊆ s.parts ++ σ.replacement.parts
  | ⟨projection, _, _⟩ => projection.parts_substitute

theorem Source.parts_substitute : ∀ s : Source,
    (s.substitute σ).parts ⊆ s.parts ++ σ.replacement.parts
  | .container _ => List.nil_subset _
  | .items _ path => path.parts_substitute
  | .subquery _ query => query.parts_substitute

theorem Source.partsAll_substitute : ∀ ss : List Source,
    Source.partsAll (Source.substituteAll σ ss) ⊆ Source.partsAll ss ++ σ.replacement.parts
  | [] => List.nil_subset _
  | s :: ss => List.append_subset_append s.parts_substitute (Source.partsAll_substitute ss)

theorem SortKey.partsAll_substitute : ∀ ks : List SortKey,
    SortKey.partsAll (SortKey.substituteAll σ ks) ⊆ SortKey.partsAll ks ++ σ.replacement.parts
  | [] => List.nil_subset _
  | ⟨value, _⟩ :: ks =>
    List.append_subset_append value.parts_substitute (SortKey.partsAll_substitute ks)

theorem Scalar.partsOption_substitute : ∀ s : Option Scalar,
    Scalar.partsOption (Scalar.substituteOption σ s) ⊆
      Scalar.partsOption s ++ σ.replacement.parts
  | none => List.nil_subset _
  | some s => s.parts_substitute

theorem Query.parts_substitute : ∀ q : Query,
    (q.substitute σ).parts ⊆ q.parts ++ σ.replacement.parts
  | ⟨⟨_, _, _⟩, sources, filter, groupBy, orderBy, _, _⟩ =>
    List.append_subset_append (List.subset_append_left [_] _)
      (List.append_subset_append (Source.partsAll_substitute sources)
        (List.append_subset_append (Selection.parts_substitute _)
          (List.append_subset_append (Scalar.partsOption_substitute filter)
            (List.append_subset_append (Scalar.partsAll_substitute groupBy)
              (SortKey.partsAll_substitute orderBy)))))

end

end

/-! ## Layers -/

namespace Layer

variable {l b m : Layer} {ls : List Layer} {P : Part → Prop} {W : Window → Prop}

def window (l : Layer) : Window := ⟨l.top, l.offset, l.limit⟩

/-- The parts of the clauses of a layer. -/
def parts (l : Layer) : List Part :=
  l.toSource.parts ++ Scalar.partsAll (l.clauses ++ l.groupBy)

theorem mem_parts {p : Part} : p ∈ l.parts ↔
    p ∈ l.toSource.parts ∨ (∃ s ∈ l.clauses, p ∈ s.parts) ∨ ∃ k ∈ l.groupBy, p ∈ k.parts := by
  simp only [parts, List.mem_append, Scalar.mem_partsAll, or_and_right, exists_or]

/-- All parts of the clauses of a layer satisfy `P`, clause by clause. -/
structure Made (P : Part → Prop) (l : Layer) : Prop where
  source : ∀ p ∈ l.toSource.parts, P p
  joins : ∀ j ∈ l.joins, ∀ p ∈ j.2.parts, P p
  selection : ∀ v ∈ l.selection.bind (·.value?), ∀ p ∈ v.parts, P p
  filter : ∀ f ∈ l.filter, ∀ p ∈ f.parts, P p
  groupBy : ∀ k ∈ l.groupBy, ∀ p ∈ k.parts, P p
  orderBy : ∀ k ∈ l.orderBy, ∀ p ∈ k.value.parts, P p

theorem Made.parts (h : l.Made P) : ∀ p ∈ l.parts, P p := by
  intro p hp
  rcases mem_parts.mp hp with hp | ⟨s, hs, hp⟩ | ⟨k, hk, hp⟩
  · exact h.source p hp
  · rcases mem_clauses.mp hs with ⟨j, hj, rfl⟩ | hs | hs | ⟨k, hk, rfl⟩
    · exact h.joins j hj p hp
    · exact h.selection s hs p hp
    · exact h.filter s hs p hp
    · exact h.orderBy k hk p hp
  · exact h.groupBy k hk p hp

theorem parts_clauses {s : Scalar} (h : s ∈ l.clauses) : s.parts ⊆ l.parts := fun _ hp =>
  mem_parts.mpr (.inr (.inl ⟨s, h, hp⟩))

theorem parts_row (l : Layer) : l.row.parts ⊆ l.parts := by
  unfold row
  split
  · rename_i v hv
    exact parts_clauses (mem_clauses.mpr (.inr (.inl hv)))
  · exact List.nil_subset _

theorem Made.row (h : l.Made P) : ∀ p ∈ l.row.parts, P p := fun p hp => h.parts p (l.parts_row hp)

theorem made_ofSource {name : String} {source : LayerSource}
    (h : ∀ p ∈ (ofSource name source).toSource.parts, P p) : (ofSource name source).Made P :=
  ⟨h, nofun, nofun, nofun, nofun, nofun⟩

/-- The query of a layer has its parts, and its bounds. -/
theorem parts_toQuery (l : Layer) : l.toQuery.parts ⊆ .window l.window :: l.parts := by
  intro p hp
  have hclause : ∀ {s : Scalar}, s ∈ l.clauses → p ∈ s.parts → p ∈ .window l.window :: l.parts :=
    fun hs hp => List.mem_cons_of_mem _ (parts_clauses hs hp)
  rcases Query.mem_parts.mp hp with rfl | ⟨s, hs, hp⟩ | ⟨v, hv, hp⟩ | ⟨f, hf, hp⟩ | hk | ⟨k, hk, hp⟩
  · exact List.mem_cons_self
  · rcases List.mem_cons.mp hs with rfl | hs
    · exact List.mem_cons_of_mem _ (mem_parts.mpr (.inl hp))
    · obtain ⟨j, hj, rfl⟩ := List.mem_map.mp hs
      exact hclause (mem_clauses.mpr (.inl ⟨j, hj, rfl⟩)) hp
  · cases hs : l.selection with
    | some selection =>
      refine hclause (mem_clauses.mpr (.inr (.inl ?_))) hp
      rw [hs]
      simpa [toQuery, hs, Selection.value?] using hv
    | none =>
      have hv : l.row = v := by simpa [toQuery, hs, Selection.value?, Selection.ofValue] using hv
      exact List.mem_cons_of_mem _ (l.parts_row (hv ▸ hp))
  · exact hclause (mem_clauses.mpr (.inr (.inr (.inl hf)))) hp
  · exact List.mem_cons_of_mem _ (mem_parts.mpr (.inr (.inr hk)))
  · exact hclause (mem_clauses.mpr (.inr (.inr (.inr ⟨k, hk, rfl⟩)))) hp

/-! ### Merged layers -/

/-- A clause of the upper layer, with the rows of the lower one in it. -/
theorem parts_onto {s : Scalar} (h : s ∈ l.clauses) :
    (s.substitute (l.onto b)).parts ⊆ l.parts ++ b.parts := fun _ hp =>
  (List.mem_append.mp (s.parts_substitute hp)).elim
    (fun hp => List.mem_append_left _ (parts_clauses h hp))
    fun hp => List.mem_append_right _ (b.parts_row hp)

theorem parts_mergedSelection {v : Scalar}
    (h : (l.mergedSelection b).bind (·.value?) = some v) : v.parts ⊆ l.parts ++ b.parts := by
  unfold mergedSelection at h
  cases ho : l.outerSelection with
  | none =>
    have hb : b.selection.bind (·.value?) = some v := by
      cases hb : b.selection <;> simp_all
    exact fun _ hp => List.mem_append_right _
      (parts_clauses (mem_clauses.mpr (.inr (.inl hb))) hp)
  | some outer =>
    obtain ⟨projection, distinct, top⟩ := outer
    have hv : (projection.substitute (l.onto b)) = .value v := by
      cases hb : b.selection <;> cases projection <;>
        simp_all [Selection.substitute, Projection.substitute, Selection.value?]
    cases projection with
    | star => cases hv
    | value u =>
      obtain rfl := Projection.value.inj hv
      unfold outerSelection at ho
      split at ho
      · obtain rfl := Projection.value.inj (congrArg (·.projection) (Option.some.inj ho))
        exact fun p hp => List.mem_append_right _
          (b.parts_row (List.mem_append.mp (Scalar.parts_substitute _ hp) |>.resolve_left
            List.not_mem_nil))
      · exact parts_onto (mem_clauses.mpr (.inr (.inl (by rw [ho]; rfl))))

theorem parts_mergedFilter {f : Scalar} (h : l.mergedFilter b = some f) :
    f.parts ⊆ l.parts ++ b.parts := by
  have hin : ∀ {g}, b.filter = some g → g.parts ⊆ l.parts ++ b.parts := fun hg _ hp =>
    List.mem_append_right _ (parts_clauses (mem_clauses.mpr (.inr (.inr (.inl hg)))) hp)
  have hout : ∀ {g}, l.filter = some g →
      (g.substitute (l.onto b)).parts ⊆ l.parts ++ b.parts := fun hg =>
    parts_onto (mem_clauses.mpr (.inr (.inr (.inl hg))))
  unfold mergedFilter at h
  cases hb : b.filter with
  | none =>
    cases hl : l.filter with
    | none => simp [hb, hl] at h
    | some g =>
      rw [hb, hl] at h
      obtain rfl := Option.some.inj h
      exact hout hl
  | some g =>
    cases hl : l.filter with
    | none =>
      rw [hb, hl] at h
      obtain rfl := Option.some.inj h
      exact hin hb
    | some g' =>
      rw [hb, hl] at h
      obtain rfl := Option.some.inj h
      exact List.append_subset.mpr ⟨hin hb, hout hl⟩

theorem parts_mergedOrderBy {ks : List SortKey} (h : l.mergedOrderBy b = .ok ks) :
    ∀ k ∈ ks, k.value.parts ⊆ l.parts ++ b.parts := by
  intro k hk
  unfold mergedOrderBy at h
  split at h
  · cases h
  · obtain rfl := Except.ok.inj h
    obtain ⟨⟨value, descending⟩, hmem, rfl⟩ := List.mem_map.mp hk
    exact parts_onto (mem_clauses.mpr (.inr (.inr (.inr ⟨_, hmem, rfl⟩))))
  · obtain rfl := Except.ok.inj h
    exact fun _ hp => List.mem_append_right _
      (parts_clauses (mem_clauses.mpr (.inr (.inr (.inr ⟨k, hk, rfl⟩)))) hp)

/-- Merging brings in no parts but bounds. -/
theorem parts_merge (h : l.merge b = .ok m) : m.parts ⊆ l.parts ++ b.parts := by
  obtain ⟨ks, top, offset, limit, hks, -, -, -, rfl⟩ := merge_eq_ok.mp h
  intro p hp
  rcases mem_parts.mp hp with hp | ⟨s, hs, hp⟩ | hk
  · exact List.mem_append_right _ (mem_parts.mpr (.inl hp))
  · rcases mem_clauses.mp hs with ⟨j, hj, rfl⟩ | hs | hs | ⟨k, hk, rfl⟩
    · rcases List.mem_append.mp hj with hj | hj
      · exact List.mem_append_right _ (parts_clauses (mem_clauses.mpr (.inl ⟨j, hj, rfl⟩)) hp)
      · obtain ⟨⟨name, path⟩, hmem, rfl⟩ := List.mem_map.mp hj
        exact parts_onto (mem_clauses.mpr (.inl ⟨_, hmem, rfl⟩)) hp
    · exact parts_mergedSelection hs hp
    · exact parts_mergedFilter hs hp
    · exact parts_mergedOrderBy hks k hk hp
  · exact List.mem_append_right _ (mem_parts.mpr (.inr (.inr hk)))

/-! ### Flattened layers -/

/-- Bounds that are combined of such ones are such ones. -/
def Combines (W : Window → Prop) : Prop :=
  ∀ {v w : Window} {top offset limit : Option Count}, W v → W w →
    Count.min? v.top w.top = .ok top → Count.sum? v.offset w.offset = .ok offset →
      Count.min? v.limit w.limit = .ok limit → W ⟨top, offset, limit⟩

variable (hW : Combines W) (hP : ∀ w, W w → P (.window w))

include hW hP

theorem made_flattenOnto (hl : ∀ p ∈ l.parts, P p) (hwl : W l.window) (hb : ∀ p ∈ b.parts, P p)
    (hwb : W b.window) (h : l.flattenOnto b = .ok m) : (∀ p ∈ m.parts, P p) ∧ W m.window := by
  obtain ⟨-, h⟩ := flattenOnto_eq_ok.mp h
  split at h
  · subst h
    refine ⟨fun p hp => ?_, hwl⟩
    rcases mem_parts.mp hp with hp | hp
    · exact (List.mem_cons.mp (b.parts_toQuery hp)).elim (fun he => he ▸ hP _ hwb) (hb p)
    · exact hl p (mem_parts.mpr (.inr hp))
  · refine ⟨fun p hp => (List.mem_append.mp (parts_merge h hp)).elim (hl p) (hb p), ?_⟩
    obtain ⟨ks, top, offset, limit, -, htop, hoffset, hlimit, rfl⟩ := merge_eq_ok.mp h
    exact hW hwb hwl htop hoffset hlimit

theorem made_flattenAll (h : ∀ k ∈ l :: ls, (∀ p ∈ k.parts, P p) ∧ W k.window)
    (hm : l.flattenAll ls = .ok m) : (∀ p ∈ m.parts, P p) ∧ W m.window := by
  induction ls generalizing l m with
  | nil =>
    cases hm
    exact h _ List.mem_cons_self
  | cons next rest ih =>
    obtain ⟨b, hb, hm⟩ := bind_eq_ok.mp hm
    obtain ⟨hparts, hwindow⟩ := ih (fun k hk => h k (List.mem_cons_of_mem _ hk)) hb
    obtain ⟨hl, hwl⟩ := h l List.mem_cons_self
    exact made_flattenOnto hW hP hl hwl hparts hwindow hm

end Layer

/-- What holds of the parts and bounds of all layers holds of those of the query. -/
theorem Stage.made_toQuery {st : Stage} {P : Part → Prop} {W : Window → Prop} {q : Query}
    (hW : Layer.Combines W) (hP : ∀ w, W w → P (.window w))
    (h : ∀ l ∈ st.layers, (∀ p ∈ l.parts, P p) ∧ W l.window) (hq : st.toQuery = .ok q) :
    ∀ p ∈ q.parts, P p := by
  obtain ⟨m, hm, hq⟩ := bind_eq_ok.mp hq
  obtain rfl := Except.ok.inj hq
  obtain ⟨hparts, hwindow⟩ := Layer.made_flattenAll hW hP h hm
  exact fun p hp => (List.mem_cons.mp (m.parts_toQuery hp)).elim (fun he => he ▸ hP _ hwindow)
    (hparts p)

end LambdaQuery
