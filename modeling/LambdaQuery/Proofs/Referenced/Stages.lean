import LambdaQuery.Proofs.Referenced.Computations
import LambdaQuery.Proofs.Referenced.Reading

/-!
# Stages that lose nothing

A change of a layer that keeps what is in its clauses (`Layer.Keeps`) loses no parameters.
`Stage.Retains` is the invariant of a chain of operators that replace nothing: the stage is
lossless, no layer has something to lose before the chain projects, and no order is set before the
chain orders. One lemma for each change that operators make.
-/

set_option autoImplicit false

namespace LambdaQuery

/-! ## Layers -/

namespace Layer

variable {l l' : Layer} {ls : List Layer} {name : String}

theorem mem_parameters_iff : name ∈ l.parameters ↔ name ∈ (Part.window l.window).parameters ∨
    (∃ p ∈ l.toSource.parts, name ∈ p.parameters) ∨ (∃ s ∈ l.clauses, s.Mentions name) ∨
      ∃ k ∈ l.groupBy, k.Mentions name := by
  rw [mem_parameters]
  refine or_congr_right ⟨?_, ?_⟩
  · rintro ⟨p, hp, hname⟩
    exact (mem_parts.mp hp).imp (⟨p, ·, hname⟩) (Or.imp (fun ⟨s, hs, hp⟩ => ⟨s, hs, p, hp, hname⟩)
      fun ⟨k, hk, hp⟩ => ⟨k, hk, p, hp, hname⟩)
  · rintro (⟨p, hp, hname⟩ | ⟨s, hs, p, hp, hname⟩ | ⟨k, hk, p, hp, hname⟩)
    · exact ⟨p, mem_parts.mpr (.inl hp), hname⟩
    · exact ⟨p, mem_parts.mpr (.inr (.inl ⟨s, hs, hp⟩)), hname⟩
    · exact ⟨p, mem_parts.mpr (.inr (.inr ⟨k, hk, hp⟩)), hname⟩

theorem mentions_clause {s : Scalar} (hs : s ∈ l.clauses) (h : s.Mentions name) :
    name ∈ l.parameters := mem_parameters_iff.mpr (.inr (.inr (.inl ⟨s, hs, h⟩)))

/-- All that is in the clauses of `l` is in those of `l'`. -/
structure Keeps (l l' : Layer) : Prop where
  name : l'.name = l.name
  source : l'.source = l.source
  joins : l.joins ⊆ l'.joins
  selection : ∀ v, l.selection.bind (·.value?) = some v →
    ∃ v', l'.selection.bind (·.value?) = some v' ∧ v.Within v'
  filter : ∀ f, l.filter = some f → ∃ f', l'.filter = some f' ∧ f.Within f'
  orderBy : l.orderBy ⊆ l'.orderBy
  groupBy : l.groupBy ⊆ l'.groupBy
  bounds : (Part.window l.window).parameters ⊆ (Part.window l'.window).parameters

theorem Keeps.refl (l : Layer) : l.Keeps l :=
  ⟨rfl, rfl, List.Subset.refl _, fun v h => ⟨v, h, .refl v⟩, fun f h => ⟨f, h, .refl f⟩,
    List.Subset.refl _, List.Subset.refl _, List.Subset.refl _⟩

theorem Keeps.clauses (h : l.Keeps l') {s : Scalar} (hs : s ∈ l.clauses) :
    ∃ s' ∈ l'.clauses, s.Within s' := by
  rcases mem_clauses.mp hs with ⟨j, hj, rfl⟩ | hv | hf | ⟨k, hk, rfl⟩
  · exact ⟨_, mem_clauses.mpr (.inl ⟨j, h.joins hj, rfl⟩), .refl _⟩
  · obtain ⟨v, hv, hwithin⟩ := h.selection _ hv
    exact ⟨v, mem_clauses.mpr (.inr (.inl hv)), hwithin⟩
  · obtain ⟨f, hf, hwithin⟩ := h.filter _ hf
    exact ⟨f, mem_clauses.mpr (.inr (.inr (.inl hf))), hwithin⟩
  · exact ⟨_, mem_clauses.mpr (.inr (.inr (.inr ⟨k, h.orderBy hk, rfl⟩))), .refl _⟩

theorem Keeps.parameters (h : l.Keeps l') : l.parameters ⊆ l'.parameters := by
  intro name hname
  rcases mem_parameters_iff.mp hname with hw | hsource | ⟨s, hs, hname⟩ | ⟨k, hk, hname⟩
  · exact mem_parameters_iff.mpr (.inl (h.bounds hw))
  · refine mem_parameters_iff.mpr (.inr (.inl ?_))
    unfold toSource at hsource ⊢
    rwa [h.source, h.name]
  · obtain ⟨s', hs', hwithin⟩ := h.clauses hs
    exact mentions_clause hs' (hwithin.mentions hname)
  · exact mem_parameters_iff.mpr (.inr (.inr (.inr ⟨k, h.groupBy hk, hname⟩)))

theorem Keeps.usesBelow (h : l.Keeps l') (hl : l.UsesBelow) : l'.UsesBelow := by
  obtain ⟨s, hs, hwithin⟩ := hl
  obtain ⟨s', hs', hwithin'⟩ := h.clauses hs
  exact ⟨s', hs', h.name ▸ hwithin.trans hwithin'⟩

theorem Keeps.hasGroupBy (h : l.Keeps l') (hl : l.hasGroupBy = true) : l'.hasGroupBy = true := by
  unfold Layer.hasGroupBy at hl ⊢
  rw [Bool.not_eq_true', List.isEmpty_eq_false_iff] at hl ⊢
  exact fun hnil => hl (List.subset_nil.mp (hnil ▸ h.groupBy))

/-- A change that keeps what is in the clauses. Where nothing was selected, there must be something
that uses the rows below, or nothing to lose there. -/
theorem Lossless.edit (h : Lossless l ls) (hk : l.Keeps l')
    (houter : l.outerSelection = none → l'.Passes ∨ ∀ k ∈ ls, k.Free) : Lossless l' ls := by
  cases h with
  | bottom => exact .bottom l'
  | above hsource hpasses hbelow =>
    refine .above (hk.source.trans hsource) ?_ hbelow
    rcases hpasses with (hnone | hgroup | huses) | hfree
    · exact houter hnone
    · exact .inl (.inr (.inl (hk.hasGroupBy hgroup)))
    · exact .inl (.inr (.inr (hk.usesBelow huses)))
    · exact .inr hfree

theorem selection_of_outerSelection (h : l.outerSelection = none) : l.selection = none := by
  unfold outerSelection at h
  split at h
  · cases h
  · exact h

/-- The row of a layer that selects nothing is that of the layer below. -/
theorem row_of_outerSelection (h : l.outerSelection = none) : l.row = .ref l.name := by
  unfold outerSelection at h
  unfold row lastName
  split at h
  · cases h
  · rename_i hjoins
    rw [h]
    cases hj : l.joins.getLast? with
    | none => rfl
    | some join => exact (hjoins join.1 join.2 h hj).elim

end Layer

/-! ## Stages -/

namespace Stage

variable {st u : Stage} {f : Layer → Layer} {p o : Bool} {name : String} {v : Scalar}

theorem mem_parameters : name ∈ st.parameters ↔
    name ∈ st.layer.parameters ∨ ∃ k ∈ st.below, name ∈ k.parameters := by
  simp [parameters, layers]

theorem mentions_overItems {item : String} {path : Scalar} (h : path.Mentions name) :
    name ∈ (overItems item path).parameters :=
  mem_parameters.mpr (.inl (Layer.mem_parameters_iff.mpr (.inr (.inl h))))

theorem parameters_subset (hbelow : u.below = st.below) (hk : st.layer.Keeps u.layer) :
    st.parameters ⊆ u.parameters := by
  intro name hname
  rw [mem_parameters, hbelow]
  exact (mem_parameters.mp hname).imp_left fun hname => hk.parameters hname

/-- What is kept of a stage, and what is new in it. -/
theorem keep {B C : Prop} (hbelow : u.below = st.below) (hk : st.layer.Keeps u.layer)
    (hnew : C → name ∈ u.parameters) (h : (B ∨ name ∈ st.parameters) ∨ C) :
    B ∨ name ∈ u.parameters :=
  (or_assoc.mp h).imp_right fun h => h.elim (fun hname => parameters_subset hbelow hk hname) hnew

/-- The stage of a chain of operators that replace nothing; `p` and `o` tell whether the chain has
projected and ordered the rows. -/
structure Retains (p o : Bool) (st : Stage) : Prop where
  lossless : st.Lossless
  free : p = false → st.layer.hasGroupBy = false → ∀ k ∈ st.layers, k.Free
  unordered : o = false → st.layer.orderBy = []

namespace Retains

theorem ofSource (n : String) (source : LayerSource) :
    (⟨.ofSource n source, []⟩ : Stage).Retains p o :=
  ⟨.bottom _, fun _ _ => List.forall_mem_singleton.mpr nofun, fun _ => rfl⟩

theorem package (h : st.Retains p o) (hg : st.layer.hasGroupBy = false) (n : String) :
    (st.package n).Retains p o where
  lossless := .above rfl (.inl (.inl rfl)) h.lossless
  free hp _ := List.forall_mem_cons.mpr ⟨nofun, h.free hp hg⟩
  unordered _ := rfl

/-- Once the chain has projected there is no promise of what the layers select. -/
theorem projected (h : st.Retains p o) : st.Retains true o := ⟨h.lossless, nofun, h.unordered⟩

/-- A change that sets no selection. -/
theorem edit (h : st.Retains p o) (hk : st.layer.Keeps (f st.layer))
    (hs : (f st.layer).selection = st.layer.selection) (hj : (f st.layer).joins = st.layer.joins)
    (hg : (f st.layer).groupBy = st.layer.groupBy)
    (ho : o = false → st.layer.orderBy = [] → (f st.layer).orderBy = []) :
    (st.mapLayer f).Retains p o where
  lossless := h.lossless.edit hk fun hnone => .inl (.inl (by
    have hlayer : (st.mapLayer f).layer = f st.layer := rfl
    unfold Layer.outerSelection at hnone ⊢
    rw [hlayer, hs, hj]
    exact hnone))
  free hp hgroup := by
    have hfree := h.free hp (by
      unfold Layer.hasGroupBy at hgroup ⊢
      rwa [← hg])
    refine List.forall_mem_cons.mpr ⟨?_, (List.forall_mem_cons.mp hfree).2⟩
    have hl := (List.forall_mem_cons.mp hfree).1
    unfold Layer.Free at hl ⊢
    rwa [show (st.mapLayer f).layer.selection = st.layer.selection from hs]
  unordered hf := ho hf (h.unordered hf)

end Retains

/-! ### Clauses that are no selection -/

theorem filter_addWhere (st : Stage) (v : Scalar) :
    (st.addWhere v).layer.filter = some (st.layer.filter.elim v (.and · v)) := by
  simp only [addWhere, mapLayer]
  cases st.layer.filter <;> rfl

theorem keeps_addWhere (st : Stage) (v : Scalar) : st.layer.Keeps (st.addWhere v).layer :=
  { Layer.Keeps.refl st.layer with
    filter := fun f hf => by
      refine ⟨.and f v, ?_, .binary _ (.inl (.refl f))⟩
      rw [filter_addWhere, hf]
      rfl }

/-- The filter is part of the one that the stage has afterwards. -/
theorem within_addWhere (st : Stage) (v : Scalar) :
    ∃ f, (st.addWhere v).layer.filter = some f ∧ v.Within f := by
  rw [filter_addWhere]
  cases st.layer.filter with
  | none => exact ⟨v, rfl, .refl v⟩
  | some existing => exact ⟨_, rfl, .binary _ (.inr (.refl v))⟩

theorem mentions_addWhere (h : v.Mentions name) : name ∈ (st.addWhere v).parameters := by
  obtain ⟨f, hf, hwithin⟩ := within_addWhere st v
  exact mem_parameters.mpr (.inl (Layer.mentions_clause (Layer.mem_clauses.mpr
    (.inr (.inr (.inl hf)))) (hwithin.mentions h)))

theorem Retains.addWhere (h : st.Retains p o) : (st.addWhere v).Retains p o :=
  h.edit (keeps_addWhere st v) rfl rfl rfl fun _ ho => ho

theorem keeps_addOrderBy {key : SortKey} (h : st.layer.orderBy = []) :
    st.layer.Keeps (st.addOrderBy key).layer :=
  { Layer.Keeps.refl st.layer with orderBy := h ▸ List.nil_subset _ }

theorem mentions_addOrderBy {key : SortKey} (h : key.value.Mentions name) :
    name ∈ (st.addOrderBy key).parameters :=
  mem_parameters.mpr (.inl (Layer.mentions_clause (Layer.mem_clauses.mpr
    (.inr (.inr (.inr ⟨key, List.mem_singleton_self key, rfl⟩)))) h))

theorem Retains.addOrderBy {key : SortKey} (h : st.Retains p false) :
    (st.addOrderBy key).Retains p true :=
  have h' : st.Retains p true := ⟨h.lossless, h.free, nofun⟩
  h'.edit (keeps_addOrderBy (h.unordered rfl)) rfl rfl rfl nofun

theorem keeps_thenBy {key : SortKey} (h : thenBy key st = (.ok (), u)) :
    st.layer.Keeps u.layer := by
  obtain ⟨-, rfl⟩ := thenBy_eq_ok.mp h
  exact { Layer.Keeps.refl st.layer with orderBy := List.subset_append_left _ _ }

theorem mentions_thenBy {key : SortKey} (h : thenBy key st = (.ok (), u))
    (hv : key.value.Mentions name) : name ∈ u.parameters := by
  obtain ⟨-, rfl⟩ := thenBy_eq_ok.mp h
  exact mem_parameters.mpr (.inl (Layer.mentions_clause (Layer.mem_clauses.mpr
    (.inr (.inr (.inr ⟨key, List.mem_append_right _ (List.mem_singleton_self key), rfl⟩)))) hv))

theorem Retains.thenBy {key : SortKey} (h : st.Retains p o) (hu : thenBy key st = (.ok (), u)) :
    u.Retains p o := by
  have hk := keeps_thenBy hu
  obtain ⟨hordered, rfl⟩ := thenBy_eq_ok.mp hu
  refine h.edit hk rfl rfl rfl fun _ ho => ?_
  rw [ho] at hordered
  cases hordered

/-! ### Bounds -/

/-- Only the bounds of the upper layer differ; no parameter in them is lost, and `c` is among them
if it is one. -/
structure Bounds (c : Count) (st u : Stage) : Prop where
  below : u.below = st.below
  layer : u.layer =
    { st.layer with top := u.layer.top, offset := u.layer.offset, limit := u.layer.limit }
  kept : ∀ name, name ∈ (Part.window st.layer.window).parameters ∨ c = .parameter name →
    name ∈ (Part.window u.layer.window).parameters

variable {c : Count}

theorem Bounds.keeps (h : Bounds c st u) : st.layer.Keeps u.layer := by
  have hkept : (Part.window st.layer.window).parameters ⊆ (Part.window u.layer.window).parameters :=
    fun name hname => h.kept name (.inl hname)
  rw [h.layer] at hkept ⊢
  exact { Layer.Keeps.refl st.layer with bounds := hkept }

theorem Bounds.retains (h : Bounds c st u) (hs : st.Retains p o) : u.Retains p o := by
  have hu : u = st.mapLayer fun _ => u.layer := by
    obtain ⟨l, ls⟩ := u
    exact congrArg (Stage.mk l) h.below
  rw [hu]
  refine hs.edit h.keeps ?_ ?_ ?_ fun _ ho => ?_
  all_goals rw [h.layer]
  exact ho

theorem Bounds.parameters (h : Bounds c st u) (hc : c = .parameter name) : name ∈ u.parameters :=
  mem_parameters.mpr (.inl (Layer.mem_parameters_iff.mpr (.inl (h.kept name (.inr hc)))))

theorem addLimit_bounds (h : addLimit c st = (.ok (), u)) : Bounds c st u := by
  obtain ⟨limit, hlimit, rfl⟩ := addLimit_eq_ok.mp h
  refine ⟨rfl, rfl, fun name hname => ?_⟩
  have hkept := (Count.min?_combines.parameter hlimit name).mpr
  simp only [Window.mem_parameters, Layer.window, mapLayer, Option.some.injEq] at hname hkept ⊢
  tauto

theorem addOffset_bounds (h : addOffset c st = (.ok (), u)) : Bounds c st u := by
  obtain ⟨offset, hoffset, rfl⟩ := addOffset_eq_ok.mp h
  refine ⟨rfl, rfl, fun name hname => ?_⟩
  have hkept := (Count.sum?_combines.parameter hoffset name).mpr
  simp only [Window.mem_parameters, Layer.window, mapLayer, Option.some.injEq] at hname hkept ⊢
  tauto

theorem addTop_bounds (h : addTop c st = (.ok (), u)) : Bounds c st u := by
  have h := addTop_eq_ok.mp h
  split at h
  · exact addLimit_bounds h
  · obtain ⟨top, htop, rfl⟩ := h
    refine ⟨rfl, rfl, fun name hname => ?_⟩
    have hkept := (Count.min?_combines.parameter htop name).mpr
    simp only [Window.mem_parameters, Layer.window, mapLayer, Option.some.injEq] at hname hkept ⊢
    tauto

/-! ### Selections -/

theorem keeps_setDistinct (st : Stage) : st.layer.Keeps st.setDistinct.layer :=
  { Layer.Keeps.refl st.layer with
    selection := fun v hv => by
      obtain ⟨selection, hselection, hv⟩ := Option.bind_eq_some_iff.mp hv
      refine ⟨v, ?_, .refl v⟩
      show ((some { st.layer.selection.getD (.ofValue st.layer.row) with distinct := true }).bind
        Selection.value?) = _
      rw [hselection]
      exact hv }

theorem Retains.setDistinct (h : st.Retains p o) : st.setDistinct.Retains p o where
  lossless := h.lossless.edit (keeps_setDistinct st) fun hnone => by
    refine .inl (.inr (.inr ⟨st.layer.row, Layer.mem_clauses.mpr (.inr (.inl ?_)), ?_⟩))
    · show ((some { st.layer.selection.getD (.ofValue st.layer.row) with distinct := true }).bind
        Selection.value?) = _
      rw [Layer.selection_of_outerSelection hnone]
      rfl
    · rw [Layer.row_of_outerSelection hnone]
      exact .refl _
  free hp hg := by
    have hfree := h.free hp hg
    refine List.forall_mem_cons.mpr ⟨?_, (List.forall_mem_cons.mp hfree).2⟩
    intro v hv
    change ((some { st.layer.selection.getD (.ofValue st.layer.row) with distinct := true }).bind
      Selection.value?) = _ at hv
    cases hs : st.layer.selection with
    | none =>
      rw [hs] at hv
      obtain rfl : st.layer.row = v := Option.some.inj hv
      unfold Layer.row
      rw [hs]
      rfl
    | some selection =>
      rw [hs] at hv
      exact (List.forall_mem_cons.mp hfree).1 v (by rw [hs]; exact hv)
  unordered := h.unordered

theorem keeps_addSelect (h : addSelect (.ofValue v) st = (.ok (), u)) :
    st.layer.Keeps u.layer := by
  obtain ⟨hnone, rfl⟩ := addSelect_eq_ok.mp h
  exact { Layer.Keeps.refl st.layer with
    selection := fun w hw => by
      rw [Option.isSome_eq_false_iff, Option.isNone_iff_eq_none] at hnone
      rw [hnone] at hw
      cases hw }

theorem mentions_addSelect (h : addSelect (.ofValue v) st = (.ok (), u)) (hv : v.Mentions name) :
    name ∈ u.parameters := by
  obtain ⟨-, rfl⟩ := addSelect_eq_ok.mp h
  exact mem_parameters.mpr (.inl (Layer.mentions_clause
    (Layer.mem_clauses.mpr (.inr (.inl rfl))) hv))

/-- A projection of rows that were not projected, or one with the rows in a clause. -/
theorem Retains.addSelect (h : st.Retains p o) (hg : st.layer.hasGroupBy = false)
    (hu : addSelect (.ofValue v) st = (.ok (), u))
    (hread : p = true → ∃ s ∈ u.layer.clauses, st.layer.row.Within s) : u.Retains true o := by
  have hk := keeps_addSelect hu
  obtain ⟨-, rfl⟩ := addSelect_eq_ok.mp hu
  refine ⟨h.lossless.edit hk fun hnone => ?_, nofun, h.unordered⟩
  cases p with
  | false => exact .inr (List.forall_mem_cons.mp (h.free rfl hg)).2
  | true =>
    obtain ⟨s, hs, hwithin⟩ := hread rfl
    exact .inl (.inr (.inr ⟨s, hs, Layer.row_of_outerSelection hnone ▸ hwithin⟩))

/-- Groups with their result; the rows below stay as they are. -/
theorem Retains.grouped {w : Stage} {key : Scalar} (h : st.Retains p o)
    (hu : Stage.addGroupBy key st = (.ok (), u))
    (hw : Stage.addSelect (.ofValue v) u = (.ok (), w)) :
    w.Retains p o ∧ ∀ name, name ∈ st.parameters ∨ key.Mentions name ∨ v.Mentions name →
      name ∈ w.parameters := by
  have hv : ∀ name, v.Mentions name → name ∈ w.parameters := fun _ => mentions_addSelect hw
  obtain ⟨hg, rfl⟩ := addGroupBy_eq_ok.mp hu
  obtain ⟨hnone, rfl⟩ := addSelect_eq_ok.mp hw
  replace hnone : st.layer.selection = none := by
    simpa [mapLayer] using hnone
  have hk : st.layer.Keeps
      { st.layer with groupBy := [key], selection := some (.ofValue v) } :=
    { Layer.Keeps.refl st.layer with
      selection := fun _ hw => by
        rw [hnone] at hw
        cases hw
      groupBy := by
        unfold Layer.hasGroupBy at hg
        rw [Bool.not_eq_false', List.isEmpty_iff] at hg
        show st.layer.groupBy ⊆ [key]
        rw [hg]
        exact List.nil_subset _ }
  refine ⟨⟨h.lossless.edit hk fun _ => .inl (.inr (.inl rfl)), by rintro _ ⟨⟩, h.unordered⟩, ?_⟩
  rintro name (hname | hname | hname)
  · exact mem_parameters.mpr ((mem_parameters.mp hname).imp_left fun hname => hk.parameters hname)
  · exact mem_parameters.mpr (.inl (Layer.mem_parameters_iff.mpr
      (.inr (.inr (.inr ⟨key, List.mem_singleton_self key, hname⟩)))))
  · exact hv name hname

/-! ### Iterated arrays -/

/-- The stage iterates an array of the rows; `q` tells whether it has projected the items. -/
structure Joined (q o : Bool) (st : Stage) : Prop where
  lossless : st.Lossless
  joins : st.layer.joins ≠ []
  unselected : q = false → st.layer.selection = none
  unordered : o = false → st.layer.orderBy = []

variable {q : Bool} {n : String} {path : Scalar}

theorem Joined.retains (h : st.Joined q o) : st.Retains true o := ⟨h.lossless, nofun, h.unordered⟩

theorem Joined.outerSelection (h : st.Joined q o) : st.layer.outerSelection ≠ none := by
  unfold Layer.outerSelection
  rw [List.getLast?_eq_some_getLast h.joins]
  cases st.layer.selection with
  | none => nofun
  | some => nofun

theorem keeps_addJoin (st : Stage) (n : String) (path : Scalar) :
    st.layer.Keeps (st.addJoin n path).layer :=
  { Layer.Keeps.refl st.layer with joins := List.subset_append_left _ _ }

theorem mentions_addJoin (h : path.Mentions name) : name ∈ (st.addJoin n path).parameters :=
  mem_parameters.mpr (.inl (Layer.mentions_clause (Layer.mem_clauses.mpr
    (.inl ⟨(n, path), List.mem_append_right _ (List.mem_singleton_self _), rfl⟩)) h))

/-- An array of rows that were not projected, or one that is read from the rows. -/
theorem Retains.joined (h : st.Retains p o) (hg : st.layer.hasGroupBy = false)
    (hs : st.layer.selection = none) (hread : p = true → st.layer.row.Within path) :
    (st.addJoin n path).Joined false o where
  lossless := h.lossless.edit (keeps_addJoin st n path) fun hnone => by
    cases p with
    | false => exact .inr (List.forall_mem_cons.mp (h.free rfl hg)).2
    | true =>
      exact .inl (.inr (.inr ⟨path, Layer.mem_clauses.mpr (.inl ⟨(n, path),
        List.mem_append_right _ (List.mem_singleton_self _), rfl⟩),
        Layer.row_of_outerSelection hnone ▸ hread rfl⟩))
  joins := List.append_ne_nil_of_right_ne_nil _ (List.cons_ne_nil _ _)
  unselected _ := hs
  unordered := h.unordered

theorem Joined.addWhere (h : st.Joined q o) : (st.addWhere v).Joined q o where
  lossless := h.lossless.edit (keeps_addWhere st v) fun hnone => absurd hnone h.outerSelection
  joins := h.joins
  unselected := h.unselected
  unordered := h.unordered

theorem value_replaceSelect (st : Stage) (v : Scalar) :
    (st.replaceSelect v).layer.selection.bind (·.value?) = some v := by
  simp only [replaceSelect, mapLayer]
  cases st.layer.selection <;> rfl

/-- The items are projected for the first time, or the projected item is read. -/
theorem Joined.keeps_replaceSelect (h : st.Joined q o)
    (hread : q = true → st.layer.row.Within v) :
    st.layer.Keeps (st.replaceSelect v).layer :=
  { Layer.Keeps.refl st.layer with
    selection := fun w hw => by
      refine ⟨v, value_replaceSelect st v, ?_⟩
      cases q with
      | false =>
        rw [h.unselected rfl] at hw
        cases hw
      | true =>
        have hrow : st.layer.row = w := by
          unfold Layer.row
          rw [hw]
        exact hrow ▸ hread rfl }

theorem mentions_replaceSelect (h : v.Mentions name) : name ∈ (st.replaceSelect v).parameters :=
  mem_parameters.mpr (.inl (Layer.mentions_clause
    (Layer.mem_clauses.mpr (.inr (.inl (value_replaceSelect st v)))) h))

theorem Joined.replaceSelect (h : st.Joined q o) (hread : q = true → st.layer.row.Within v) :
    (st.replaceSelect v).Joined true o where
  lossless := h.lossless.edit (h.keeps_replaceSelect hread)
    fun hnone => absurd hnone h.outerSelection
  joins := h.joins
  unselected := nofun
  unordered := h.unordered

end Stage

end LambdaQuery
