import LambdaQuery.Proofs.Meaning.Merging
import LambdaQuery.Proofs.Edits
import Mathlib

/-!
# Conditions of layers

The filter of a layer is a conjunction, which `Scalar.conjuncts` takes apart. Flattening puts the
row of the layer below in the place of a layer's name, so that a condition of a stage holds of the
rows of its lowest layer (`Stage.composed`). Where layers make one row of each row that they keep,
the flat layer has the conditions of all layers, from the lowest one upwards:
`Stage.flatten_conditions`.
-/

set_option autoImplicit false

namespace LambdaQuery

/-! ## Conjunctions -/

/-- The conditions that are joined by `AND` at the top of a scalar, from left to right. -/
def Scalar.conjuncts : Scalar → List Scalar
  | .binary .and left right => left.conjuncts ++ right.conjuncts
  | s => [s]

theorem Scalar.conjuncts_ne_nil (s : Scalar) : s.conjuncts ≠ [] := by
  induction s using Scalar.conjuncts.induct with
  | case1 left right ihl ihr => simp [conjuncts, ihl]
  | case2 s h => simp [conjuncts]

/-- The conditions of a filter, if there is one. -/
def Scalar.filterConjuncts (filter : Option Scalar) : List Scalar :=
  filter.toList.flatMap Scalar.conjuncts

theorem Scalar.filterConjuncts_eq_nil {filter : Option Scalar} :
    Scalar.filterConjuncts filter = [] ↔ filter = none := by
  cases filter with
  | none => simp [filterConjuncts]
  | some s => simp [filterConjuncts, s.conjuncts_ne_nil]

/-! ## Layers over others -/

namespace Layer

/-- The row of a layer over others in terms of the lowest one: the row of the layer below stands in
the place of the layer's name. -/
def rowOver (l : Layer) : List Layer → Scalar
  | [] => l.row
  | next :: rest => l.row.substitute ⟨l.name, next.rowOver rest⟩

/-- A scalar of a layer over others in terms of the lowest one. -/
def composedOver (l : Layer) (s : Scalar) : List Layer → Scalar
  | [] => s
  | next :: rest => s.substitute ⟨l.name, next.rowOver rest⟩

/-- The conditions of a layer and of those below, in terms of the lowest one, which comes first. -/
def conditionsOver (l : Layer) : List Layer → List Scalar
  | [] => Scalar.filterConjuncts l.filter
  | next :: rest =>
    next.conditionsOver rest ++
      Scalar.filterConjuncts (l.filter.map (l.composedOver · (next :: rest)))

/-- A layer that makes one row of each row that it keeps: it groups nothing, and what it selects is
a value, with its duplicates. -/
structure Direct (l : Layer) : Prop where
  ungrouped : l.groupBy = []
  selects : ∀ s, l.selection = some s → ∃ v, s = .ofValue v

namespace Direct

variable {l b m : Layer}

theorem valued (h : l.Direct) : l.Valued := fun s hs => by
  obtain ⟨v, rfl⟩ := h.selects s hs
  exact ⟨v, rfl⟩

theorem not_distinct (h : l.Direct) : l.isDistinct = false := by
  unfold isDistinct
  cases hs : l.selection with
  | none => rfl
  | some s =>
    obtain ⟨v, rfl⟩ := h.selects s hs
    rfl

/-- Direct layers are merged. -/
theorem needsSubquery_eq (hl : l.Direct) (hb : b.Direct) : l.needsSubquery b = false := by
  rw [needsSubquery, hasGroupBy, hl.ungrouped, hb.not_distinct]
  rfl

theorem merge (hl : l.Direct) (hb : b.Direct) (hm : l.merge b = .ok m) : m.Direct := by
  obtain ⟨ks, top, offset, limit, -, -, -, -, rfl⟩ := merge_eq_ok.mp hm
  refine ⟨hb.ungrouped, fun s hs => ?_⟩
  have houter : ∀ s, l.outerSelection = some s → ∃ v, s = .ofValue v := by
    intro s hs
    unfold outerSelection at hs
    split at hs
    · cases hs
      exact ⟨_, rfl⟩
    · exact hl.selects s hs
  have hs : l.mergedSelection b = some s := hs
  unfold mergedSelection at hs
  cases ho : l.outerSelection with
  | none =>
    rw [ho] at hs
    exact hb.selects s (by simpa using hs)
  | some o =>
    obtain ⟨v, rfl⟩ := houter o ho
    rw [ho] at hs
    cases hi : b.selection with
    | none =>
      rw [hi] at hs
      cases hs
      exact ⟨_, rfl⟩
    | some i =>
      obtain ⟨w, rfl⟩ := hb.selects i hi
      rw [hi] at hs
      cases hs
      exact ⟨_, rfl⟩

end Direct

/-- The conditions of a merged layer: those of the lower one come first. -/
theorem conjuncts_mergedFilter (l b : Layer) :
    Scalar.filterConjuncts (l.mergedFilter b) =
      Scalar.filterConjuncts b.filter ++
        Scalar.filterConjuncts (l.filter.map (·.substitute (l.onto b))) := by
  unfold mergedFilter
  cases b.filter <;> cases l.filter <;> simp [Scalar.filterConjuncts, Scalar.conjuncts, Scalar.and]

/-- **The flat layer of direct layers has their row and their conditions.** -/
theorem flattenAll_conditions {ls : List Layer} : ∀ {l m : Layer}, l.flattenAll ls = .ok m →
    l.Direct → (∀ k ∈ ls, k.Direct) →
      m.Direct ∧ m.row = l.rowOver ls ∧ Scalar.filterConjuncts m.filter = l.conditionsOver ls := by
  induction ls with
  | nil =>
    intro l m h hl _
    cases h
    exact ⟨hl, rfl, rfl⟩
  | cons next rest ih =>
    intro l m h hl hls
    obtain ⟨hnext, hrest⟩ := List.forall_mem_cons.mp hls
    obtain ⟨b, hb, h⟩ := bind_eq_ok.mp h
    obtain ⟨hbelow, hrow, hconditions⟩ := ih hb hnext hrest
    obtain ⟨-, h⟩ := flattenOnto_eq_ok.mp h
    rw [hl.needsSubquery_eq hbelow, if_neg (by decide)] at h
    refine ⟨hl.merge hbelow h, ?_, ?_⟩
    · rw [row_merge hl.valued hbelow.valued h, onto, hrow, rowOver]
    · obtain ⟨ks, top, offset, limit, -, -, -, -, rfl⟩ := merge_eq_ok.mp h
      rw [conjuncts_mergedFilter, hconditions, onto, hrow]
      rfl

end Layer

/-! ## Stages -/

namespace Stage

/-- A scalar of the stage in terms of its lowest layer: the row of the layer below stands in the
place of the name of each layer. -/
def composed (st : Stage) (s : Scalar) : Scalar := st.layer.composedOver s st.below

/-- The conditions of the stage in terms of its lowest layer, in the order of the layers. -/
def conditions (st : Stage) : List Scalar := st.layer.conditionsOver st.below

/-- A stage of layers that make one row of each row that they keep. -/
def Direct (st : Stage) : Prop := ∀ l ∈ st.layers, l.Direct

variable {st : Stage}

/-- **The conditions of the flat layer of a stage are those of the stage.** -/
theorem flatten_conditions {m : Layer} (hst : st.Direct) (h : st.flatten = .ok m) :
    Scalar.filterConjuncts m.filter = st.conditions := by
  obtain ⟨hl, hbelow⟩ := List.forall_mem_cons.mp hst
  exact (Layer.flattenAll_conditions h hl hbelow).2.2

theorem filterConjuncts_toQuery {q : Query} (hst : st.Direct) (h : st.toQuery = .ok q) :
    Scalar.filterConjuncts q.filter = st.conditions := by
  obtain ⟨m, hm, hq⟩ := bind_eq_ok.mp h
  cases hq
  exact st.flatten_conditions hst hm

/-! ### Changes of stages -/

theorem Direct.ofSource (name : String) (source : LayerSource) :
    Direct ⟨.ofSource name source, []⟩ := by
  intro l hl
  obtain rfl := List.mem_singleton.mp hl
  exact ⟨rfl, fun _ hs => nomatch hs⟩

theorem Direct.package (h : st.Direct) (name : String) : (st.package name).Direct := by
  refine List.forall_mem_cons.mpr ⟨⟨rfl, fun _ hs => nomatch hs⟩, ?_⟩
  exact h

/-- A layer over the stage brings no condition. -/
theorem conditions_package (st : Stage) (name : String) :
    (st.package name).conditions = st.conditions :=
  List.append_nil _

/-- A condition that is added is behind those of the filter, whatever is made of the scalars. -/
theorem filterConjuncts_addWhere {f : Scalar → Scalar}
    (hf : ∀ a b, f (.and a b) = .and (f a) (f b)) (st : Stage) (s : Scalar) :
    Scalar.filterConjuncts ((st.addWhere s).layer.filter.map f) =
      Scalar.filterConjuncts (st.layer.filter.map f) ++ (f s).conjuncts := by
  cases hfilter : st.layer.filter with
  | none =>
    have hadded : (st.addWhere s).layer.filter = some s := by
      simp [addWhere, mapLayer, hfilter]
    simp [hadded, Scalar.filterConjuncts]
  | some e =>
    have hadded : (st.addWhere s).layer.filter = some (.and e s) := by
      simp [addWhere, mapLayer, hfilter]
    have hconjuncts : (f (.and e s)).conjuncts = (f e).conjuncts ++ (f s).conjuncts := by
      rw [hf]
      rfl
    simpa [hadded, Scalar.filterConjuncts] using hconjuncts

/-- The conditions of a stage are before the one that is added last. -/
theorem conditions_addWhere (st : Stage) (s : Scalar) :
    (st.addWhere s).conditions = st.conditions ++ (st.composed s).conjuncts := by
  obtain ⟨l, below⟩ := st
  cases below with
  | nil =>
    have h := filterConjuncts_addWhere (f := id) (fun _ _ => rfl) ⟨l, []⟩ s
    simp only [Option.map_id_fun, id] at h
    exact h
  | cons next rest =>
    have h := filterConjuncts_addWhere (f := (·.substitute ⟨l.name, next.rowOver rest⟩))
      (fun a b => by simp [Scalar.and, Scalar.substitute]) ⟨l, next :: rest⟩ s
    show next.conditionsOver rest ++ _ = (next.conditionsOver rest ++ _) ++ _
    rw [List.append_assoc]
    exact congrArg _ h

/-- Where the filter of the upper layer stays, the conditions of the stage do. -/
theorem conditions_mapLayer {f : Layer → Layer} (hname : (f st.layer).name = st.layer.name)
    (hfilter : (f st.layer).filter = st.layer.filter) :
    (st.mapLayer f).conditions = st.conditions := by
  obtain ⟨l, below⟩ := st
  have hname : (f l).name = l.name := hname
  have hfilter : (f l).filter = l.filter := hfilter
  cases below with
  | nil => exact congrArg Scalar.filterConjuncts hfilter
  | cons next rest =>
    simp only [mapLayer, conditions, Layer.conditionsOver, Layer.composedOver, hname, hfilter]

theorem Direct.mapLayer {f : Layer → Layer} (h : st.Direct) (hf : (f st.layer).Direct) :
    (st.mapLayer f).Direct :=
  List.forall_mem_cons.mpr ⟨hf, (List.forall_mem_cons.mp h).2⟩

theorem Direct.layer (h : st.Direct) : st.layer.Direct := h _ List.mem_cons_self

end Stage

end LambdaQuery
