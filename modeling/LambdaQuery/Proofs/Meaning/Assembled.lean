import LambdaQuery.Proofs.Meaning.Edits
import LambdaQuery.Proofs.Meaning.Numbers
import Mathlib

/-!
# The rows of assembled stages

A stage may be assembled by any operations on it, not only by those that operators ask for
(`Stage.Assembled`). Executed as it stands, every layer reads the query of the layers below
(`Stage.nested`). Flattening has the same rows if a layer that is merged with bounded rows makes one
row of each of them (`Stage.flatten_nested`). It does not see to that: a layer that drops duplicates
of bounded rows is merged with them (`Stage.flatten_distinct_top`).
-/

set_option autoImplicit false

namespace LambdaQuery

variable {V : Type} {D : Database V}

/-! ## Names -/

/-- The names that the clauses of a layer may refer to, innermost first. -/
def Layer.bindings (l : Layer) : List String := (l.joins.map (·.1)).reverse ++ [l.name]

/-- A clause of the upper layer: it refers to what the layer binds, and its own sources bind no
name of the layers below. -/
structure Stage.Scoped (s : Stage) (clause : Scalar) : Prop where
  references : clause.WellScoped s.layer.bindings
  sources : clause.WellScoped (s.layer.bindings ++ Layer.allNames s.below)

theorem joinContext_ofNames (names : List String) (js : List (String × Scalar)) :
    joinContext (.ofNames names) js js = .ofNames ((js.map (·.1)).reverse ++ names) := by
  induction js generalizing names with
  | nil => rfl
  | cons j js ih =>
    rw [List.map_cons, List.reverse_cons, List.append_assoc]
    exact ih (j.1 :: names)

theorem Layer.context_eq_ofNames (l : Layer) : l.context l = .ofNames l.bindings :=
  joinContext_ofNames [l.name] l.joins

theorem Stage.Scoped.alike {s : Stage} {clause : Scalar} (h : s.Scoped clause) :
    Scalar.Alike (.verbatim (Layer.allNames s.below)) (s.layer.context s.layer) clause clause := by
  rw [Layer.context_eq_ofNames]
  exact Scalar.WellScoped.alike clause h.references h.sources

/-! ## Assembled stages -/

namespace Stage

/-- Stages that operations assemble. Aliases are new, counts are literals, offsets are numbers of
rows, and selected aggregates are of all rows. -/
inductive Assembled : Stage → Prop where
  | root : Assembled .root
  | overItems (name : String) {path : Scalar} (h : path.WellScoped []) :
    Assembled (.overItems name path)
  | package {s : Stage} (h : Assembled s) {name : String} (hn : name ∉ Layer.allNames s.layers) :
    Assembled (s.package name)
  | addJoin {s : Stage} (h : Assembled s) {name : String} {path : Scalar} (hp : s.Scoped path)
    (hn : name ∉ Layer.allNames s.layers) : Assembled (s.addJoin name path)
  | addSelect {s u : Stage} (h : Assembled s) {selection : Selection} {value : Scalar}
    (hv : s.Scoped value) (ht : value.isAggregate = true → value.Totals)
    (hs : selection.projection = .value value) (hu : Stage.addSelect selection s = (.ok (), u)) :
    Assembled u
  | setDistinct {s : Stage} (h : Assembled s) : Assembled s.setDistinct
  | addWhere {s : Stage} (h : Assembled s) {filter : Scalar} (hf : s.Scoped filter) :
    Assembled (s.addWhere filter)
  | addOrderBy {s : Stage} (h : Assembled s) {key : SortKey} (hk : s.Scoped key.value) :
    Assembled (s.addOrderBy key)
  | thenBy {s u : Stage} (h : Assembled s) {key : SortKey} (hk : s.Scoped key.value)
    (hu : Stage.thenBy key s = (.ok (), u)) : Assembled u
  | addTop {s u : Stage} (h : Assembled s) {n : Int64}
    (hu : Stage.addTop (.literal n) s = (.ok (), u)) : Assembled u
  | addOffset {s u : Stage} (h : Assembled s) {n : Int64} (hn : 0 ≤ n.toInt)
    (hu : Stage.addOffset (.literal n) s = (.ok (), u)) : Assembled u
  | addLimit {s u : Stage} (h : Assembled s) {n : Int64}
    (hu : Stage.addLimit (.literal n) s = (.ok (), u)) : Assembled u

end Stage

/-! ## What the operations keep -/

namespace Layer

/-- Layers over one another: none groups, offsets are numbers of rows, and over an offset rows are
bounded by a limit. -/
inductive Stacked : List Layer → Prop where
  | nil : Stacked []
  | cons {l : Layer} {ls : List Layer} (plain : l.Plain)
    (natural : ∀ n, l.offset = some n → n.Natural)
    (top : (∃ b ∈ ls, b.offset.isSome = true) → l.top = none) (below : Stacked ls) :
    Stacked (l :: ls)

/-- A layer with other clauses stays plain if its row is none or stays the same. -/
theorem Plain.of_row {l l' : Layer} (h : l.Plain) (hg : l'.groupBy = l.groupBy)
    (hv : ∀ s, l'.selection = some s → ∃ v, s.projection = .value v)
    (hr : l'.row.isAggregate = true → l'.row = l.row) : l'.Plain where
  ungrouped := hg.trans h.ungrouped
  valued := hv
  total hagg := by
    have hrow := hr hagg
    rw [hrow] at hagg ⊢
    exact h.total hagg

end Layer

namespace Stage

/-- What is true of assembled stages. -/
structure Coherent (s : Stage) : Prop where
  alike : Stage.Alike (.verbatim []) s s
  stacked : Layer.Stacked s.layers

namespace Coherent

variable {s u : Stage} (h : s.Coherent)

include h

theorem layer : Layer.Alike (.verbatim (Layer.allNames s.below)) s.layer s.layer := by
  cases h.alike with
  | cons h _ => exact h

theorem plain : s.layer.Plain := by
  cases h.stacked with
  | cons plain => exact plain

theorem natural : ∀ n, s.layer.offset = some n → n.Natural := by
  cases h.stacked with
  | cons _ natural => exact natural

theorem top : (∃ b ∈ s.below, b.offset.isSome = true) → s.layer.top = none := by
  cases h.stacked with
  | cons _ _ top => exact top

/-- Another upper layer. -/
theorem edit {l : Layer} (hl : Layer.Alike (.verbatim (Layer.allNames s.below)) l l)
    (hp : l.Plain) (hn : ∀ n, l.offset = some n → n.Natural)
    (ht : (∃ b ∈ s.below, b.offset.isSome = true) → l.top = none) : Coherent ⟨l, s.below⟩ := by
  obtain ⟨halike, hstacked⟩ := h
  cases halike with
  | cons _ hs =>
    cases hstacked with
    | cons _ _ _ below => exact ⟨.cons hl hs, .cons hp hn ht below⟩

/-- Another upper layer with the same bounds. -/
theorem edit' {l : Layer} (hl : Layer.Alike (.verbatim (Layer.allNames s.below)) l l)
    (hp : l.Plain) (ho : l.offset = s.layer.offset) (ht : l.top = s.layer.top) :
    Coherent ⟨l, s.below⟩ :=
  h.edit hl hp (ho ▸ h.natural) (ht ▸ h.top)

omit h in
theorem ofSource {name : String} {source : LayerSource}
    (hs : LayerSource.Alike (.verbatim []) source source) :
    Coherent ⟨.ofSource name source, []⟩ where
  alike := .cons (.ofSource ⟨List.not_mem_nil, List.not_mem_nil, nofun, False.elim⟩ hs) .nil
  stacked := .cons (plain_ofSource source) nofun (fun _ => rfl) .nil

theorem package {name : String} (hn : name ∉ Layer.allNames s.layers) :
    (s.package name).Coherent where
  alike := .cons (.ofSource ⟨hn, hn, nofun, False.elim⟩ .container) h.alike
  stacked := .cons (plain_ofSource .container) nofun (fun _ => rfl) h.stacked

theorem addJoin {name : String} {path : Scalar} (hp : s.Scoped path)
    (hn : name ∉ Layer.allNames s.layers) : (s.addJoin name path).Coherent := by
  have hlayer : name ∉ s.layer.names := fun h => hn (List.mem_append_left _ h)
  have hbelow : name ∉ Layer.allNames s.below := fun h => hn (List.mem_append_right _ h)
  have hfresh : (Likeness.verbatim (Layer.allNames s.below)).Fresh
      (s.layer.context s.layer) name name :=
    ⟨hbelow, hbelow, fun p hp =>
      ⟨fun he => hlayer (he ▸ (Layer.context_bound hp).1),
        fun he => hlayer (he ▸ (Layer.context_bound hp).2)⟩, False.elim⟩
  refine h.edit' (h.layer.addJoin hp.alike hfresh hlayer hlayer) ?_ rfl rfl
  refine h.plain.of_row rfl h.plain.valued fun hagg => ?_
  rw [Layer.row_addJoin] at hagg ⊢
  cases hv : s.layer.selection.bind (·.value?) with
  | none =>
    rw [hv] at hagg
    cases hagg
  | some value => exact (Layer.row_of_value hv).symm

theorem addSelect {selection : Selection} {value : Scalar} (hv : s.Scoped value)
    (ht : value.isAggregate = true → value.Totals) (hs : selection.projection = .value value) :
    Coherent (s.mapLayer fun l => { l with selection := some selection }) := by
  obtain ⟨projection, distinct, top⟩ := selection
  subst hs
  have hselected : Selection.Alike (.verbatim (Layer.allNames s.below))
      (s.layer.context s.layer) ⟨.value value, distinct, top⟩ ⟨.value value, distinct, top⟩ :=
    ⟨.some ⟨hv.alike, rfl⟩, rfl⟩
  refine h.edit' (h.layer.select hselected) ⟨h.plain.ungrouped, ?_, ht⟩ rfl rfl
  rintro _ ⟨⟩
  exact ⟨value, rfl⟩

theorem setDistinct : s.setDistinct.Coherent := by
  refine h.edit' (h.layer.setDistinct rfl) ?_ rfl rfl
  refine h.plain.of_row rfl ?_ fun _ => Layer.row_setDistinct h.plain
  rintro _ ⟨⟩
  rcases h.plain.selection_eq with hs | ⟨d, t, hs⟩ <;> exact ⟨s.layer.row, by rw [hs]; rfl⟩

theorem addWhere {filter : Scalar} (hf : s.Scoped filter) : (s.addWhere filter).Coherent :=
  h.edit' (h.layer.addFilter hf.alike) (h.plain.of_row rfl h.plain.valued fun _ => rfl) rfl rfl

theorem setOrderBy {keys : List SortKey}
    (hk : Scalar.AllAlike (.verbatim (Layer.allNames s.below)) (s.layer.context s.layer)
      (keys.map (·.value)) (keys.map (·.value))) :
    Coherent (s.mapLayer ({ · with orderBy := keys })) :=
  h.edit' (h.layer.orderBy' hk rfl) (h.plain.of_row rfl h.plain.valued fun _ => rfl) rfl rfl

theorem thenBy {key : SortKey} (hk : s.Scoped key.value) :
    Coherent (s.mapLayer fun l => { l with orderBy := l.orderBy ++ [key] }) := by
  have hkeys := h.layer.orderBy.append (.cons hk.alike .nil)
  rw [← List.map_singleton, ← List.map_append] at hkeys
  exact h.setOrderBy hkeys

theorem setLimit (limit : Option Count) : Coherent (s.mapLayer ({ · with limit := limit })) :=
  h.edit' { h.layer with limit := optionRel_refl limit }
    (h.plain.of_row rfl h.plain.valued fun _ => rfl) rfl rfl

theorem setTop (hs : s.hasOffset = false) (top : Option Count) :
    Coherent (s.mapLayer ({ · with top := top })) := by
  refine h.edit { h.layer with top := optionRel_refl top }
    (h.plain.of_row rfl h.plain.valued fun _ => rfl) h.natural fun ⟨b, hb, ho⟩ => ?_
  have hnone := List.any_eq_false.mp hs b (List.mem_cons_of_mem _ hb)
  exact absurd ho hnone

theorem setOffset {offset : Option Count} (hn : ∀ n, offset = some n → n.Natural) :
    Coherent (s.mapLayer ({ · with offset := offset })) :=
  h.edit { h.layer with offset := optionRel_refl offset }
    (h.plain.of_row rfl h.plain.valued fun _ => rfl) hn h.top

end Coherent

/-- **What one operation keeps, all of them keep.** -/
theorem Assembled.coherent {s : Stage} (h : s.Assembled) : s.Coherent := by
  induction h with
  | root => exact .ofSource .container
  | overItems name hp => exact .ofSource (.items (Scalar.WellScoped.alike _ hp hp))
  | package _ hn ih => exact ih.package hn
  | addJoin _ hp hn ih => exact ih.addJoin hp hn
  | addSelect _ hv ht hs hu ih =>
    obtain ⟨-, rfl⟩ := addSelect_eq_ok.mp hu
    exact ih.addSelect hv ht hs
  | setDistinct _ ih => exact ih.setDistinct
  | addWhere _ hf ih => exact ih.addWhere hf
  | addOrderBy _ hk ih => exact ih.setOrderBy (.cons hk.alike .nil)
  | thenBy _ hk hu ih =>
    obtain ⟨-, rfl⟩ := thenBy_eq_ok.mp hu
    exact ih.thenBy hk
  | @addTop s u _ n hu ih =>
    rw [addTop_eq_ok] at hu
    split at hu
    · obtain ⟨limit, -, rfl⟩ := addLimit_eq_ok.mp hu
      exact ih.setLimit limit
    · rename_i ho
      obtain ⟨top, -, rfl⟩ := hu
      exact ih.setTop (by simpa using ho) top
  | addOffset _ hn hu ih =>
    obtain ⟨offset, hsum, rfl⟩ := addOffset_eq_ok.mp hu
    refine ih.setOffset (Count.sum?_natural ih.natural ?_ hsum)
    rintro _ ⟨⟩
    exact ⟨_, rfl, hn⟩
  | addLimit _ hu ih =>
    obtain ⟨limit, -, rfl⟩ := addLimit_eq_ok.mp hu
    exact ih.setLimit limit

end Stage

/-! ## Execution as it stands -/

/-- The query of a layer over the query of the layers below. -/
def Layer.nestedOver (l : Layer) : List Layer → Query
  | [] => l.toQuery
  | next :: rest => { l with source := .subquery (next.nestedOver rest) }.toQuery

/-- The query of a stage in which every layer reads the one below as a subquery. -/
def Stage.nested (s : Stage) : Query := s.layer.nestedOver s.below

variable [DecidableEq V]

theorem Layer.Stacked.nestedOver_rows {l : Layer} {ls : List Layer} (h : Layer.Stacked (l :: ls)) :
    (l.nestedOver ls).rows D D.nothing = l.rowsOver D (l.rowsBelow D ls) := by
  induction ls generalizing l with
  | nil =>
    cases h with
    | cons plain => exact plain.toQuery_rows
  | cons next rest ih =>
    cases h with
    | cons plain _ _ below =>
      have hplain : Layer.Plain { l with source := .subquery (next.nestedOver rest) } :=
        ⟨plain.ungrouped, plain.valued, plain.total⟩
      rw [nestedOver, hplain.toQuery_rows, rowsBelow, ← ih below]
      rfl

/-! ## Flattened stages -/

/-- Every layer that flattening merges with bounded rows makes one row of each. -/
def Stage.KeepsBounds (s : Stage) : Prop :=
  ∀ l ls, l :: ls <:+ s.layers → l.KeepsBoundsOf ls

/-- A layer that skips rows has no more of them than a count can say. -/
def Stage.Countable (D : Database V) (s : Stage) : Prop :=
  ∀ l ls, l :: ls <:+ s.layers → l.offset.isSome = true →
    (l.free D (l.rowsBelow D ls)).length < 2 ^ 63

theorem Layer.Stacked.mergeable {ls : List Layer} (h : Layer.Stacked ls)
    (hk : ∀ l ls', l :: ls' <:+ ls → l.KeepsBoundsOf ls')
    (hs : ∀ l ls', l :: ls' <:+ ls → l.offset.isSome = true →
      (l.free D (l.rowsBelow D ls')).length < 2 ^ 63) : Layer.Mergeable D ls := by
  induction h with
  | nil => exact .nil
  | @cons l ls plain natural top _ ih =>
    have hsuffix : ∀ {l' ls'}, l' :: ls' <:+ ls → l' :: ls' <:+ l :: ls :=
      fun h => h.trans (List.suffix_cons l ls)
    exact .cons plain (hk l ls (List.suffix_refl _)) top ⟨natural, hs l ls (List.suffix_refl _)⟩
      (ih (fun l' ls' h => hk l' ls' (hsuffix h)) fun l' ls' h => hs l' ls' (hsuffix h))

/-- **Flattening keeps the rows of assembled stages** that have no layer merged with bounded rows of
which it does not make one row each: the flat layer has the rows of the stage as it stands. -/
theorem Stage.flatten_nested (hD : D.Lawful) {s : Stage} (h : s.Assembled) (hk : s.KeepsBounds)
    (hs : s.Countable D) {m : Layer} (hm : s.flatten = .ok m) :
    m.toQuery.rows D D.nothing = s.nested.rows D D.nothing := by
  obtain ⟨halike, hstacked⟩ := h.coherent
  have hq : s.toQuery = .ok m.toQuery := by rw [toQuery, hm]; rfl
  rw [toQuery_rows hD (Likeness.verbatim_plain []) halike (hstacked.mergeable hk hs) hq]
  exact hstacked.nestedOver_rows.symm

/-- Different numbers behind the first, twice without duplicates, each one greater, two of them. -/
theorem Stage.flatten_nested_distinct :
    let D := Database.ofNumbers [.number 1, .number 1, .number 2, .number 3, .number 4]
    let greater : Scalar := .binary .add (.ref "r1") (.integer 1)
    let bottom : Layer := { Layer.ofSource "root" .container with
      selection := some ⟨.value (.ref "root"), true, none⟩, offset := some (.literal 1) }
    let middle : Layer := { Layer.ofSource "r0" .container with
      selection := some ⟨.value (.ref "r0"), true, none⟩ }
    let upper : Layer := { Layer.ofSource "r1" .container with
      selection := some (.ofValue greater), limit := some (.literal 2) }
    let s : Stage := ⟨upper, [middle, bottom]⟩
    s.Assembled ∧ s.KeepsBounds ∧ s.Countable D ∧ ∃ m, s.flatten = .ok m ∧
      m.toQuery.rows D D.nothing = s.nested.rows D D.nothing ∧
        s.nested.rows D D.nothing = [.number 3, .number 4] := by
  intro D greater bottom middle upper s
  have hassembled : s.Assembled := by
    have hbottom : Assembled ⟨bottom, []⟩ :=
      .addOffset (.setDistinct .root) (n := 1) (by decide) rfl
    have hmiddle : Assembled ⟨middle, [bottom]⟩ :=
      .setDistinct (hbottom.package (by simp [Layer.allNames, Layer.names, bottom]; decide))
    have hstage : Assembled ⟨.ofSource "r1" .container, [middle, bottom]⟩ :=
      hmiddle.package (by simp [Layer.allNames, Layer.names, middle, bottom]; decide)
    have hgreater : Scoped ⟨.ofSource "r1" .container, [middle, bottom]⟩ greater :=
      ⟨⟨List.mem_singleton_self _, trivial⟩, ⟨List.mem_cons_self, trivial⟩⟩
    have hselect : Stage.addSelect (.ofValue greater)
        ⟨.ofSource "r1" .container, [middle, bottom]⟩ =
          (.ok (), ⟨{ upper with limit := none }, [middle, bottom]⟩) := rfl
    exact .addTop (n := 2) (.addSelect hstage hgreater (fun h => by cases h) rfl hselect) rfl
  have hkeeps : s.KeepsBounds := by
    intro l ls h
    simp only [s, layers, List.suffix_cons_iff, List.suffix_nil, List.cons.injEq] at h
    obtain ⟨rfl, rfl⟩ | ⟨rfl, rfl⟩ | ⟨rfl, rfl⟩ | h := h
    · intro b hb hsub
      cases hb
      cases hsub
    · intro b hb _ _
      cases hb
      exact ⟨rfl, rfl, fun _ => rfl⟩
    · trivial
    · cases h
  have hcountable : s.Countable D := by
    intro l ls h ho
    simp only [s, layers, List.suffix_cons_iff, List.suffix_nil, List.cons.injEq] at h
    obtain ⟨rfl, rfl⟩ | ⟨rfl, rfl⟩ | ⟨rfl, rfl⟩ | h := h
    · cases ho
    · cases ho
    · decide
    · cases h
  cases hm : s.flatten with
  | error e => cases hm
  | ok m =>
    refine ⟨hassembled, hkeeps, hcountable, m, rfl,
      flatten_nested (Database.ofNumbers_lawful _) hassembled hkeeps hcountable hm, ?_⟩
    subst s upper middle bottom greater D
    cbv

/-- Of two equal numbers there is one without duplicates, but the flat layer looks for the second
one among all numbers. -/
theorem Stage.flatten_distinct_top :
    let D := Database.ofNumbers [.number 1, .number 1, .number 2]
    let bottom : Layer := { Layer.ofSource "root" .container with top := some (.literal 2) }
    let upper : Layer := { Layer.ofSource "r0" .container with
      selection := some ⟨.value (.ref "r0"), true, none⟩ }
    let s : Stage := ⟨upper, [bottom]⟩
    s.Assembled ∧ s.Countable D ∧ ∃ m, s.flatten = .ok m ∧
      m.toQuery.rows D D.nothing = [.number 1, .number 2] ∧
        s.nested.rows D D.nothing = [.number 1] := by
  intro D bottom upper s
  have hassembled : s.Assembled := by
    have hbottom : Assembled ⟨bottom, []⟩ := .addTop (n := 2) .root rfl
    exact .setDistinct (hbottom.package (by simp [Layer.allNames, Layer.names, bottom]; decide))
  have hcountable : s.Countable D := by
    intro l ls h ho
    simp only [s, layers, List.suffix_cons_iff, List.suffix_nil, List.cons.injEq] at h
    obtain ⟨rfl, rfl⟩ | ⟨rfl, rfl⟩ | h := h
    · cases ho
    · cases ho
    · cases h
  refine ⟨hassembled, hcountable, _, rfl, ?_, ?_⟩ <;>
  · subst s upper bottom D
    cbv

end LambdaQuery
