import LambdaQuery.Proofs.Meaning.Bounds
import LambdaQuery.Proofs.Meaning.Merging

/-!
# The rows of flattened stages

Flattening changes no rows (`Stage.toQuery_rows`) where the layers are `Layer.Mergeable`. A layer
over one that drops duplicates only filters and sorts its rows, and one over a layer that is bounded
only makes a row of each; operators package or refuse anything else (`Layer.Regular`).
-/

set_option autoImplicit false

namespace LambdaQuery

variable {V : Type} {D : Database V} {c : Likeness}

theorem Database.before_map {α β : Type} (keys : List ((β → V) × Bool)) (f : α → β) (a a' : α) :
    D.before (keys.map fun k => (k.1 ∘ f, k.2)) a a' = D.before keys (f a) (f a') := by
  induction keys with
  | nil => rfl
  | cons k keys ih =>
    obtain ⟨key, descending⟩ := k
    simp only [List.map_cons, before, Function.comp_apply, ih]

variable [DecidableEq V]

namespace Layer

variable {l b m : Layer} {L L' : List String}

/-! ## Layers without joins -/

/-- The row that a layer without joins has for a row below. -/
def rowOf (D : Database V) (l : Layer) (v : V) : V :=
  l.row.eval D (Function.update D.nothing l.name v) none

theorem values_of_unjoined (hj : l.joins = []) (hrow : l.row.isAggregate = false) (rows : List V) :
    l.values D rows = (D.sorted
      ((SortKey.keys D l.orderBy).map fun k => (k.1 ∘ Function.update D.nothing l.name, k.2))
      (rows.filter (Scalar.passes D l.filter ∘ Function.update D.nothing l.name))).map
        (l.rowOf D) := by
  have hvaluations : l.valuations D rows = rows.map (Function.update D.nothing l.name) := by
    rw [valuations, hj]
    exact List.flatMap_pure_eq_map _ rows
  have hkept : l.kept D rows = (D.sorted
      ((SortKey.keys D l.orderBy).map fun k => (k.1 ∘ Function.update D.nothing l.name, k.2))
      (rows.filter (Scalar.passes D l.filter ∘ Function.update D.nothing l.name))).map
        (Function.update D.nothing l.name) := by
    rw [kept, hvaluations, ClauseSemantics.kept, List.filter_map,
      Database.map_sorted fun a a' => Database.before_map _ _ a a']
    rfl
  rw [values_eq_map hrow, hkept, List.map_map]
  rfl

/-- A layer that only filters and sorts may as well do so before duplicates are dropped. -/
theorem values_distinct (hD : D.Lawful) (hj : l.joins = []) (hrow : l.row = .ref l.name)
    (rows : List V) : l.values D (Rows.distinct rows) = Rows.distinct (l.values D rows) := by
  have hsingle : l.row.isAggregate = false := by
    rw [hrow]
    rfl
  have hid : l.rowOf D = id := by
    funext v
    rw [rowOf, hrow, Scalar.eval, Function.update_self, id]
  rw [values_of_unjoined hj hsingle, values_of_unjoined hj hsingle, hid, List.map_id, List.map_id,
    Rows.distinct_filter, Database.distinct_sorted hD]

/-! ## Merged layers -/

/-- What a layer is that needs no subquery for the layer below. -/
theorem of_needsSubquery (hl : l.Plain) (h : l.needsSubquery b = false)
    (hb : b.isDistinct = true) : l.joins = [] ∧ l.row = .ref l.name := by
  simp only [needsSubquery, hb, Bool.true_and, Bool.or_eq_false_iff, Bool.not_eq_false',
    List.isEmpty_iff] at h
  obtain ⟨-, hj, hs⟩ := h
  refine ⟨hj, ?_⟩
  rcases hl.selection_eq with hls | ⟨d, t, hls⟩
  · unfold row lastName
    rw [hls, hj]
    rfl
  · rw [hls] at hs
    simp only [Option.any_some, Selection.value?, Bool.or_eq_false_iff, Bool.not_eq_false'] at hs
    cases hrow : l.row with
    | ref n =>
      rw [hrow] at hs
      exact congrArg Scalar.ref (beq_iff_eq.mp hs.2)
    | _ =>
      rw [hrow] at hs
      cases hs.2

/-- What a layer may do with the rows of a bounded one that it is merged with: make a row of each.
It may drop duplicates where there are none any more. -/
structure KeepsBounds (l b : Layer) : Prop where
  joins : l.joins = []
  single : l.row.isAggregate = false
  distinct : l.isDistinct = true → b.isDistinct = true

/-- A layer that neither filters nor sorts makes one row of each row below. -/
theorem values_eq_map_rowOf (hj : l.joins = []) (hf : l.filter = none) (ho : l.orderBy = [])
    (hrow : l.row.isAggregate = false) (rows : List V) :
    l.values D rows = rows.map (l.rowOf D) := by
  have hall : rows.filter (Scalar.passes D none ∘ Function.update D.nothing l.name) = rows :=
    List.filter_eq_self.mpr fun _ _ => rfl
  rw [values_of_unjoined hj hrow, hf, ho, SortKey.keys, List.map_nil, Database.sorted_nil, hall]

/-- A layer that only selects has one row for each row below. -/
theorem free_eq_map (hj : l.joins = []) (hf : l.filter = none) (ho : l.orderBy = [])
    (hd : l.isDistinct = false) (hrow : l.row.isAggregate = false) (rows : List V) :
    l.free D rows = rows.map (l.rowOf D) := by
  rw [free, hd, values_eq_map_rowOf hj hf ho hrow]
  rfl

/-- Over a bounded layer it makes no difference which of the rows are left. -/
theorem free_of_bounded (hk : l.KeepsBounds b) (hpl : l.Plain) (hsub : l.needsSubquery b = false)
    (hcomp : l.Composable b) (hbb : b.isBounded = true) {input rows : List V}
    (hrows : rows.Sublist (b.free D input)) : l.free D rows = rows.map (l.rowOf D) := by
  have hlimited : l.filter = none ∧ l.orderBy = [] := by
    have h := hcomp.limited
    rw [show (b.hasTop || b.offset.isSome) = true from hbb] at h
    simpa using h
  cases hld : l.isDistinct with
  | false => exact free_eq_map hk.joins hlimited.1 hlimited.2 hld hk.single rows
  | true =>
    have hbd := hk.distinct hld
    have hid : l.rowOf D = id := by
      funext v
      rw [rowOf, (of_needsSubquery hpl hsub hbd).2, Scalar.eval, Function.update_self, id]
    have hnodup : rows.Nodup := by
      rw [free, hbd] at hrows
      exact (Rows.nodup_distinct _).sublist hrows
    rw [free, hld, values_eq_map_rowOf hk.joins hlimited.1 hlimited.2 hk.single, hid, List.map_id]
    exact Rows.distinct_of_nodup hnodup

section

variable (hD : D.Lawful) (hc : c.Plain) (hl : Layer.Alike (c.reserve L L') l l)
  (hb : Layer.Alike c b b) (hL : b.names ⊆ L) (hpl : l.Plain) (hpb : b.Plain)
  (hcomp : l.Composable b) (hsub : l.needsSubquery b = false) (hm : l.merge b = .ok m)

include hD hc hl hb hL hpl hpb hcomp hsub hm

/-- Without their bounds, merged layers have the rows of the layers over one another. -/
theorem free_merge (input : List V) : m.free D input = l.free D (b.free D input) := by
  have hrow : b.row.isAggregate = false := row_isAggregate hcomp.aggregate
  have hvalues := values_merge hD hc hl hb hL hm hpl hpb hrow input
  unfold free
  rw [isDistinct_merge hpl hpb hm, hvalues]
  cases hbd : b.isDistinct with
  | false => simp
  | true =>
    obtain ⟨hj, hlr⟩ := of_needsSubquery hpl hsub hbd
    cases l.isDistinct <;> simp [values_distinct hD hj hlr]

theorem rowsOver_merge (hk : b.isBounded = true → l.KeepsBounds b)
    (ht : b.offset.isSome = true → l.top = none) {input : List V}
    (hsl : l.Sized D (b.rowsOver D input)) (hsb : b.Sized D input) :
    m.rowsOver D input = l.rowsOver D (b.rowsOver D input) ∧ m.Sized D input := by
  have hfree := free_merge hD hc hl hb hL hpl hpb hcomp hsub hm input
  obtain ⟨ks, top, offset, limit, -, -, hsum, -, hmerged⟩ := merge_eq_ok.mp hm
  have hoffset : m.offset = offset := by rw [hmerged]
  have hnatural : ∀ n, m.offset = some n → n.Natural := by
    rw [hoffset]
    exact Count.sum?_natural hsb.offset hsl.offset hsum
  -- Over a bounded layer `l` makes one row of each, so that the bounds may as well come last.
  have hbounded : (b.meaning D).bounded (l.free D (b.free D input)) =
      l.free D ((b.meaning D).bounded (b.free D input)) := by
    cases hbb : b.isBounded with
    | false => rw [bounded_of_not_isBounded hbb, bounded_of_not_isBounded hbb]
    | true =>
      rw [free_of_bounded (hk hbb) hpl hsub hcomp hbb (List.Sublist.refl _),
        free_of_bounded (hk hbb) hpl hsub hcomp hbb (bounded_sublist _), bounded_map]
  have hlength : b.isBounded = true → b.offset.isSome = true →
    (m.free D input).length < 2 ^ 63 := by
    intro hbb ho
    rw [hfree, free_of_bounded (hk hbb) hpl hsub hcomp hbb (List.Sublist.refl _), List.length_map]
    exact hsb.free ho
  have hisBounded : b.offset.isSome = true → b.isBounded = true := fun ho => by
    rw [isBounded, ho, Bool.or_true]
  refine ⟨?_, hnatural, fun ho => ?_⟩
  · rw [rowsOver, rowsOver, rowsOver, bounded_merge hm ht hcomp.offset hsl.offset hsb.offset
      fun ho => hlength (hisBounded ho) ho, hfree, hbounded]
  · cases hbo : b.offset with
    | some n => exact hlength (hisBounded (by rw [hbo]; rfl)) (by rw [hbo]; rfl)
    | none =>
      have hlo : l.offset.isSome = true := by
        rw [hoffset] at ho
        rcases Count.sum?_eq_ok hsum with ⟨-, rfl⟩ | ⟨hln, rfl⟩ | ⟨_, _, hbs, -⟩
        · exact ho
        · rw [hbo] at ho
          cases ho
        · rw [hbo] at hbs
          cases hbs
      have hbb : b.isBounded = false := by
        have h := hcomp.offset
        rw [hlo, Bool.and_true] at h
        rw [isBounded, h, hbo]
        rfl
      have hfree' := hsl.free hlo
      rw [rowsOver, bounded_of_not_isBounded hbb] at hfree'
      rw [hfree]
      exact hfree'

end

/-- A merged layer is bounded where one of the layers is. -/
theorem bounded_of_merge (hm : l.merge b = .ok m) :
    (m.isBounded = true → l.isBounded = true ∨ b.isBounded = true) ∧
      (m.offset.isSome = true → l.offset.isSome = true ∨ b.offset.isSome = true) := by
  obtain ⟨ks, top, offset, limit, -, htop, hoffset, hlimit, rfl⟩ := merge_eq_ok.mp hm
  have hmin : ∀ {x y z : Option Count}, Count.min? x y = .ok z →
      z.isSome = true → y.isSome = true ∨ x.isSome = true := by
    intro x y z h hz
    rcases Count.min?_eq_ok h with ⟨-, rfl⟩ | ⟨-, rfl⟩ | ⟨_, _, -, rfl, -⟩
    · exact .inl hz
    · exact .inr hz
    · exact .inl rfl
  have hsum : offset.isSome = true → l.offset.isSome = true ∨ b.offset.isSome = true := by
    intro hz
    rcases Count.sum?_eq_ok hoffset with ⟨-, rfl⟩ | ⟨-, rfl⟩ | ⟨_, _, -, hl, -⟩
    · exact .inl hz
    · exact .inr hz
    · exact .inl (by rw [hl]; rfl)
  refine ⟨fun h => ?_, hsum⟩
  simp only [isBounded, hasTop, Bool.or_eq_true] at h ⊢
  rcases h with (h | h) | h
  · exact (hmin htop h).imp (fun h => .inl (.inl h)) fun h => .inl (.inl h)
  · exact (hmin hlimit h).imp (fun h => .inl (.inr h)) fun h => .inl (.inr h)
  · exact (hsum h).imp .inr .inr

/-- Flattened layers are bounded where one of the layers is. -/
theorem bounded_of_flattenAll {ls : List Layer} (hm : l.flattenAll ls = .ok m) :
    (m.isBounded = true → ∃ b ∈ l :: ls, b.isBounded = true) ∧
      (m.offset.isSome = true → ∃ b ∈ l :: ls, b.offset.isSome = true) := by
  induction ls generalizing l m with
  | nil =>
    obtain rfl := Except.ok.inj hm
    exact ⟨fun h => ⟨_, List.mem_singleton_self _, h⟩, fun h => ⟨_, List.mem_singleton_self _, h⟩⟩
  | cons next ls ih =>
    obtain ⟨below, hbelow, hm⟩ := bind_eq_ok.mp hm
    obtain ⟨-, hm⟩ := flattenOnto_eq_ok.mp hm
    obtain ⟨hbounded, hoffset⟩ := ih hbelow
    by_cases hsub : l.needsSubquery below = true
    · rw [if_pos hsub] at hm
      subst hm
      exact ⟨fun h => ⟨l, List.mem_cons_self, h⟩, fun h => ⟨l, List.mem_cons_self, h⟩⟩
    · rw [if_neg hsub] at hm
      obtain ⟨hmb, hmo⟩ := bounded_of_merge hm
      refine ⟨fun h => (hmb h).elim (fun h => ⟨l, List.mem_cons_self, h⟩) fun h => ?_,
        fun h => (hmo h).elim (fun h => ⟨l, List.mem_cons_self, h⟩) fun h => ?_⟩
      · obtain ⟨b, hb, hbb⟩ := hbounded h
        exact ⟨b, List.mem_cons_of_mem _ hb, hbb⟩
      · obtain ⟨b, hb, hbo⟩ := hoffset h
        exact ⟨b, List.mem_cons_of_mem _ hb, hbo⟩

/-! ## Layers over one another -/

/-- The layer keeps the bounds of the layers below, if flattening merges it with them. -/
def KeepsBoundsOf (l : Layer) : List Layer → Prop
  | [] => True
  | next :: rest => ∀ b, next.flattenAll rest = .ok b → l.needsSubquery b = false →
    b.isBounded = true → l.KeepsBounds b

/-- Layers over one another that may be merged. -/
inductive Mergeable (D : Database V) : List Layer → Prop where
  | nil : Mergeable D []
  | cons {l : Layer} {ls : List Layer} (plain : l.Plain) (keeps : l.KeepsBoundsOf ls)
    (top : (∃ b ∈ ls, b.offset.isSome = true) → l.top = none)
    (sized : l.Sized D (l.rowsBelow D ls)) (below : Mergeable D ls) : Mergeable D (l :: ls)

/-- Layers that operators may leave over one another. -/
inductive Regular (D : Database V) : List Layer → Prop where
  | nil : Regular D []
  | cons {l : Layer} {ls : List Layer} (plain : l.Plain) (follows : ∀ b ∈ ls, l.Follows b)
    (sized : l.Sized D (l.rowsBelow D ls)) (below : Regular D ls) : Regular D (l :: ls)

theorem Regular.mergeable {ls : List Layer} (h : Regular D ls) : Mergeable D ls := by
  induction h with
  | nil => exact .nil
  | @cons l ls plain follows sized _ ih =>
    refine .cons plain ?_ (fun ⟨b, hb, hbo⟩ => (follows b hb).top hbo) sized ih
    cases ls with
    | nil => exact trivial
    | cons next rest =>
      intro m hm _ hbounded
      obtain ⟨b, hb, hbb⟩ := (bounded_of_flattenAll hm).1 hbounded
      refine ⟨(follows b hb).joins hbb, (follows b hb).single hbb, fun h => ?_⟩
      rw [(follows b hb).distinct hbb] at h
      cases h

/-- A layer that has the rows of a layer over others. -/
structure Flattened (D : Database V) (l : Layer) (ls : List Layer) (m : Layer) : Prop where
  plain : m.Plain
  rows : m.rowsOver D (m.inputs D) = l.rowsOver D (l.rowsBelow D ls)
  sized : m.Sized D (m.inputs D)

/-- **Flattening keeps the rows**, by induction on the layers. -/
theorem AllAlike.flattened (hD : D.Lawful) (hc : c.Plain) {ls : List Layer}
    (h : Layer.AllAlike c (l :: ls) (l :: ls)) (hr : Mergeable D (l :: ls))
    (hm : l.flattenAll ls = .ok m) : Flattened D l ls m := by
  induction ls generalizing l m with
  | nil =>
    obtain rfl := Except.ok.inj hm
    cases hr with
    | cons plain _ _ sized _ => exact ⟨plain, rfl, sized⟩
  | cons b ls ih =>
    obtain ⟨below, hbelow, hm⟩ := bind_eq_ok.mp hm
    obtain ⟨hcomp, hm⟩ := flattenOnto_eq_ok.mp hm
    cases h with
    | cons h hs =>
      cases hr with
      | cons plain keeps top sized hr =>
        have hflat := ih hs hr hbelow
        rw [rowsBelow, ← hflat.rows] at sized
        by_cases hsub : l.needsSubquery below = true
        · rw [if_pos hsub] at hm
          subst hm
          have hinputs : inputs D { l with source := .subquery below.toQuery } =
              below.rowsOver D (below.inputs D) := hflat.plain.toQuery_rows
          refine ⟨⟨plain.ungrouped, plain.valued, plain.total⟩, ?_, ?_⟩
          · rw [hinputs, rowsBelow, ← hflat.rows]
            rfl
          · rw [hinputs]
            exact ⟨sized.offset, sized.free⟩
        · rw [if_neg hsub] at hm
          have hmerged : l.needsSubquery below = false := by simpa using hsub
          obtain ⟨below', hbelow', halike⟩ := AllAlike.flattenAll hs hbelow
          obtain rfl := Except.ok.inj (hbelow.symm.trans hbelow')
          have hinputs : m.inputs D = below.inputs D := by
            obtain ⟨ks, top, offset, limit, -, -, -, -, rfl⟩ := merge_eq_ok.mp hm
            rfl
          obtain ⟨hrows, hsized⟩ := rowsOver_merge hD hc h halike (names_flattenAll hbelow) plain
            hflat.plain hcomp hmerged hm (keeps below hbelow hmerged)
            (fun ho => top ((bounded_of_flattenAll hbelow).2 ho)) sized hflat.sized
          refine ⟨Plain.merge plain hflat.plain hm (row_isAggregate hcomp.aggregate), ?_,
            hinputs ▸ hsized⟩
          rw [hinputs, hrows, rowsBelow, hflat.rows]

end Layer

/-! ## Stages -/

/-- The rows of a stage. -/
def Stage.rows (D : Database V) (s : Stage) : List V :=
  s.layer.rowsOver D (s.layer.rowsBelow D s.below)

/-- **The query of a stage has the rows of the stage.** -/
theorem Stage.toQuery_rows (hD : D.Lawful) (hc : c.Plain) {s : Stage} (h : Stage.Alike c s s)
    (hr : Layer.Mergeable D s.layers) {q : Query} (hq : s.toQuery = .ok q) :
    q.rows D D.nothing = s.rows D := by
  obtain ⟨m, hm, hq⟩ := bind_eq_ok.mp hq
  obtain rfl := Except.ok.inj hq
  have hflat := Layer.AllAlike.flattened hD hc h hr hm
  rw [hflat.plain.toQuery_rows, hflat.rows]
  rfl

end LambdaQuery
