import LambdaQuery.Proofs.Alike.Merged
import LambdaQuery.Proofs.Alike.Outcome
import LambdaQuery.Proofs.Edits

/-!
# Two runs of changes of a stage

`Setting.Staged`: two stages that come out of two runs are alike, and the compilation sees the same
of their rows. A `Clause` is a scalar that may enter the upper layer: one of a lambda whose
parameter stands for the rows (`Outcome.clause`). Every change of a stage by clauses keeps `Staged`.
-/

set_option autoImplicit false

namespace LambdaQuery

/-! ## Names of layers -/

namespace Layer

variable {l : Layer} {ns : List String}

/-- Every name of the layer is among `ns`, clause by clause. -/
structure Uses (l : Layer) (ns : List String) : Prop where
  name : l.name ∈ ns
  source : l.source.names ⊆ ns
  joins : joinNames l.joins ⊆ ns
  selection : ∀ s, l.selection = some s → s.names ⊆ ns
  filter : ∀ f, l.filter = some f → f.names ⊆ ns
  groupBy : Scalar.namesAll l.groupBy ⊆ ns
  orderBy : SortKey.namesAll l.orderBy ⊆ ns

theorem uses_iff : l.Uses ns ↔ l.names ⊆ ns := by
  constructor
  · intro h n hn
    rcases mem_names.mp hn with rfl | hn | hn | ⟨s, hs, hn⟩ | hn | hn | hn
    · exact h.name
    · exact h.source hn
    · exact h.joins hn
    · exact h.selection s hs hn
    · cases hf : l.filter with
      | none =>
        rw [hf] at hn
        cases hn
      | some f =>
        rw [hf] at hn
        exact h.filter f hf hn
    · exact h.groupBy hn
    · exact h.orderBy hn
  · intro h
    refine ⟨h l.name_mem_names, fun n hn => h ?_, fun n hn => h ?_, fun s hs n hn => h ?_,
      fun f hf n hn => h ?_, fun n hn => h ?_, fun n hn => h ?_⟩
    · exact mem_names.mpr (.inr (.inl hn))
    · exact mem_names.mpr (.inr (.inr (.inl hn)))
    · exact mem_names.mpr (.inr (.inr (.inr (.inl ⟨s, hs, hn⟩))))
    · exact mem_names.mpr (.inr (.inr (.inr (.inr (.inl (hf ▸ hn))))))
    · exact mem_names.mpr (.inr (.inr (.inr (.inr (.inr (.inl hn))))))
    · exact mem_names.mpr (.inr (.inr (.inr (.inr (.inr (.inr hn))))))

theorem Uses.ofSource {name : String} {source : LayerSource} (hn : name ∈ ns)
    (hs : source.names ⊆ ns) : (ofSource name source).Uses ns :=
  ⟨hn, hs, List.nil_subset _, fun _ h => (nomatch h), fun _ h => (nomatch h), List.nil_subset _,
    List.nil_subset _⟩

theorem Alike.ofSource {c : Likeness} {n m : String} {source source' : LayerSource}
    (hn : c.Fresh [] n m) (hs : LayerSource.Alike c source source') :
    Layer.Alike c (.ofSource n source) (.ofSource m source') :=
  ⟨hn, hs, .nil, .none, .none, .nil, .nil, rfl, .none, .none, .none⟩

/-- The value that the rows are, where one is selected. -/
theorem row_of_value {v : Scalar} (h : l.selection.bind (·.value?) = some v) : l.row = v := by
  unfold row
  rw [h]

theorem row_addJoin (l : Layer) (name : String) (path : Scalar) :
    row { l with joins := l.joins ++ [(name, path)] } =
      (l.selection.bind (·.value?)).getD (.ref name) := by
  unfold row lastName
  cases l.selection.bind (·.value?) <;> simp

theorem Alike.rowValue {c : Likeness} {l l' : Layer} (h : Layer.Alike c l l') :
    l.selection.bind (·.value?) = none ∧ l'.selection.bind (·.value?) = none ∨
      ∃ v w, l.selection.bind (·.value?) = some v ∧ l'.selection.bind (·.value?) = some w := by
  rcases optionRel_cases h.selection with ⟨h₁, h₂⟩ | ⟨s, t, h₁, h₂, hs⟩
  · rw [h₁, h₂]
    exact .inl ⟨rfl, rfl⟩
  · rw [h₁, h₂, Option.bind_some, Option.bind_some]
    rcases optionRel_cases hs.value with ⟨hv, hw⟩ | ⟨v, w, hv, hw, -⟩
    · exact .inl ⟨hv, hw⟩
    · exact .inr ⟨v, w, hv, hw⟩

namespace Uses

variable (h : l.Uses ns)

include h

theorem names_row : l.row.names ⊆ ns := fun _ hn => uses_iff.mp h (l.names_row hn)

theorem addFilter {f : Scalar} (hf : f.names ⊆ ns) :
    Layer.Uses
      { l with filter := some (match l.filter with
          | some existing => .and existing f
          | none => f) } ns := by
  refine { h with filter := fun g hg => ?_ }
  obtain rfl := Option.some.inj hg
  cases hl : l.filter with
  | none => exact hf
  | some e => exact List.append_subset.mpr ⟨h.filter e hl, hf⟩

theorem setSelection {sel : Selection} (hs : sel.names ⊆ ns) :
    Layer.Uses { l with selection := some sel } ns := by
  refine { h with selection := fun s hs' => ?_ }
  obtain rfl := Option.some.inj hs'
  exact hs

theorem addJoin {name : String} {path : Scalar} (hn : name ∈ ns) (hp : path.names ⊆ ns) :
    Layer.Uses { l with joins := l.joins ++ [(name, path)] } ns := by
  refine { h with joins := ?_ }
  rw [joinNames, List.flatMap_append]
  refine List.append_subset.mpr ⟨h.joins, ?_⟩
  rw [List.flatMap_singleton]
  exact List.cons_subset.mpr ⟨hn, hp⟩

theorem setOrderBy {ks : List SortKey} (hk : ∀ k ∈ ks, k.value.names ⊆ ns) :
    Layer.Uses { l with orderBy := ks } ns := by
  refine { h with orderBy := fun n hn => ?_ }
  obtain ⟨k, hk', hn⟩ := SortKey.mem_namesAll.mp hn
  exact hk k hk' hn

theorem key {k : SortKey} (hk : k ∈ l.orderBy) : k.value.names ⊆ ns := fun _ hn =>
  h.orderBy (SortKey.mem_namesAll.mpr ⟨k, hk, hn⟩)

end Uses

end Layer

namespace Setting

variable (κ : Setting)

/-! ## Stages -/

/-- What scalars in the upper layer of a stage are alike up to. -/
def upper (qs : List QueryParameter) (F : Frame) (st st' : Stage) : Likeness :=
  (κ.likeness qs F).reserve (Layer.allNames st.below) (Layer.allNames st'.below)

/-- Stages that come out alike. Unless an aggregate may be selected, the rows are none. -/
structure Staged (F : Frame) (t t' : Scope) (final : Prop) (st st' : Stage) : Prop where
  alike : Stage.Alike (κ.likeness t'.parameters F) st st'
  left : Layer.allNames st.layers ⊆ t.live
  right : Layer.allNames st'.layers ⊆ t'.names
  row : κ.Facts st.layer.row st'.layer.row
  single : t'.group = none → ¬final → st'.layer.hasGroupBy = false →
    st'.layer.row.isAggregate = false

/-- Scalars that may enter the upper layers of two stages. -/
structure Clause (F : Frame) (t t' : Scope) (st st' : Stage) (a b : Scalar) : Prop
    extends κ.Seen t t' a b where
  alike : Scalar.Alike (κ.upper t'.parameters F st st') (st.layer.context st'.layer) a b

/-- What a frame has beyond `F` may enter the upper layers of two stages. -/
def Sees (F G : Frame) (t t' : Scope) (st st' : Stage) : Prop :=
  ∀ p ∈ G.pairs, p ∈ F.pairs ∨ κ.Clause F t t' st st' p.1 p.2

variable {κ} {F G : Frame} {s s' t t' : Scope} {final : Prop} {st st' : Stage} {a b : Scalar}

theorem upper_le {qs rs : List QueryParameter} (h : qs <+: rs) (F : Frame) (st st' : Stage) :
    (κ.upper qs F st st').Le (κ.upper rs F st st') :=
  (likeness_le h F).reserve _ _

theorem Clause.step (h : κ.Clause F s s' st st' a b) (hs : κ.Step s s' t t') :
    κ.Clause F t t' st st' a b where
  toSeen := h.toSeen.step hs
  alike := h.alike.mono (upper_le hs.right.parameters F st st')

theorem Sees.step (h : κ.Sees F G s s' st st') (hs : κ.Step s s' t t') :
    κ.Sees F G t t' st st' :=
  fun p hp => (h p hp).imp_right fun h => h.step hs

namespace Staged

theorem step (h : κ.Staged F s s' final st st') (hs : κ.Step s s' t t') :
    κ.Staged F t t' final st st' where
  alike := Layer.AllAlike.mono (likeness_le hs.right.parameters F) h.alike
  left := List.Subset.trans h.left hs.left.live
  right := List.Subset.trans h.right hs.right.names
  row := h.row
  single := by
    rw [hs.right.group]
    exact h.single

theorem layer (h : κ.Staged F t t' final st st') :
    Layer.Alike (κ.upper t'.parameters F st st') st.layer st'.layer := by
  cases h.alike with
  | cons h _ => exact h

theorem below (h : κ.Staged F t t' final st st') :
    Layer.AllAlike (κ.likeness t'.parameters F) st.below st'.below := by
  cases h.alike with
  | cons _ h => exact h

theorem uses (h : κ.Staged F t t' final st st') : st.layer.Uses t.live :=
  Layer.uses_iff.mpr fun _ hn => h.left (List.mem_append_left _ hn)

theorem uses' (h : κ.Staged F t t' final st st') : st'.layer.Uses t'.names :=
  Layer.uses_iff.mpr fun _ hn => h.right (List.mem_append_left _ hn)

theorem belowNames (h : κ.Staged F t t' final st st') : Layer.allNames st.below ⊆ t.live :=
  fun _ hn => h.left (List.mem_append_right _ hn)

theorem belowNames' (h : κ.Staged F t t' final st st') : Layer.allNames st'.below ⊆ t'.names :=
  fun _ hn => h.right (List.mem_append_right _ hn)

/-- The rows may enter the layer. -/
theorem rowClause (h : κ.Staged F t t' final st st') :
    κ.Clause F t t' st st' st.layer.row st'.layer.row where
  facts := h.row
  left := fun _ hn => h.left (List.mem_append_left _ (st.layer.names_row hn))
  right := fun _ hn => h.right (List.mem_append_left _ (st'.layer.names_row hn))
  alike := h.layer.row

/-- A changed upper layer over the same layers. -/
theorem mapLayer (h : κ.Staged F t t' final st st') {final' : Prop} {f f' : Layer → Layer}
    (hlayer : Layer.Alike (κ.upper t'.parameters F st st') (f st.layer) (f' st'.layer))
    (hleft : (f st.layer).Uses t.live) (hright : (f' st'.layer).Uses t'.names)
    (hrow : κ.Facts (f st.layer).row (f' st'.layer).row)
    (hsingle : t'.group = none → ¬final' → (f' st'.layer).hasGroupBy = false →
      (f' st'.layer).row.isAggregate = false) :
    κ.Staged F t t' final' (st.mapLayer f) (st'.mapLayer f') where
  alike := .cons hlayer h.below
  left := List.append_subset.mpr ⟨Layer.uses_iff.mp hleft, h.belowNames⟩
  right := List.append_subset.mpr ⟨Layer.uses_iff.mp hright, h.belowNames'⟩
  row := hrow
  single := hsingle

end Staged

/-! ## Clauses -/

/-- What is made of the names in use and of the pairs of a frame that sees into the layer may enter
it: the pairs are no leaves any more. -/
theorem Seen.clause (h : κ.Seen t t' a b)
    (halike : Scalar.Alike (κ.likeness t'.parameters (G.reserved s s')) [] a b)
    (hF : F.Within s s') (hst : κ.Staged F s s' final st st') (hsees : κ.Sees F G s s' st st')
    (hs : κ.Step s s' t t') : κ.Clause F t t' st st' a b where
  toSeen := h
  alike := by
    have hg : (κ.likeness t'.parameters (G.reserved s s')).Grafts
        (κ.upper t'.parameters F st st') (st.layer.context st'.layer) := by
      refine ⟨fun a b hab => ?_, fun _ _ hc => hc, id, id, ?_, ?_, fun p hp => ?_⟩
      · rcases hab with hab | ⟨hab, ha, hb⟩
        · exact .inl (.inl hab)
        · rcases hsees _ hab with hmem | hclause
          · exact .inl (.inr ⟨hmem, hF.names _ hmem⟩)
          · exact .inr ⟨(hclause.step hs).alike, ha, hb⟩
      · exact List.append_subset.mpr ⟨hF.left, List.Subset.trans hst.belowNames s.live_subset⟩
      · exact List.append_subset.mpr ⟨hF.right, hst.belowNames'⟩
      · obtain ⟨h₁, h₂⟩ := Layer.context_bound hp
        exact ⟨s.live_subset (Layer.uses_iff.mp hst.uses h₁), Layer.uses_iff.mp hst.uses' h₂⟩
    exact halike.graft hg fun p hp => nomatch hp

/-- **What comes out of a lambda over the rows may enter the layer.** -/
theorem Outcome.clause (h : κ.Outcome (G.reserved s s') t t' a b) (hF : F.Within s s')
    (hst : κ.Staged F s s' final st st') (hsees : κ.Sees F G s s' st st')
    (hs : κ.Step s s' t t') : κ.Clause F t t' st st' a b :=
  h.toSeen.clause h.alike hF hst hsees hs

/-- A clause may still enter a layer of which the sources have not changed. -/
theorem Clause.mapLayer {f f' : Layer → Layer} (h : κ.Clause F t t' st st' a b)
    (hc : (f st.layer).context (f' st'.layer) = st.layer.context st'.layer) :
    κ.Clause F t t' (st.mapLayer f) (st'.mapLayer f') a b where
  toSeen := h.toSeen
  alike := by
    rw [Stage.mapLayer, Stage.mapLayer, hc]
    exact h.alike

/-! ## Changes -/

namespace Staged

variable (h : κ.Staged F t t' final st st')

include h

theorem addWhere (hc : κ.Clause F t t' st st' a b) :
    κ.Staged F t t' final (st.addWhere a) (st'.addWhere b) :=
  h.mapLayer (h.layer.addFilter hc.alike) (h.uses.addFilter hc.left) (h.uses'.addFilter hc.right)
    h.row h.single

/-- A selection of alike values. -/
theorem setSelection {final' : Prop} {x y : Selection} {v w : Scalar} (hx : x.value? = some v)
    (hy : y.value? = some w) (hc : κ.Clause F t t' st st' v w) (hd : x.distinct = y.distinct)
    (hsingle : t'.group = none → ¬final' → st'.layer.hasGroupBy = false →
      w.isAggregate = false) :
    κ.Staged F t t' final' (st.mapLayer fun l => { l with selection := some x })
      (st'.mapLayer fun l => { l with selection := some y }) := by
  have hnames : ∀ {x : Selection} {v : Scalar}, x.value? = some v → x.names = v.names := by
    intro x v hx
    obtain ⟨projection, distinct, top⟩ := x
    cases projection with
    | star => cases hx
    | value v' =>
      obtain rfl := Option.some.inj hx
      rfl
  have hrow : ∀ {x : Selection} {v : Scalar} (l : Layer), x.value? = some v →
      Layer.row { l with selection := some x } = v := by
    intro x v l hx
    unfold Layer.row
    rw [Option.bind_some, hx]
  refine h.mapLayer (h.layer.select ⟨?_, hd⟩) (h.uses.setSelection ?_) (h.uses'.setSelection ?_)
    ?_ fun hg hf hgb => ?_
  · rw [hx, hy]
    exact .some ⟨hc.alike, hc.facts.aggregate⟩
  · rw [hnames hx]
    exact hc.left
  · rw [hnames hy]
    exact hc.right
  · rw [hrow _ hx, hrow _ hy]
    exact hc.facts
  · rw [hrow _ hy]
    exact hsingle hg hf hgb

theorem addSelect {final' : Prop} (hc : κ.Clause F t t' st st' a b)
    (hsingle : t'.group = none → ¬final' → st'.layer.hasGroupBy = false → b.isAggregate = false)
    {u' : Stage} (hu : Stage.addSelect (.ofValue b) st' = (.ok (), u')) :
    ∃ u, Stage.addSelect (.ofValue a) st = (.ok (), u) ∧ κ.Staged F t t' final' u u' := by
  obtain ⟨hnone, rfl⟩ := Stage.addSelect_eq_ok.mp hu
  rw [← optionRel_isSome h.layer.selection] at hnone
  exact ⟨_, Stage.addSelect_eq_ok.mpr ⟨hnone, rfl⟩,
    h.setSelection rfl rfl hc rfl hsingle⟩

theorem replaceSelect (hc : κ.Clause F t t' st st' a b)
    (hsingle : t'.group = none → b.isAggregate = false) :
    κ.Staged F t t' final (st.replaceSelect a) (st'.replaceSelect b) := by
  refine h.setSelection ?_ ?_ hc ?_ fun hg _ _ => hsingle hg
  · cases st.layer.selection <;> rfl
  · cases st'.layer.selection <;> rfl
  · rcases optionRel_cases h.layer.selection with ⟨h₁, h₂⟩ | ⟨x, y, h₁, h₂, hxy⟩
    · rw [h₁, h₂]
      rfl
    · rw [h₁, h₂]
      exact hxy.distinct

theorem setDistinct : κ.Staged F t t' final st.setDistinct st'.setDistinct := by
  have hrow : ∀ l : Layer, Layer.row
      { l with selection := some { l.selection.getD (.ofValue l.row) with distinct := true } } =
        l.row := by
    intro l
    unfold Layer.row
    cases hs : l.selection with
    | none => rfl
    | some x =>
      obtain ⟨projection, distinct, top⟩ := x
      rfl
  have hnames : ∀ {l : Layer} {ns : List String}, l.Uses ns →
      Selection.names { l.selection.getD (.ofValue l.row) with distinct := true } ⊆ ns := by
    intro l ns hl
    cases hs : l.selection with
    | none => exact hl.names_row
    | some x =>
      obtain ⟨projection, distinct, top⟩ := x
      show Selection.names ⟨projection, true, top⟩ ⊆ ns
      exact hl.selection ⟨projection, distinct, top⟩ hs
  refine h.mapLayer (h.layer.setDistinct h.row.aggregate) (h.uses.setSelection (hnames h.uses))
    (h.uses'.setSelection (hnames h.uses')) ?_ ?_
  · rw [hrow, hrow]
    exact h.row
  · rw [hrow]
    exact h.single

/-- Grouping by a key. What is selected before does not count any more. -/
theorem addGroupBy (hc : κ.Clause F t t' st st' a b) {u' : Stage}
    (hu : Stage.addGroupBy b st' = (.ok (), u')) :
    ∃ u, Stage.addGroupBy a st = (.ok (), u) ∧
      u = st.mapLayer (fun l => { l with groupBy := [a] }) ∧
      u' = st'.mapLayer (fun l => { l with groupBy := [b] }) ∧ κ.Staged F t t' final u u' := by
  obtain ⟨hnone, rfl⟩ := Stage.addGroupBy_eq_ok.mp hu
  have hgroup : st.layer.hasGroupBy = false := by
    rw [h.layer.hasGroupBy]
    exact hnone
  refine ⟨_, Stage.addGroupBy_eq_ok.mpr ⟨hgroup, rfl⟩, rfl, rfl, ?_⟩
  refine h.mapLayer { h.layer with groupBy := .cons hc.alike .nil } { h.uses with groupBy := ?_ }
    { h.uses' with groupBy := ?_ } h.row fun _ _ hgb => nomatch hgb
  · exact List.append_subset.mpr ⟨hc.left, List.nil_subset _⟩
  · exact List.append_subset.mpr ⟨hc.right, List.nil_subset _⟩

theorem addOrderBy (hc : κ.Clause F t t' st st' a b) (descending : Bool) :
    κ.Staged F t t' final (st.addOrderBy ⟨a, descending⟩) (st'.addOrderBy ⟨b, descending⟩) := by
  refine h.mapLayer (h.layer.orderBy' (.cons hc.alike .nil) rfl) (h.uses.setOrderBy ?_)
    (h.uses'.setOrderBy ?_) h.row h.single
  · intro k hk
    obtain rfl := List.mem_singleton.mp hk
    exact hc.left
  · intro k hk
    obtain rfl := List.mem_singleton.mp hk
    exact hc.right

theorem thenBy (hc : κ.Clause F t t' st st' a b) (descending : Bool) {u' : Stage}
    (hu : Stage.thenBy ⟨b, descending⟩ st' = (.ok (), u')) :
    ∃ u, Stage.thenBy ⟨a, descending⟩ st = (.ok (), u) ∧ κ.Staged F t t' final u u' := by
  obtain ⟨hnone, rfl⟩ := Stage.thenBy_eq_ok.mp hu
  rw [← h.layer.orderBy_isEmpty] at hnone
  refine ⟨_, Stage.thenBy_eq_ok.mpr ⟨hnone, rfl⟩, ?_⟩
  refine h.mapLayer (h.layer.orderBy' ?_ ?_) (h.uses.setOrderBy ?_) (h.uses'.setOrderBy ?_)
    h.row h.single
  · rw [List.map_append, List.map_append]
    exact h.layer.orderBy.append (.cons hc.alike .nil)
  · rw [List.map_append, List.map_append, h.layer.descending]
    rfl
  · intro k hk
    rcases List.mem_append.mp hk with hk | hk
    · exact h.uses.key hk
    · obtain rfl := List.mem_singleton.mp hk
      exact hc.left
  · intro k hk
    rcases List.mem_append.mp hk with hk | hk
    · exact h.uses'.key hk
    · obtain rfl := List.mem_singleton.mp hk
      exact hc.right

theorem addLimit {n n' : Count} (hn : κ.count t'.parameters n n') {u' : Stage}
    (hu : Stage.addLimit n' st' = (.ok (), u')) :
    ∃ u, Stage.addLimit n st = (.ok (), u) ∧ κ.Staged F t t' final u u' := by
  obtain ⟨limit', hlimit', rfl⟩ := Stage.addLimit_eq_ok.mp hu
  obtain ⟨limit, hlimit, hr⟩ := Count.min?_combines.alike h.layer.limit (.some hn) hlimit'
  exact ⟨_, Stage.addLimit_eq_ok.mpr ⟨limit, hlimit, rfl⟩,
    h.mapLayer { h.layer with limit := hr } { h.uses with } { h.uses' with } h.row h.single⟩

theorem addOffset {n n' : Count} (hn : κ.count t'.parameters n n') {u' : Stage}
    (hu : Stage.addOffset n' st' = (.ok (), u')) :
    ∃ u, Stage.addOffset n st = (.ok (), u) ∧ κ.Staged F t t' final u u' := by
  obtain ⟨offset', hoffset', rfl⟩ := Stage.addOffset_eq_ok.mp hu
  obtain ⟨offset, hoffset, hr⟩ := Count.sum?_combines.alike h.layer.offset (.some hn) hoffset'
  exact ⟨_, Stage.addOffset_eq_ok.mpr ⟨offset, hoffset, rfl⟩,
    h.mapLayer { h.layer with offset := hr } { h.uses with } { h.uses' with } h.row h.single⟩

theorem hasOffset : st.hasOffset = st'.hasOffset := by
  have hall : ∀ {c : Likeness} {ls ls' : List Layer}, Layer.AllAlike c ls ls' →
      ls.any (·.offset.isSome) = ls'.any (·.offset.isSome) := by
    intro c ls ls' h
    induction h with
    | nil => rfl
    | cons h hs ih => rw [List.any_cons, List.any_cons, ih, optionRel_isSome h.offset]
  exact hall h.alike

theorem hasTop : st.hasTop = st'.hasTop := by
  have hall : ∀ {c : Likeness} {ls ls' : List Layer}, Layer.AllAlike c ls ls' →
      ls.any (·.hasTop) = ls'.any (·.hasTop) := by
    intro c ls ls' h
    induction h with
    | nil => rfl
    | cons h hs ih => rw [List.any_cons, List.any_cons, ih, h.hasTop]
  exact hall h.alike

theorem addTop {n n' : Count} (hn : κ.count t'.parameters n n') {u' : Stage}
    (hu : Stage.addTop n' st' = (.ok (), u')) :
    ∃ u, Stage.addTop n st = (.ok (), u) ∧ κ.Staged F t t' final u u' := by
  have hu := Stage.addTop_eq_ok.mp hu
  by_cases ho : st'.hasOffset = true
  · rw [if_pos ho] at hu
    obtain ⟨u, hu, hst⟩ := h.addLimit hn hu
    refine ⟨u, Stage.addTop_eq_ok.mpr ?_, hst⟩
    rw [h.hasOffset, if_pos ho]
    exact hu
  · rw [if_neg ho] at hu
    obtain ⟨top', htop', rfl⟩ := hu
    obtain ⟨top, htop, hr⟩ := Count.min?_combines.alike h.layer.top (.some hn) htop'
    have hst : κ.Staged F t t' final (st.mapLayer ({ · with top := top }))
        (st'.mapLayer ({ · with top := top' })) :=
      h.mapLayer { h.layer with top := hr } { h.uses with } { h.uses' with } h.row h.single
    refine ⟨_, Stage.addTop_eq_ok.mpr ?_, hst⟩
    rw [h.hasOffset, if_neg ho]
    exact ⟨top, htop, rfl⟩

/-! ## New layers and joins -/

/-- Whether an operator needs a layer of its own is the same on both sides. -/
theorem needsLayer (method : String) (argCount : Nat) :
    st.needsLayer method argCount = st'.needsLayer method argCount := by
  have hplain : st.layer.selection.any (!·.distinct) = st'.layer.selection.any (!·.distinct) := by
    rcases optionRel_cases h.layer.selection with ⟨h₁, h₂⟩ | ⟨x, y, h₁, h₂, hxy⟩
    · rw [h₁, h₂]
    · rw [h₁, h₂, Option.any_some, Option.any_some, hxy.distinct]
  simp only [Stage.needsLayer]
  rw [hplain, optionRel_isSome h.layer.selection, optionRel_isSome h.layer.offset,
    optionRel_isSome h.layer.top, optionRel_isSome h.layer.limit, h.layer.orderBy_isEmpty]

theorem hasGroupBy : st.layer.hasGroupBy = st'.layer.hasGroupBy := h.layer.hasGroupBy

omit h

/-- A layer without clauses over the stage, under fresh names. -/
theorem package (h : κ.Staged F s s' final st st') (hst : κ.Step s s' t t') {n m : String}
    (hn : κ.Fresh s s' t t' n m) (hF : F.Within s s') :
    κ.Staged F t t' False (st.package n) (st'.package m) where
  alike := by
    refine .cons (.ofSource ⟨fun h' => ?_, fun h' => ?_, fun _ hp => (nomatch hp), hn.named⟩
      .container) (h.step hst).alike
    · rcases List.mem_append.mp h' with h' | h'
      · exact hn.left (hF.left h')
      · exact hn.notLive (h.left h')
    · rcases List.mem_append.mp h' with h' | h'
      · exact hn.right (hF.right h')
      · exact hn.right (h.right h')
  left := List.append_subset.mpr ⟨Layer.uses_iff.mp (.ofSource hn.mem_left (List.nil_subset _)),
    (h.step hst).left⟩
  right := List.append_subset.mpr ⟨Layer.uses_iff.mp (.ofSource hn.mem_right (List.nil_subset _)),
    (h.step hst).right⟩
  row := .of_form rfl rfl rfl rfl rfl rfl
  single _ _ _ := rfl

/-- The items of alike arrays. -/
theorem overItems {n m : String} (hp : κ.Outcome F t t' a b) (hn : κ.Fresh s s' t t' n m)
    (hF : F.Within s s') :
    κ.Staged F t t' False (.overItems n a) (.overItems m b) where
  alike := by
    have hle : (κ.likeness t'.parameters F).Le ((κ.likeness t'.parameters F).reserve [] []) :=
      ⟨fun _ _ h => h, fun _ _ h => h, id, id,
        List.append_subset.mpr ⟨List.Subset.refl _, List.nil_subset _⟩,
        List.append_subset.mpr ⟨List.Subset.refl _, List.nil_subset _⟩⟩
    refine .cons (.ofSource ⟨fun h' => ?_, fun h' => ?_, fun _ hp => (nomatch hp), hn.named⟩
      (.items (hp.alike.mono hle))) .nil
    · rcases List.mem_append.mp h' with h' | h'
      · exact hn.left (hF.left h')
      · cases h'
    · rcases List.mem_append.mp h' with h' | h'
      · exact hn.right (hF.right h')
      · cases h'
  left := List.append_subset.mpr ⟨Layer.uses_iff.mp (.ofSource hn.mem_left hp.left),
    List.nil_subset _⟩
  right := List.append_subset.mpr ⟨Layer.uses_iff.mp (.ofSource hn.mem_right hp.right),
    List.nil_subset _⟩
  row := .of_form rfl rfl rfl rfl rfl rfl
  single _ _ _ := rfl

/-- The rows of the container, under a name that is not reserved. -/
theorem root (hl : Stage.rootName ∉ F.left) (hr : Stage.rootName ∉ F.right)
    (hmem : Stage.rootName ∈ t.live) (hmem' : Stage.rootName ∈ t'.names) :
    κ.Staged F t t' False .root .root where
  alike := by
    refine .cons (.ofSource ⟨fun h' => ?_, fun h' => ?_, fun _ hp => (nomatch hp), fun _ => rfl⟩
      .container) .nil
    · rcases List.mem_append.mp h' with h' | h'
      · exact hl h'
      · cases h'
    · rcases List.mem_append.mp h' with h' | h'
      · exact hr h'
      · cases h'
  left := List.append_subset.mpr ⟨Layer.uses_iff.mp (.ofSource hmem (List.nil_subset _)),
    List.nil_subset _⟩
  right := List.append_subset.mpr ⟨Layer.uses_iff.mp (.ofSource hmem' (List.nil_subset _)),
    List.nil_subset _⟩
  row := .of_form rfl rfl rfl rfl rfl rfl
  single _ _ _ := rfl

/-- A join of alike arrays, under fresh names. -/
theorem addJoin (h : κ.Staged F s s' final st st') (hst : κ.Step s s' t t') {n m : String}
    (hp : κ.Clause F s s' st st' a b) (hn : κ.Fresh s s' t t' n m)
    (hF : F.Within s s') :
    κ.Staged F t t' final (st.addJoin n a) (st'.addJoin m b) := by
  have h' := h.step hst
  have hnew : n ∉ st.layer.names ∧ m ∉ st'.layer.names :=
    ⟨fun hm => hn.notLive (Layer.uses_iff.mp h.uses hm),
      fun hm => hn.right (Layer.uses_iff.mp h.uses' hm)⟩
  have hfresh : (κ.upper t'.parameters F st st').Fresh (st.layer.context st'.layer) n m := by
    refine ⟨fun hm => ?_, fun hm => ?_, fun p hp => ?_, hn.named⟩
    · rcases List.mem_append.mp hm with hm | hm
      · exact hn.left (hF.left hm)
      · exact hn.notLive (h.belowNames hm)
    · rcases List.mem_append.mp hm with hm | hm
      · exact hn.right (hF.right hm)
      · exact hn.right (h.belowNames' hm)
    · obtain ⟨h₁, h₂⟩ := Layer.context_bound hp
      exact ⟨fun he => hnew.1 (he ▸ h₁), fun he => hnew.2 (he ▸ h₂)⟩
  refine h'.mapLayer (h'.layer.addJoin (hp.step hst).alike hfresh hnew.1 hnew.2)
    (h'.uses.addJoin hn.mem_left (hp.step hst).left)
    (h'.uses'.addJoin hn.mem_right (hp.step hst).right) ?_ ?_
  all_goals rw [Layer.row_addJoin]
  · rw [Layer.row_addJoin]
    rcases h'.layer.rowValue with ⟨h₁, h₂⟩ | ⟨v, w, h₁, h₂⟩
    · rw [h₁, h₂]
      exact .of_form rfl rfl rfl rfl rfl rfl
    · have hrow := h'.row
      rw [Layer.row_of_value h₁, Layer.row_of_value h₂] at hrow
      rw [h₁, h₂]
      exact hrow
  · intro hg hf hgb
    rcases h'.layer.rowValue with ⟨h₁, h₂⟩ | ⟨v, w, h₁, h₂⟩
    · rw [h₂]
      rfl
    · have hsingle := h'.single hg hf hgb
      rw [Layer.row_of_value h₂] at hsingle
      rw [h₂]
      exact hsingle

end Staged

/-- A clause stays one when an array is joined under fresh names. -/
theorem Clause.addJoin {a' b' : Scalar} (h : κ.Staged F s s' final st st')
    (hst : κ.Step s s' t t') {n m : String} (hn : κ.Fresh s s' t t' n m)
    (hc : κ.Clause F s s' st st' a b) :
    κ.Clause F t t' (st.addJoin n a') (st'.addJoin m b') a b where
  toSeen := hc.toSeen.step hst
  alike := by
    have hctx := h.layer.context_addJoin n m a' b'
    show Scalar.Alike _ (Layer.context _ _) a b
    rw [Stage.addJoin, Stage.addJoin, Stage.mapLayer, Stage.mapLayer, hctx]
    refine (hc.step hst).alike.weaken (.refl _) (List.subset_cons_self ..) fun p hp => ?_
    rcases List.mem_cons.mp hp with rfl | hp
    · exact .inr ⟨fun h => hn.notLive (hc.left h), fun h => hn.right (hc.right h)⟩
    · exact .inl hp

theorem Sees.addJoin {a' b' : Scalar} (h : κ.Staged F s s' final st st')
    (hst : κ.Step s s' t t') {n m : String} (hn : κ.Fresh s s' t t' n m)
    (hs : κ.Sees F G s s' st st') : κ.Sees F G t t' (st.addJoin n a') (st'.addJoin m b') :=
  fun p hp => (hs p hp).imp_right fun hc => hc.addJoin h hst hn

/-- The name of a joined array's items may enter the layer. -/
theorem Clause.item {a' b' : Scalar} (h : κ.Staged F s s' final st st') {n m : String}
    (hn : κ.Fresh s s' t t' n m) :
    κ.Clause F t t' (st.addJoin n a') (st'.addJoin m b') (.ref n) (.ref m) where
  facts := .of_form rfl rfl rfl rfl rfl rfl
  left := fun x hx => List.mem_singleton.mp hx ▸ hn.mem_left
  right := fun x hx => List.mem_singleton.mp hx ▸ hn.mem_right
  alike := by
    rw [Stage.addJoin, Stage.addJoin, Stage.mapLayer, Stage.mapLayer,
      h.layer.context_addJoin n m a' b']
    exact .ref List.mem_cons_self

theorem Sees.refl (F : Frame) (t t' : Scope) (st st' : Stage) : κ.Sees F F t t' st st' :=
  fun _ hp => .inl hp

theorem Sees.bind (hs : κ.Sees F G t t' st st') (hc : κ.Clause F t t' st st' a b) :
    κ.Sees F (G.bind a b) t t' st st' := by
  intro p hp
  rcases List.mem_cons.mp hp with rfl | hp
  · exact .inr hc
  · exact hs p hp

/-! ## Flattening -/

theorem reserved_le (h : F.Within s s') (qs : List QueryParameter) :
    (κ.likeness qs (F.reserved s s')).Le (κ.likeness qs F) where
  leaf _ _ hab := hab.imp_right fun ⟨hmem, _⟩ => ⟨hmem, h.names _ hmem⟩
  count _ _ := id
  negation := id
  named := id
  left := h.left
  right := h.right

/-- Names of merged layers that were not in use before the stage was built are not live any more,
and no others. -/
theorem Staged.keeps_flattened (h : κ.Staged (F.reserved s s') t t' final st st')
    (hs : κ.Step s s' t t') {q : Query} (hq : st.toQuery = .ok q) :
    s.Keeps { t with merged := st.merged ++ t.merged } ∧
      q.names ⊆ Scope.live { t with merged := st.merged ++ t.merged } := by
  have hmerged : ∀ {n}, n ∈ st.merged → n ∉ q.names ∧ n ∉ s.names ∧ n ∈ t.names := fun hn =>
    let ⟨hnot, hleft, hall⟩ := h.alike.notMem_merged hq hn
    ⟨hnot, hleft, t.live_subset (h.left hall)⟩
  have hlive : ∀ {n}, n ∈ t.live → n ∉ st.merged →
      n ∈ Scope.live { t with merged := st.merged ++ t.merged } := by
    intro n hn hnot
    obtain ⟨hn, hm⟩ := Scope.mem_live.mp hn
    exact Scope.mem_live.mpr ⟨hn, fun hmem => (List.mem_append.mp hmem).elim hnot hm⟩
  refine ⟨{ hs.left with merged := fun hsm => ?_, live := fun n hn => ?_ }, fun n hn => ?_⟩
  · exact List.append_subset.mpr ⟨fun n hn => (hmerged hn).2.2, hs.left.merged hsm⟩
  · exact hlive (hs.left.live hn) fun hm => (hmerged hm).2.1 (s.live_subset hn)
  · exact hlive (h.left (Stage.names_toQuery hq hn)) fun hm => (hmerged hm).1 hn

theorem flattened_eq (st : Stage) (t : Scope) :
    Compilation.flattened st t =
      match st.toQuery with
      | .ok q => (.ok q, { t with merged := st.merged ++ t.merged })
      | .error e => (.error e, t) := by
  unfold Compilation.flattened
  rw [Compilation.run_bind]
  cases st.toQuery <;> rfl

/-- Going on with the query of a stage. -/
theorem Runs.flattened {α β : Type} {x y : Compilation Stage} {f : Query → Compilation α}
    {g : Query → Compilation β} {P : Scope → Scope → α → β → Prop} (hF : F.Within s s')
    (h : κ.Runs s s' x y fun t t' => κ.Staged (F.reserved s s') t t' final)
    (hf : ∀ t t' q r, κ.Step s s' t t' → Query.Alike (κ.likeness t'.parameters F) [] q r →
      q.names ⊆ t.live → r.names ⊆ t'.names → κ.Runs t t' (f q) (g r) P) :
    κ.Runs s s' (do let stage ← x; f (← Compilation.flattened stage))
      (do let stage ← y; g (← Compilation.flattened stage)) P := by
  intro b u' hy
  rw [Compilation.run_bind] at hy
  rcases hys : y s' with ⟨e | st', t'⟩
  · rw [hys] at hy
    cases hy
  rw [hys] at hy
  change (Compilation.flattened st' >>= g) t' = _ at hy
  rw [Compilation.run_bind, flattened_eq] at hy
  cases hr : st'.toQuery with
  | error e =>
    rw [hr] at hy
    cases hy
  | ok r =>
    rw [hr] at hy
    rcases h st' t' hys with ⟨st, t, hx, hst, hstaged⟩ | ⟨hl, e, t, hx⟩
    · obtain ⟨q, hq, halike⟩ := hstaged.alike.toQuery hr
      obtain ⟨hkeeps, hlive⟩ := hstaged.keeps_flattened hst hq
      have hstep : κ.Step s s' { t with merged := st.merged ++ t.merged }
          { t' with merged := st'.merged ++ t'.merged } :=
        ⟨hkeeps, { hst.right with }, hst.named, hst.reported⟩
      have hright : r.names ⊆ t'.names := List.Subset.trans (Stage.names_toQuery hr) hstaged.right
      have hgo := hf _ _ q r hstep (halike.mono (reserved_le hF _)) hlive hright b u' hy
      have hleft : (do let stage ← x; f (← Compilation.flattened stage)) s =
          f q { t with merged := st.merged ++ t.merged } := by
        rw [Compilation.run_bind, hx]
        show (Compilation.flattened st >>= f) t = _
        rw [Compilation.run_bind, flattened_eq, hq]
      rw [hleft]
      rcases hgo with ⟨a, u, hu, hsu, hp⟩ | hgo
      · exact .inl ⟨a, u, hu, hstep.trans hsu, hp⟩
      · exact .inr hgo
    · exact .inr ⟨hl, e, t, by rw [Compilation.run_bind, hx]⟩

end Setting

end LambdaQuery
