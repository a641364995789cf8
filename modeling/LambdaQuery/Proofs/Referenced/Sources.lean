import LambdaQuery.Proofs.Computations
import LambdaQuery.Proofs.Kept.Stages
import LambdaQuery.Proofs.Within

/-!
# Where the rows of a nested query come from

No operator changes where the lowest layer of a stage takes its rows from (`Stage.origin`), and
flattening keeps that. So a nested query is built over the array that its chain starts from
(`Expr.origin`, `Compilation.within_nested`).
-/

set_option autoImplicit false

namespace LambdaQuery

/-- What a chain of operators starts from. -/
def Expr.origin : Expr → Expr
  | .call target m (source :: rest) ty =>
    if m.isOperator then source.origin else .call target m (source :: rest) ty
  | e => e

/-- What is no operator starts a chain. -/
theorem Expr.origin_of_not_operator {e : Expr} (h : ¬Compilation.isOperatorCall e = true) :
    e.origin = e := by
  cases e with
  | call target m args ty =>
    cases args with
    | nil => rfl
    | cons source rest => exact if_neg h
  | _ => rfl

theorem Expr.sizeOf_origin_le : ∀ e : Expr, sizeOf e.origin ≤ sizeOf e
  | .call target m (source :: rest) ty => by
    rw [origin]
    split
    · refine Nat.le_trans (sizeOf_origin_le source) ?_
      simp only [call.sizeOf_spec, List.cons.sizeOf_spec]
      omega
    · exact Nat.le_refl _
  | .call _ _ [] _ | .constant .. | .parameter .. | .member .. | .binary .. | .unary ..
  | .conditional .. | .construct .. | .memberInit .. | .listInit .. | .newArray .. | .lambda ..
  | .invoke .. => Nat.le_refl _

variable {r : Scalar}

/-- What is within a query is within the scalar of it. -/
theorem Scalar.Within.nested {q : Query} (h : r.Within (.subquery q)) (method : String) :
    r.Within (Compilation.nestedScalar method q) := by
  have harray : (Scalar.subquery q).Within (.arrayOf q) :=
    ⟨List.Subset.refl _, fun _ => List.Subset.refl _⟩
  unfold Compilation.nestedScalar
  split
  · exact h.trans ⟨List.Subset.refl _, fun _ => List.Subset.refl _⟩
  · exact h
  · exact h
  · exact h.trans (.index (.inl harray))
  · exact h.trans (.index (.inl harray))
  · exact h.trans (.index (.inl harray))
  · exact h.trans harray

/-! ## Stages -/

/-- The lowest of a layer and the layers below it. -/
def Layer.lowest (l : Layer) : List Layer → Layer
  | [] => l
  | next :: rest => next.lowest rest

/-- Where the lowest layer takes its rows from. -/
def Stage.origin (s : Stage) : LayerSource := (s.layer.lowest s.below).source

namespace Stage

variable {s u : Stage}

theorem origin_package (name : String) : (s.package name).origin = s.origin := rfl

theorem origin_mapLayer {f : Layer → Layer} (h : (f s.layer).source = s.layer.source) :
    (s.mapLayer f).origin = s.origin := by
  obtain ⟨l, ls⟩ := s
  cases ls with
  | nil => exact h
  | cons => rfl

theorem origin_addTop {c : Count} (h : addTop c s = (.ok (), u)) : u.origin = s.origin := by
  obtain ⟨top, limit, rfl⟩ := addTop_ok h
  exact origin_mapLayer rfl

theorem origin_addOffset {c : Count} (h : addOffset c s = (.ok (), u)) : u.origin = s.origin := by
  obtain ⟨offset, -, rfl⟩ := addOffset_eq_ok.mp h
  exact origin_mapLayer rfl

theorem origin_addSelect {selection : Selection} (h : addSelect selection s = (.ok (), u)) :
    u.origin = s.origin := by
  obtain ⟨-, rfl⟩ := addSelect_eq_ok.mp h
  exact origin_mapLayer rfl

theorem origin_addGroupBy {key : Scalar} (h : addGroupBy key s = (.ok (), u)) :
    u.origin = s.origin := by
  obtain ⟨-, rfl⟩ := addGroupBy_eq_ok.mp h
  exact origin_mapLayer rfl

theorem origin_thenBy {key : SortKey} (h : thenBy key s = (.ok (), u)) : u.origin = s.origin := by
  obtain ⟨-, rfl⟩ := thenBy_eq_ok.mp h
  exact origin_mapLayer rfl

end Stage

/-! ## Flattening -/

/-- `r` is within what the rows are taken from. -/
def LayerSource.Holds (r : Scalar) : LayerSource → Prop
  | .container => False
  | .items path => r.Within path
  | .subquery query => r.Within (.subquery query)

namespace Layer

variable {l m : Layer} {ls : List Layer}

/-- The query of a layer is built over what its rows are taken from. -/
theorem within_toQuery (h : l.source.Holds r) : r.Within (.subquery l.toQuery) := by
  have hsource : r.parts ⊆ l.toSource.parts ∧
      ∀ σ, (r.substitute σ).parts ⊆ (l.toSource.substitute σ).parts := by
    unfold toSource
    cases hs : l.source with
    | container => exact (hs ▸ h : LayerSource.container.Holds r).elim
    | items path =>
      have hpath : r.Within path := (hs ▸ h : (LayerSource.items path).Holds r)
      exact ⟨hpath.parts, hpath.substituted⟩
    | subquery query =>
      have hquery : r.Within (.subquery query) := (hs ▸ h : (LayerSource.subquery query).Holds r)
      exact ⟨hquery.parts, hquery.substituted⟩
  refine ⟨fun p hp => ?_, fun σ p hp => ?_⟩
  · exact Query.mem_parts.mpr (.inr (.inl ⟨l.toSource, List.mem_cons_self, hsource.1 hp⟩))
  · refine Query.mem_parts.mpr (.inr (.inl ⟨l.toSource.substitute σ, ?_, hsource.2 σ hp⟩))
    exact List.mem_cons_self

theorem holds_flattenOnto {b : Layer} (h : l.flattenOnto b = .ok m) (hb : b.source.Holds r) :
    m.source.Holds r := by
  obtain ⟨-, h⟩ := flattenOnto_eq_ok.mp h
  split at h
  · subst h
    exact within_toQuery hb
  · obtain ⟨_, _, _, _, -, -, -, -, rfl⟩ := merge_eq_ok.mp h
    exact hb

/-- The one layer that is left takes its rows from where the lowest one did, or from a query that
does. -/
theorem holds_flattenAll (h : l.flattenAll ls = .ok m) (hl : (l.lowest ls).source.Holds r) :
    m.source.Holds r := by
  induction ls generalizing l m with
  | nil =>
    obtain rfl := Except.ok.inj h
    exact hl
  | cons next rest ih =>
    obtain ⟨b, hb, honto⟩ := LambdaQuery.bind_eq_ok.mp h
    exact holds_flattenOnto honto (ih hb hl)

end Layer

theorem Stage.within_toQuery {s : Stage} {q : Query} (h : s.toQuery = .ok q)
    (hs : s.origin.Holds r) : r.Within (.subquery q) := by
  obtain ⟨l, hl, hq⟩ := LambdaQuery.bind_eq_ok.mp h
  cases hq
  exact Layer.within_toQuery (Layer.holds_flattenAll hl hs)

/-! ## Operators -/

namespace Compilation

variable {env : Environment} {stage : Stage}

/-- A lambda may iterate an array in each row. -/
theorem gives_withRow {α : Type} {name : String} {act : Stage → Compilation α} {P : α → Prop}
    (h : ∀ st : Stage, st.origin = stage.origin → (act st).Gives P) :
    (withRow name stage act).Gives P := by
  intro s a t hrun
  have hbound : (s.bind name stage).2.2.origin = stage.origin := by
    unfold Scope.bind
    split
    · exact Stage.origin_mapLayer rfl
    · rfl
  have hact : (act (s.bind name stage).2.2 (s.bind name stage).2.1).1 = .ok a :=
    congrArg Prod.fst hrun
  exact h _ hbound _ a _ (Prod.ext hact rfl)

theorem gives_edit {change : Stage.Edit Unit}
    (h : ∀ u, change stage = (.ok (), u) → u.origin = stage.origin) :
    (edit stage change).Gives fun u => u.origin = stage.origin :=
  fun _ u _ hrun => h u (edit_eq_ok hrun).1

theorem gives_body_origin (name : String) (body : Expr) (stage : Stage) :
    (withRow name stage fun stage => return (← scalar env body, stage)).Gives
      fun p => p.2.origin = stage.origin :=
  gives_withRow fun _ hst => .second fun _ => .pure hst

theorem gives_selected_origin (method : String) (rest : List Expr) (stage : Stage) :
    (selected env method rest stage).Gives fun p => p.2.origin = stage.origin := by
  rw [selected.eq_def]
  split
  · exact .second fun l => gives_body_origin l.param l.body stage
  · exact .throw

theorem gives_joined_origin (e : Expr) (stage : Stage) :
    (joined env e stage).Gives fun u => u.origin = stage.origin := by
  have hpath : (do
      let path ← scalar env e
      return stage.addJoin (← fresh "v") path : Compilation Stage).Gives
        fun u => u.origin = stage.origin :=
    .second fun _ => .second fun _ => .pure (Stage.origin_mapLayer rfl)
  rw [joined.eq_def]
  split
  · split
    · split
      · rename_i m args _ _ _
        split
        · rename_i source arg
          refine .second fun l => ?_
          -- Whether the body filters or selects makes no difference here.
          split
          all_goals
            dsimp only
            split
            · exact (gives_joined_origin source stage).bind fun st hst =>
                (gives_body_origin l.param l.body st).bind fun p hp =>
                  .pure ((Stage.origin_mapLayer rfl).trans (hp.trans hst))
            · exact .second fun path => (Gives.within (gives_body_origin l.param l.body stage)).bind
                fun p hp => .pure ((Stage.origin_mapLayer rfl).trans hp)
        · exact .throw
      · exact .throw
    · exact hpath
  · exact hpath
termination_by sizeOf e

theorem gives_grouped_origin (rest : List Expr) (stage : Stage) :
    (grouped env rest stage).Gives fun u => u.origin = stage.origin := by
  rw [grouped.eq_def]
  split
  · rename_i keyArg resultArg
    refine .second fun l => .second fun r => ?_
    refine (gives_body_origin l.param l.body stage).bind fun p hp => ?_
    obtain ⟨key, st⟩ := p
    refine .refuse fun _ => .second fun value => ?_
    exact (gives_edit fun _ => Stage.origin_addGroupBy).bind fun u hu =>
      (gives_edit fun _ => Stage.origin_addSelect).imp fun _ hw => hw.trans (hu.trans hp)
  · exact .throw

/-- No operator changes where the rows come from. -/
theorem gives_apply_origin (method : String) (rest : List Expr) (stage : Stage) :
    (apply env method rest stage).Gives fun u => u.origin = stage.origin := by
  have hselected : ∀ {f : Scalar × Stage → Compilation Stage} (method : String),
      (∀ value st, st.origin = stage.origin →
        (f (value, st)).Gives fun u => u.origin = stage.origin) →
        (selected env method rest stage >>= f).Gives fun u => u.origin = stage.origin :=
    fun method hf => (gives_selected_origin method rest stage).bind fun p hp => hf p.1 p.2 hp
  have htotal : ∀ {st : Stage} (value : Scalar), st.origin = stage.origin → (do
      let stage ← edit st (Stage.addSelect (.ofValue value))
      setOperation .firstOrDefault
      return stage : Compilation Stage).Gives fun u => u.origin = stage.origin :=
    fun value hst => (gives_edit fun _ => Stage.origin_addSelect).bind fun _ hu =>
      .second fun _ => .pure (hu.trans hst)
  have hordered : ∀ (method : String) (descending : Bool), (do
      let p ← selected env method rest stage
      return p.2.addOrderBy ⟨p.1, descending⟩ : Compilation Stage).Gives
        fun u => u.origin = stage.origin :=
    fun method _ => hselected method fun _ _ hst => .pure ((Stage.origin_mapLayer rfl).trans hst)
  have hthen : ∀ (method : String) (descending : Bool), (do
      let p ← selected env method rest stage
      edit p.2 (Stage.thenBy ⟨p.1, descending⟩) : Compilation Stage).Gives
        fun u => u.origin = stage.origin :=
    fun method _ => hselected method fun _ _ hst =>
      (gives_edit fun _ => Stage.origin_thenBy).imp fun _ hu => hu.trans hst
  by_cases hcounted : method = "Count" ∨ method = "Any"
  · have hcount : ∀ {st : Stage}, st.origin = stage.origin → (do
        if method == "Any" && (← get).inSubquery then return st
        let value :=
          if method == "Any" then .binary .greaterThan countAll (.integer 0) else countAll
        let stage ← edit st (Stage.addSelect (.ofValue value))
        setOperation .firstOrDefault
        return stage : Compilation Stage).Gives fun u => u.origin = stage.origin := by
      intro st hst
      refine .second fun s => ?_
      split
      · exact .pure hst
      · exact htotal _ hst
    rw [apply_counted env stage hcounted]
    split
    · exact .throw
    refine .second fun _ => ?_
    dsimp only
    split
    · exact hcount rfl
    · exact hselected method fun _ _ hst => hcount ((Stage.origin_mapLayer rfl).trans hst)
  rw [apply.eq_def]
  split
  · exact hselected _ fun _ _ hst => .pure ((Stage.origin_mapLayer rfl).trans hst)
  · exact hselected _ fun _ _ hst => (gives_edit fun _ => Stage.origin_addSelect).imp
      fun _ hu => hu.trans hst
  · split
    · exact .second fun l => gives_withRow fun st hst =>
        (gives_joined_origin l.body st).imp fun _ hu => hu.trans hst
    · exact .throw
  · exact hordered _ _
  · exact hordered _ _
  · exact hthen _ _
  · exact hthen _ _
  · split
    · exact .second fun _ => gives_edit fun _ => Stage.origin_addTop
    · exact .throw
  · split
    · exact .second fun _ => gives_edit fun _ => Stage.origin_addOffset
    · exact .throw
  · split
    · exact .pure (Stage.origin_mapLayer rfl)
    · exact .throw
  · exact absurd (.inl rfl) hcounted
  · exact absurd (.inr rfl) hcounted
  · refine .refuse fun _ => ?_
    exact .second fun _ => (gives_edit fun _ => Stage.origin_addTop).bind
      fun _ hu => .second fun _ => .pure hu
  · exact gives_grouped_origin rest stage
  · split
    · exact .throw
    · refine .refuse fun _ => .second fun _ => ?_
      dsimp only
      split
      · exact htotal _ rfl
      · exact hselected _ fun _ _ hst => htotal _ hst

/-! ## Chains -/

theorem origin_layered {method : String} {argCount : Nat} {s t : Scope} {st u : Stage}
    (h : layered st method argCount s = (.ok u, t)) : u.origin = st.origin := by
  unfold layered at h
  split at h
  · obtain ⟨name, _, -, hp⟩ := bind_eq_ok.mp h
    rw [(pure_eq_ok.mp hp).1, Stage.origin_package]
  · rw [(pure_eq_ok.mp h).1]

/-- In a nested query, the rows of a chain come from what it starts from. -/
theorem holds_rows {e : Expr} {s t : Scope} {st : Stage} {x : String}
    (hs : s.inSubquery = true) (hr : s.lookup? x = some r)
    (hx : ∀ {s a t}, s.lookup? x = some r → scalar env e.origin s = (.ok a, t) → r.Within a)
    (h : rows env e s = (.ok st, t)) : st.origin.Holds r := by
  by_cases he : isOperatorCall e = true
  · obtain ⟨target, m, args, ty, rfl⟩ : ∃ target m args ty, e = .call target m args ty := by
      cases e <;> first | exact ⟨_, _, _, _, rfl⟩ | cases he
    have hm : m.isOperator = true := he
    obtain ⟨u, hoperator, -⟩ := rows_call hm h
    obtain ⟨source, rest, input, v, w, y, z, rfl, hrows, -, hlayered, happly, -⟩ :=
      operator_eq_ok hoperator
    have hsource : source.origin = (Expr.call target m (source :: rest) ty).origin := by
      rw [Expr.origin, if_pos hm]
    rw [gives_apply_origin m.name rest w _ _ _ happly, origin_layered hlayered]
    exact holds_rows (s := s.pushMethod m.name) hs hr (fun {_ _ _} => hsource ▸ hx) hrows
  · have hitems : (do
        let path ← scalar env e
        return .overItems (← fresh "v") path : Compilation Stage) s = (.ok st, t) →
          st.origin.Holds r := by
      intro h
      obtain ⟨path, u, hpath, hrest⟩ := bind_eq_ok.mp h
      obtain ⟨name, v, -, hp⟩ := bind_eq_ok.mp hrest
      rw [(pure_eq_ok.mp hp).1]
      exact hx hr ((Expr.origin_of_not_operator he).symm ▸ hpath)
    rw [rows.eq_def] at h
    split at h
    · rename_i target m args ty
      have hm : ¬m.isOperator = true := he
      rw [if_neg hm] at h
      obtain ⟨_, _, ⟨⟩, h⟩ := bind_eq_ok.mp h
      rw [if_pos hs] at h
      exact hitems h
    · obtain ⟨_, _, ⟨⟩, h⟩ := bind_eq_ok.mp h
      rw [if_pos hs] at h
      exact hitems h
termination_by sizeOf e

/-- **A nested query is built over what its chain starts from.** -/
theorem within_nested {method : String} {source : Expr} {rest : List Expr} {s t : Scope}
    {a : Scalar} {x : String} (hr : s.lookup? x = some r)
    (hx : ∀ {s a t}, s.lookup? x = some r → scalar env source.origin s = (.ok a, t) → r.Within a)
    (h : (do
      let stage ← nested (withMethod method (operator env method (source :: rest)))
      return nestedScalar method (← flattened stage) : Compilation Scalar) s = (.ok a, t)) :
    r.Within a := by
  obtain ⟨stage, u, hnested, hrest⟩ := bind_eq_ok.mp h
  obtain ⟨q, v, hflattened, hp⟩ := bind_eq_ok.mp hrest
  obtain ⟨v, hmethod, -⟩ := within_eq_ok hnested
  obtain ⟨w, hoperator, -⟩ := within_eq_ok hmethod
  obtain ⟨_, _, input, _, y, _, _, heq, hrows, -, hlayered, happly, -⟩ := operator_eq_ok hoperator
  cases heq
  have hinput : input.origin.Holds r :=
    holds_rows (s := s.enterSubquery.pushMethod method) (bne_iff_ne.mpr (Nat.succ_ne_zero _)) hr hx
      hrows
  have hstage : stage.origin.Holds r := by
    rwa [gives_apply_origin method rest y _ _ _ happly, origin_layered hlayered]
  rw [(pure_eq_ok.mp hp).1]
  exact (Stage.within_toQuery (flattened_eq_ok hflattened) hstage).nested method

end Compilation

end LambdaQuery
