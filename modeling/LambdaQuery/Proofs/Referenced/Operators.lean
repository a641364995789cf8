import LambdaQuery.Proofs.Referenced.Stages

/-!
# Reported parameters that are referred to

Where no operator of an expression replaces what another one has set, the query refers to all
parameters that are in use (`Expr.compile_referenced`). The scalar of each kind of expression refers
to what its computation puts into use, and so do the layers of the stage of a chain, which retain it
through each operator (`Stage.Retains`).
-/

set_option autoImplicit false

namespace LambdaQuery.Compilation

variable {env : Environment} {name : String} {k : Stacks} {B : Prop} {a b : Scalar}

/-! ## Scalars of parts -/

theorem mentions_memberOf (naming : Naming) (ty : HostType) (m : Member) (h : a.Mentions name) :
    (memberOf naming ty m a).Mentions name :=
  (within_memberOf naming ty m (.refl a)).mentions h

theorem mentions_unaryOf (op : UnaryOp) (h : a.Mentions name) : (unaryOf op a).Mentions name :=
  (within_unaryOf op (.refl a)).mentions h

theorem mentions_combine {op : BinaryOp} {text : Bool} {c : Scalar}
    (hc : combine op text a b = .ok c) (h : a.Mentions name ∨ b.Mentions name) :
    c.Mentions name :=
  h.elim (within_combine hc (.inl (.refl a))).mentions
    (within_combine hc (.inr (.refl b))).mentions

theorem mentions_nestedScalar (method : String) {q : Query} (h : name ∈ q.parameters) :
    (nestedScalar method q).Mentions name :=
  (Scalar.Within.nested (.refl (.subquery q)) method).mentions (Scalar.mentions_query.mpr h)

/-- Of as many values as there are names, none is left out of the object. -/
theorem mentions_zip {names : List String} {as : List Scalar} (hlength : names.length = as.length)
    (ha : a ∈ as) (h : a.Mentions name) : (Scalar.object (names.zip as)).Mentions name :=
  (Scalar.Within.zip (Nat.le_of_eq hlength.symm) ⟨a, ha, .refl a⟩).mentions h

theorem accounts_encoded (naming : Naming) (member : Expr) (a : Scalar) :
    (encoded naming member a).Accounts name k B fun _ => B := by
  unfold encoded
  split
  · exact .bind .ofHost fun _ => .ofExcept
  · exact .pure id

/-- What is compared refers to what it did before. -/
theorem accounts_matched (naming : Naming) (left right : Expr) (a b : Scalar) :
    (matched naming left right a b).Accounts name k ((B ∨ a.Mentions name) ∨ b.Mentions name)
      fun p => B ∨ p.1.Mentions name ∨ p.2.Mentions name := by
  have hsame : ∀ C : Prop, (matched naming left right a b).Accounts name k C fun _ => C := by
    intro C
    unfold matched
    split
    · exact .bind (accounts_encoded naming left b) fun _ => .pure id
    split
    · exact .bind (accounts_encoded naming right a) fun _ => .pure id
    · exact .pure id
  refine .of_yields (.with_result (hsame _) fun s p t _ h =>
    (givesIn_matched naming left right a b).gives s p t h) ?_
  rintro p ⟨hleft, hright⟩ ((hb | ha) | hb)
  · exact .inl hb
  · rcases hleft with hleft | ⟨v, rfl⟩
    · exact .inr (.inl (hleft ▸ ha))
    · exact (Scalar.mentions_literal ha).elim
  · rcases hright with hright | ⟨v, rfl⟩
    · exact .inr (.inr (hright ▸ hb))
    · exact (Scalar.mentions_literal hb).elim

/-! ## Expressions -/

/-- The scalar of an expression refers to what its computation puts into use, and so does the stage
of a chain, which loses nothing of it. -/
structure Referenced (env : Environment) (name : String) (e : Expr) : Prop where
  scalar : (scalar env e).Mentioned name
  rows : ∀ (k : Stacks) (B : Prop), (rows env e).Yields name k B
    (Stage.Retains (e.chainHas projections) (e.chainHas orderings)) fun st =>
      B ∨ name ∈ st.parameters

section

variable {n : Nat} (h : ∀ d, sizeOf d < n → d.Keeping → Referenced env name d)

include h

theorem accounts_scalars {es : List Expr} (hn : sizeOf es ≤ n) (hk : ∀ e ∈ es, e.Keeping) :
    (scalars env es).Accounts name k B fun as => B ∨ ∃ a ∈ as, a.Mentions name := by
  induction es generalizing B with
  | nil =>
    rw [scalars]
    exact .pure .inl
  | cons e es ih =>
    simp only [List.cons.sizeOf_spec] at hn
    obtain ⟨he, hes⟩ := List.forall_mem_cons.mp hk
    rw [scalars]
    exact .bind ((h e (by omega) he).scalar _ _) fun _ => .bind (ih (by omega) hes) fun _ =>
      .pure fun h => by simpa [or_assoc] using h

theorem accounts_properties {bindings : List Binding} (hn : sizeOf bindings ≤ n)
    (hk : ∀ e ∈ Binding.childrenOfAll bindings, e.Keeping) :
    (properties env bindings).Accounts name k B fun ps => B ∨ ∃ p ∈ ps, p.2.Mentions name := by
  induction bindings generalizing B with
  | nil =>
    rw [properties]
    exact .pure .inl
  | cons binding rest ih =>
    simp only [List.cons.sizeOf_spec] at hn
    cases binding with
    | assign m value =>
      simp only [Binding.assign.sizeOf_spec] at hn
      obtain ⟨hvalue, hrest⟩ := List.forall_mem_cons.mp hk
      rw [properties]
      exact .bind ((h value (by omega) hvalue).scalar _ _) fun _ =>
        .bind (ih (by omega) hrest) fun _ => .pure fun h => by simpa [or_assoc] using h
    | nested | collect =>
      rw [properties]
      exact .throw

theorem accounts_binary (op : BinaryOp) (left right : Expr) (ty : HostType)
    (hn : sizeOf left + sizeOf right ≤ n) (hl : left.Keeping) (hr : right.Keeping) :
    (binary env op left right ty).Mentioned name := by
  intro k B
  have hleft := left.sizeOf_pos
  have hright := right.sizeOf_pos
  rw [binary]
  split
  · rename_i a b hab op' hop
    simp only at hab
    split
    · have hparts : a.Keeping ∧ b.Keeping := by
        rcases stringComparison?_isPart hop with ⟨ha, hb⟩ | ⟨ha, hb⟩
        · exact ⟨hl.part ha, hl.part hb⟩
        · exact ⟨hr.part ha, hr.part hb⟩
      exact accounts_binary op' a b .boolean (by omega) hparts.1 hparts.2 k B
    · exact .throw
  · exact .bind ((h left (by omega) hl).scalar _ _) fun a =>
      .bind ((h right (by omega) hr).scalar _ _) fun b =>
        .bind (accounts_matched env.options.naming left right a b) fun _ =>
          .of_yields .ofExcept fun _ hc h => h.imp_right (mentions_combine hc)
termination_by sizeOf left + sizeOf right

theorem accounts_userFunction {args : List Expr} (hn : sizeOf args ≤ n)
    (hk : ∀ e ∈ args, e.Keeping) : (userFunction env args).Mentioned name := by
  intro k B
  rw [userFunction]
  refine .bind .ofExcept fun name => ?_
  split
  · rename_i items _
    simp only [List.cons.sizeOf_spec, Expr.newArray.sizeOf_spec] at hn
    have hitems := hk _ (List.mem_cons_of_mem _ List.mem_cons_self)
    exact .bind (accounts_scalars h (by omega) fun e he => hitems.part (.of_child he)) fun _ =>
      .pure fun h => by simpa using h
  · exact .bind (accounts_constants env.options .object _ _ _) fun _ =>
      .pure fun h => by simpa using h
  · simp only [List.cons.sizeOf_spec] at hn
    exact .bind (accounts_scalars h (by omega) fun e he => hk e (List.mem_cons_of_mem _ he))
      fun _ => .pure fun h => by simpa using h
  · exact .pure .inl

theorem accounts_groupAggregate (method : String) {args : List Expr} (row : Scalar)
    (hn : sizeOf args ≤ n) (hk : ∀ e ∈ args, e.Keeping) :
    (groupAggregate env method args row).Mentioned name := by
  rintro ⟨cs, bs⟩ B
  rw [groupAggregate.eq_def]
  split
  · exact .pure .inl
  · exact .throw
  split
  · exact .throw
  · exact .pure .inl
  · exact .pure .inl
  · simp only [List.cons.sizeOf_spec] at hn
    refine Yields.bind .ofExcept fun l hl => ?_
    have := l.smaller
    have hbody := (hk _ (by simp)).part (selector?_isPart hl)
    exact Accounts.bind (Yields.withParameter ((h l.body (by omega) hbody).scalar _ _)) fun _ =>
      .pure fun h => by simpa using h
  · exact .throw

/-! ## Operators -/

section

variable {m : String} {cs : List Collection} {bs : List (String × Scalar)} {p o : Bool}
  {stage : Stage}

/-- A scalar that is built over the parameter `x`, which stands for `r`. -/
theorem yields_read {collections : List Collection} {x : String} {r : Scalar} {e : Expr}
    (hn : sizeOf e < n) (hk : e.Keeping) (hr : Record.get? bs x = some r) :
    (scalar env e).Yields name ⟨collections, bs⟩ B (fun a => e.Reads x → r.Within a)
      fun a => B ∨ a.Mentions name := by
  refine .with_result ((h e hn hk).scalar _ B) fun s a t hs hrun hreads => ?_
  refine within_of_reads hreads ?_ hrun
  rw [Scope.lookup?, show s.bindings = bs from congrArg Stacks.bindings hs, hr]

/-- The body of a lambda over the rows of the stage. -/
theorem yields_body {α : Type} {method : String} {arg : Expr} {l : Selector arg}
    (hn : sizeOf arg ≤ n)
    (hk : arg.Keeping) (hl : selector? method arg = .ok l) {R Q : α → Prop}
    {f : Scalar × Stage → Compilation α}
    (hf : ∀ value, (l.body.Reads l.param → stage.layer.row.Within value) →
      (f (value, stage)).Yields name ⟨.outer m :: cs, bs⟩ (B ∨ value.Mentions name) R Q) :
    ((withRow l.param stage fun stage => return (← scalar env l.body, stage)) >>= f).Yields name
      ⟨.outer m :: cs, bs⟩ B R Q := by
  have := l.smaller
  have hvalue : (withRow l.param stage fun stage => return (← scalar env l.body, stage)).Yields name
      ⟨.outer m :: cs, bs⟩ B
      (fun r => r.2 = stage ∧ (l.body.Reads l.param → stage.layer.row.Within r.1))
      fun r => B ∨ r.1.Mentions name :=
    .withRow_outer (.bind (yields_read h (by omega) (hk.part (selector?_isPart hl)) (by
      rw [Record.get?, if_pos rfl])) fun value hvalue => .pure ⟨rfl, hvalue⟩ id)
  refine .bind hvalue fun r hr => ?_
  obtain ⟨value, stage'⟩ := r
  obtain ⟨rfl, hreads⟩ := hr
  exact hf value hreads

/-- The body of a lambda over the items of an array, which the stage iterates from then on. -/
theorem yields_items {α : Type} {method : String} {arg : Expr} {l : Selector arg} {path : Scalar}
    (hn : sizeOf arg ≤ n) (hk : arg.Keeping) (hl : selector? method arg = .ok l) {R Q : α → Prop}
    {f : Scalar × Stage → Compilation α}
    (hf : ∀ item value, (f (value, stage.addJoin item path)).Yields name ⟨.outer m :: cs, bs⟩
      (B ∨ value.Mentions name) R Q) :
    (withCollection (.inner path) (withRow l.param stage fun stage =>
      return (← scalar env l.body, stage)) >>= f).Yields name ⟨.outer m :: cs, bs⟩ B R Q := by
  have := l.smaller
  have hvalue : (withCollection (.inner path) (withRow l.param stage fun stage =>
      return (← scalar env l.body, stage))).Yields name ⟨.outer m :: cs, bs⟩ B
      (fun r => ∃ item, r.2 = stage.addJoin item path) fun r => B ∨ r.1.Mentions name :=
    .withCollection (.withRow_inner fun item => .bind
      ((h l.body (by omega) (hk.part (selector?_isPart hl))).scalar _ B) fun value _ =>
        .pure ⟨item, rfl⟩ id)
  refine .bind hvalue fun r hr => ?_
  obtain ⟨value, stage'⟩ := r
  obtain ⟨item, rfl⟩ := hr
  exact hf item value

theorem yields_selected {α : Type} {method : String} {rest : List Expr} (hn : sizeOf rest ≤ n)
    (hk : ∀ e ∈ rest, e.Keeping) {R Q : α → Prop} {f : Scalar × Stage → Compilation α}
    (hf : ∀ value, (method ≠ "SelectMany" → ReadsRows method rest → stage.layer.row.Within value) →
      (f (value, stage)).Yields name ⟨.outer m :: cs, bs⟩ (B ∨ value.Mentions name) R Q) :
    (selected env method rest stage >>= f).Yields name ⟨.outer m :: cs, bs⟩ B R Q := by
  rw [selected.eq_def]
  split
  · rename_i arg
    simp only [List.cons.sizeOf_spec] at hn
    rw [bind_assoc]
    refine .bind .ofExcept fun l hl => yields_body h (by omega) (hk _ (by simp)) hl
      fun value hvalue => hf value fun hm hreads => hvalue ?_
    have := hreads.of_selector hl
    rwa [if_neg hm] at this
  · exact .bind (.throw (R := fun _ => False) (Q := fun _ => False)) fun _ => False.elim

variable (hs : stage.Retains p o) (hg : stage.layer.hasGroupBy = false)

omit h in
include hs hg in
/-- The projection of an operator: of rows that were not projected, or with the rows in a clause. -/
theorem yields_select {value : Scalar}
    (hread : p = true → stage.layer.row.Within value ∨
      ∃ s ∈ stage.layer.clauses, stage.layer.row.Within s) :
    (edit stage (Stage.addSelect (.ofValue value))).Yields name k
      ((B ∨ name ∈ stage.parameters) ∨ value.Mentions name) (Stage.Retains true o)
      fun st => B ∨ name ∈ st.parameters := by
  refine .with_result (.of_yields .edit fun st hu => ?_) fun _ st _ _ hrun => ?_
  · refine Stage.keep ?_ (Stage.keeps_addSelect hu) (Stage.mentions_addSelect hu)
    obtain ⟨-, rfl⟩ := Stage.addSelect_eq_ok.mp hu
    rfl
  · have hu := (edit_eq_ok hrun).1
    refine hs.addSelect hg hu fun hp => ?_
    rcases hread hp with hvalue | ⟨s, hmem, hwithin⟩
    · refine ⟨value, Layer.mem_clauses.mpr (.inr (.inl ?_)), hvalue⟩
      obtain ⟨-, rfl⟩ := Stage.addSelect_eq_ok.mp hu
      rfl
    · obtain ⟨s', hmem', hwithin'⟩ := (Stage.keeps_addSelect hu).clauses hmem
      exact ⟨s', hmem', hwithin.trans hwithin'⟩

omit h in
include hs hg in
theorem yields_total {value : Scalar}
    (hread : p = true → stage.layer.row.Within value ∨
      ∃ s ∈ stage.layer.clauses, stage.layer.row.Within s) :
    (do
      let stage ← edit stage (Stage.addSelect (.ofValue value))
      setOperation .firstOrDefault
      return stage : Compilation Stage).Yields name k
      ((B ∨ name ∈ stage.parameters) ∨ value.Mentions name) (Stage.Retains true o)
      fun st => B ∨ name ∈ st.parameters :=
  .bind (yields_select hs hg hread) fun _ hst => .bind .setOperation fun _ _ => .pure hst id

include hs

theorem yields_ordered {method : String} {rest : List Expr} {descending : Bool}
    (hn : sizeOf rest ≤ n) (hk : ∀ e ∈ rest, e.Keeping) (ho : o = false) :
    (do
      let (value, stage) ← selected env method rest stage
      return stage.addOrderBy ⟨value, descending⟩ : Compilation Stage).Yields name
      ⟨.outer m :: cs, bs⟩ (B ∨ name ∈ stage.parameters) (Stage.Retains p true)
      fun st => B ∨ name ∈ st.parameters := by
  subst ho
  exact yields_selected h hn hk fun value _ => .pure hs.addOrderBy
    (Stage.keep rfl (Stage.keeps_addOrderBy (hs.unordered rfl))
      fun hv => Stage.mentions_addOrderBy hv)

theorem yields_thenBy {method : String} {rest : List Expr} {descending : Bool}
    (hn : sizeOf rest ≤ n) (hk : ∀ e ∈ rest, e.Keeping) :
    (do
      let (value, stage) ← selected env method rest stage
      edit stage (Stage.thenBy ⟨value, descending⟩) : Compilation Stage).Yields name
      ⟨.outer m :: cs, bs⟩ (B ∨ name ∈ stage.parameters) (Stage.Retains p o)
      fun st => B ∨ name ∈ st.parameters := by
  refine yields_selected h hn hk fun value _ => ?_
  refine .with_result (.of_yields .edit fun st hu => ?_) fun _ st _ _ hrun =>
    hs.thenBy (edit_eq_ok hrun).1
  refine Stage.keep ?_ (Stage.keeps_thenBy hu) (Stage.mentions_thenBy hu)
  obtain ⟨-, rfl⟩ := Stage.thenBy_eq_ok.mp hu
  rfl

omit h in
/-- A change of the bounds of the rows. -/
theorem yields_bounds {c : Count} {change : Stage.Edit Unit}
    (hbounds : ∀ u, change stage = (.ok (), u) → Stage.Bounds c stage u) :
    (edit stage change).Yields name k ((B ∨ name ∈ stage.parameters) ∨ c = .parameter name)
      (Stage.Retains p o) fun st => B ∨ name ∈ st.parameters :=
  .with_result (.of_yields .edit fun u hu => Stage.keep (hbounds u hu).below (hbounds u hu).keeps
    fun hc => (hbounds u hu).parameters hc) fun _ u _ _ hrun =>
      (hbounds u (edit_eq_ok hrun).1).retains hs

/-- Filters by the lambda of an operator, if it has one. -/
theorem yields_filtered {f : Stage → Compilation Stage} {method : String} {rest : List Expr}
    {R Q : Stage → Prop} (hn : sizeOf rest ≤ n) (hk : ∀ e ∈ rest, e.Keeping)
    (hm : method = "Count" ∨ method = "Any") (hg : stage.layer.hasGroupBy = false)
    (hproj : p = true → ReadsRows method rest)
    (hf : ∀ st, st.Retains p o → st.layer.hasGroupBy = false →
      (p = true → ∃ s ∈ st.layer.clauses, st.layer.row.Within s) →
        (f st).Yields name ⟨.outer m :: cs, bs⟩ (B ∨ name ∈ st.parameters) R Q) :
    (if rest.isEmpty = true then do
        let stage ← pure stage
        f stage
      else do
        let (filter, stage) ← selected env method rest stage
        let stage ← pure (stage.addWhere filter)
        f stage : Compilation Stage).Yields name ⟨.outer m :: cs, bs⟩
      (B ∨ name ∈ stage.parameters) R Q := by
  have hplain : aggregate? method = none ∧ method ≠ "SelectMany" := by
    rcases hm with rfl | rfl <;> exact ⟨rfl, by decide⟩
  split
  · rename_i hrest
    refine hf stage hs hg fun hp => ?_
    rcases hproj hp with ⟨-, hsome⟩ | ⟨arg, l, rfl, -⟩
    · rw [hplain.1] at hsome
      cases hsome
    · cases hrest
  · refine yields_selected h hn hk fun value hvalue => Yields.weaken (hf (stage.addWhere value)
      hs.addWhere hg fun hp => ?_) (Stage.keep rfl (Stage.keeps_addWhere stage value)
        Stage.mentions_addWhere)
    obtain ⟨f, hfilter, hwithin⟩ := Stage.within_addWhere stage value
    exact ⟨f, Layer.mem_clauses.mpr (.inr (.inr (.inl hfilter))),
      (hvalue hplain.2 (hproj hp)).trans hwithin⟩

/-- The number of rows; a nested query that there are any of is the rows themselves. -/
theorem yields_counted {method : String} {rest : List Expr} (hn : sizeOf rest ≤ n)
    (hk : ∀ e ∈ rest, e.Keeping) (hm : method = "Count" ∨ method = "Any")
    (hg : stage.layer.hasGroupBy = false) (hproj : p = true → ReadsRows method rest) :
    (apply env method rest stage).Yields name ⟨.outer m :: cs, bs⟩ (B ∨ name ∈ stage.parameters)
      (Stage.Retains true o) fun st => B ∨ name ∈ st.parameters := by
  rw [apply_counted _ _ hm]
  split
  · exact .throw
  refine .bind .requireLast fun _ _ => yields_filtered h hs hn hk hm hg hproj
    fun st hst hg' hread => .bind .get fun s _ => ?_
  split
  · exact .pure hst.projected id
  dsimp only
  split
  · exact (yields_total hst hg' fun hp => .inr (hread hp)).weaken .inl
  · exact (yields_total hst hg' fun hp => .inr (hread hp)).weaken .inl

/-- An aggregate of the rows, or of what is read from them. -/
theorem yields_aggregated {method : String} {rest : List Expr} (hn : sizeOf rest ≤ n)
    (hk : ∀ e ∈ rest, e.Keeping) (hm : method ∉ plainOperators)
    (hg : stage.layer.hasGroupBy = false) (hproj : p = true → ReadsRows method rest) :
    (apply env method rest stage).Yields name ⟨.outer m :: cs, bs⟩ (B ∨ name ∈ stage.parameters)
      (Stage.Retains true o) fun st => B ∨ name ∈ st.parameters := by
  have hmany : method ≠ "SelectMany" := fun heq => hm (heq ▸ by decide)
  have hwithin : ∀ {function : String} {operand : Scalar}, stage.layer.row.Within operand →
      stage.layer.row.Within (.builtin function [operand]) :=
    fun hoperand => .call _ _ ⟨_, List.mem_singleton_self _, hoperand⟩
  rw [apply_aggregate _ _ hm]
  split
  · exact .throw
  split
  · exact .throw
  refine .bind .requireLast fun _ _ => ?_
  split
  · exact (yields_total hs hg fun _ => .inl (hwithin (.refl _))).weaken .inl
  · refine yields_selected h hn hk fun operand hoperand => ?_
    exact (yields_total hs hg fun hp => .inl (hwithin (hoperand hmany (hproj hp)))).weaken
      fun hb => hb.imp_right fun hb => Scalar.mentions_builtin.mpr ⟨_, List.mem_singleton_self _,
        hb⟩

/-! ### Iterated arrays -/

omit h hs in
/-- The operator that filters or projects the items. -/
theorem yields_narrowed {method : String} (hm : (method == "Where" || method == "Select") = true)
    {st : Stage} {q : Bool} {value : Scalar} (hst : st.Joined q o)
    (hread : projections.contains method = true → q = true → st.layer.row.Within value) :
    (if (method == "Where") = true then pure (st.addWhere value)
      else pure (st.replaceSelect value) : Compilation Stage).Yields name k
      ((B ∨ name ∈ st.parameters) ∨ value.Mentions name)
      (Stage.Joined (projections.contains method || q) o) fun st => B ∨ name ∈ st.parameters := by
  rw [Bool.or_eq_true, beq_iff_eq, beq_iff_eq] at hm
  rcases hm with rfl | rfl
  · exact .pure hst.addWhere (Stage.keep rfl (Stage.keeps_addWhere st value)
      fun hv => Stage.mentions_addWhere hv)
  · exact .pure (hst.replaceSelect (hread rfl)) (Stage.keep rfl
      (hst.keeps_replaceSelect (hread rfl)) fun hv => Stage.mentions_replaceSelect hv)

/-- The array of an expression, which is iterated. -/
theorem yields_path {e : Expr} (hn : sizeOf e < n) (hk : e.Keeping)
    (hg : stage.layer.hasGroupBy = false) (hsel : stage.layer.selection = none) {x : String}
    (hx : Record.get? bs x = some stage.layer.row) (hread : p = true → e.Reads x) :
    (do
      let path ← scalar env e
      return stage.addJoin (← fresh "v") path : Compilation Stage).Yields name
      ⟨.outer m :: cs, bs⟩ (B ∨ name ∈ stage.parameters) (Stage.Joined false o)
      fun st => B ∨ name ∈ st.parameters :=
  .bind (yields_read h hn hk hx) fun path hpath => .bind .fresh fun item _ =>
    .pure (hs.joined hg hsel fun hp => hpath (hread hp)) (Stage.keep rfl
      (Stage.keeps_addJoin stage item path) fun hv => Stage.mentions_addJoin hv)

theorem yields_joined {e : Expr} (hn : sizeOf e < n) (hk : e.Keeping)
    (hg : stage.layer.hasGroupBy = false) (hsel : stage.layer.selection = none) {x : String}
    (hx : Record.get? bs x = some stage.layer.row) (hread : p = true → e.origin.Reads x) :
    (joined env e stage).Yields name ⟨.outer m :: cs, bs⟩ (B ∨ name ∈ stage.parameters)
      (Stage.Joined (e.chainHas projections) o) fun st => B ∨ name ∈ st.parameters := by
  rw [joined.eq_def]
  split
  · rename_i target method args ty
    split
    · rename_i hop
      split
      · rename_i hmethod
        split
        · rename_i source arg
          simp only [Expr.call.sizeOf_spec, List.cons.sizeOf_spec] at hn
          have hsource : source.Keeping := hk.part (.of_child (by simp [Expr.children]))
          have harg : arg.Keeping := hk.part (.of_child (by simp [Expr.children]))
          rw [Expr.chainHas, hop, Bool.true_and]
          rw [Expr.origin, if_pos hop] at hread
          refine .bind .ofExcept fun l hl => ?_
          have hreads : projections.contains method.name = true →
              source.chainHas projections = true → l.body.Reads l.param := by
            intro hproj hprojected
            have := (hk.readsRows hop hproj hprojected).of_selector hl
            rwa [if_neg (by rintro heq; rw [heq] at hmethod; cases hmethod)] at this
          dsimp only
          by_cases hcall : isOperatorCall source = true
          · rw [if_pos hcall]
            refine .bind (yields_joined (by omega) hsource hg hsel hx hread) fun st hst => ?_
            exact yields_body h (by omega) harg hl fun value hvalue =>
              yields_narrowed hmethod hst fun hp hq => hvalue (hreads hp hq)
          · rw [if_neg hcall]
            rw [Expr.chainHas_of_not_operator hcall, Bool.or_false]
            rw [Expr.origin_of_not_operator hcall] at hread
            refine .bind (yields_read h (by omega) hsource hx) fun path hpath =>
              yields_items h (by omega) harg hl fun item value => ?_
            have hst : (stage.addJoin item path).Joined false o :=
              hs.joined hg hsel fun hp => hpath (hread hp)
            rw [← Bool.or_false (projections.contains method.name)]
            refine (yields_narrowed hmethod hst ?_).weaken (Or.imp_left (Stage.keep rfl
              (Stage.keeps_addJoin stage item path) fun hv => Stage.mentions_addJoin hv))
            rintro _ ⟨⟩
        · exact .throw
      · exact .throw
    · rename_i hop
      rw [Expr.chainHas_of_not_operator (e := .call target method args ty) hop]
      rw [Expr.origin_of_not_operator (e := .call target method args ty) hop] at hread
      exact yields_path h hs hn hk hg hsel hx hread
  · rename_i hne
    have hcall : ¬isOperatorCall e = true := by
      unfold isOperatorCall
      split
      · exact (hne _ _ _ _ rfl).elim
      · exact Bool.false_ne_true
    rw [Expr.chainHas_of_not_operator hcall]
    rw [Expr.origin_of_not_operator hcall] at hread
    exact yields_path h hs hn hk hg hsel hx hread
termination_by sizeOf e

/-- The items of an array in each row, which replace what the rows were projected to. -/
theorem yields_selectMany {rest : List Expr} {argCount : Nat} (hn : sizeOf rest ≤ n)
    (hk : ∀ e ∈ rest, e.Keeping) (hr : stage.Ready "SelectMany" argCount)
    (hread : p = true → ReadsRows "SelectMany" rest) :
    (apply env "SelectMany" rest stage).Yields name ⟨.outer m :: cs, bs⟩
      (B ∨ name ∈ stage.parameters) (Stage.Retains true o) fun st => B ∨ name ∈ st.parameters := by
  by_cases hrest : ∃ arg, rest = [arg]
  · obtain ⟨arg, rfl⟩ := hrest
    simp only [List.cons.sizeOf_spec] at hn
    rw [apply.eq_3]
    refine .bind .ofExcept fun l hl => ?_
    have := l.smaller
    have hbody : l.body.Keeping :=
      (hk arg (List.mem_singleton_self arg)).part (selector?_isPart hl)
    have hrow : Record.get? ((l.param, stage.layer.row) :: bs) l.param = some stage.layer.row := by
      rw [Record.get?, if_pos rfl]
    exact Yields.imp_result (.withRow_outer (yields_joined h hs (by omega) hbody hr.ungrouped
      (hr.selection (by decide)) hrow fun hp => (hread hp).of_selector hl))
        fun st hst => hst.retains
  · rw [apply.eq_4 _ _ _ fun arg ha => hrest ⟨arg, ha⟩]
    exact .throw

/-! ### All operators -/

/-- A group with its result; the result sees the key and the rows of the group. -/
theorem yields_grouped {rest : List Expr} (hn : sizeOf rest ≤ n) (hk : ∀ e ∈ rest, e.Keeping) :
    (grouped env rest stage).Yields name ⟨.outer m :: cs, bs⟩ (B ∨ name ∈ stage.parameters)
      (Stage.Retains p o) fun st => B ∨ name ∈ st.parameters := by
  rw [grouped.eq_def]
  split
  · rename_i keyArg resultArg
    simp only [List.cons.sizeOf_spec] at hn
    refine .bind .ofExcept fun l hl => .bind .ofExcept fun r hr => ?_
    have := r.smaller
    have hbody : r.body.Keeping := (hk resultArg (by simp)).part (resultSelector?_isPart hr)
    refine yields_body h (by omega) (hk keyArg (by simp)) hl fun key _ => ?_
    refine .refuse fun _ => .bind (R := fun _ => True) (.withParameter (.withGroup
      ((h r.body (by omega) hbody).scalar _ _))) fun value _ => ?_
    refine .bind .edit fun u hu => .with_result (.of_yields .edit fun w hw => ?_)
      fun _ w _ _ hrun => (hs.grouped hu (edit_eq_ok hrun).1).1
    rintro (((hb | hst) | hkey) | hvalue)
    · exact .inl hb
    · exact .inr ((hs.grouped hu hw).2 name (.inl hst))
    · exact .inr ((hs.grouped hu hw).2 name (.inr (.inl hkey)))
    · exact .inr ((hs.grouped hu hw).2 name (.inr (.inr hvalue)))
  · exact .throw

/-- **Operators lose nothing** where they neither order ordered rows anew nor project projected rows
without reading them. -/
theorem yields_apply {method : String} {rest : List Expr} {argCount : Nat} (hn : sizeOf rest ≤ n)
    (hk : ∀ e ∈ rest, e.Keeping) (hr : stage.Ready method argCount)
    (hord : orderings.contains method = true → o = false)
    (hproj : projections.contains method = true → p = true → ReadsRows method rest) :
    (apply env method rest stage).Yields name ⟨.outer m :: cs, bs⟩ (B ∨ name ∈ stage.parameters)
      (Stage.Retains (projections.contains method || p) (orderings.contains method || o))
      fun st => B ∨ name ∈ st.parameters := by
  have hg := hr.ungrouped
  by_cases hw : method = "Where"
  · subst hw
    rw [apply.eq_1]
    exact yields_selected h hn hk fun value _ => .pure hs.addWhere
      (Stage.keep rfl (Stage.keeps_addWhere stage value) fun hv => Stage.mentions_addWhere hv)
  by_cases hse : method = "Select"
  · subst hse
    rw [apply.eq_2]
    exact yields_selected h hn hk fun value hvalue => (yields_select hs hg fun hp =>
      .inl (hvalue (by decide) (hproj (by decide) hp)))
  by_cases hsm : method = "SelectMany"
  · subst hsm
    exact yields_selectMany h hs hn hk hr (hproj (by decide))
  by_cases hob : method = "OrderBy"
  · subst hob
    rw [apply.eq_5]
    exact yields_ordered h hs hn hk (hord (by decide))
  by_cases hod : method = "OrderByDescending"
  · subst hod
    rw [apply.eq_6]
    exact yields_ordered h hs hn hk (hord (by decide))
  by_cases htb : method = "ThenBy"
  · subst htb
    rw [apply.eq_7]
    exact yields_thenBy h hs hn hk
  by_cases htd : method = "ThenByDescending"
  · subst htd
    rw [apply.eq_8]
    exact yields_thenBy h hs hn hk
  by_cases hta : method = "Take"
  · subst hta
    by_cases hrest : ∃ arg, rest = [arg]
    · obtain ⟨arg, rfl⟩ := hrest
      rw [apply.eq_9]
      exact .bind (accounts_count _ _ _) fun c _ => yields_bounds hs fun u hu =>
        Stage.addTop_bounds hu
    · rw [apply.eq_10 _ _ _ fun arg ha => hrest ⟨arg, ha⟩]
      exact .throw
  by_cases hsk : method = "Skip"
  · subst hsk
    by_cases hrest : ∃ arg, rest = [arg]
    · obtain ⟨arg, rfl⟩ := hrest
      rw [apply.eq_11]
      exact .bind (accounts_count _ _ _) fun c _ =>
        yields_bounds hs fun u hu => Stage.addOffset_bounds hu
    · rw [apply.eq_12 _ _ _ fun arg ha => hrest ⟨arg, ha⟩]
      exact .throw
  by_cases hdi : method = "Distinct"
  · subst hdi
    rw [apply.eq_13]
    split
    · have hkept : stage.parameters ⊆ stage.setDistinct.parameters :=
        Stage.parameters_subset rfl (Stage.keeps_setDistinct stage)
      exact .pure hs.setDistinct (Or.imp_right fun hname => hkept hname)
    · exact .throw
  by_cases hca : method = "Count" ∨ method = "Any"
  · have hflags : projections.contains method = true ∧ orderings.contains method = false := by
      rcases hca with rfl | rfl <;> decide
    rw [hflags.1, hflags.2, Bool.true_or, Bool.false_or]
    exact yields_counted h hs hn hk hca hg (hproj hflags.1)
  by_cases hf : method = "FirstOrDefault"
  · subst hf
    rw [apply_first]
    split
    · exact .bind .requireLast fun _ _ => .bind ((yields_bounds hs fun u hu =>
        Stage.addTop_bounds hu).weaken .inl) fun st hst => .bind .setOperation fun _ _ =>
          .pure hst id
    · exact .throw
  by_cases hgb : method = "GroupBy"
  · subst hgb
    rw [apply.eq_17]
    exact yields_grouped h hs hn hk
  have hplain : method ∉ plainOperators := fun hmem => by simp_all [plainOperators]
  cases haggregate : aggregate? method with
  | none =>
    rw [apply_aggregate _ _ hplain, haggregate]
    exact .throw
  | some function =>
    have hflags : projections.contains method = true ∧ orderings.contains method = false := by
      unfold aggregate? at haggregate
      split at haggregate <;> first | decide | cases haggregate
    rw [hflags.1, hflags.2, Bool.true_or, Bool.false_or]
    exact yields_aggregated h hs hn hk hplain hg (hproj hflags.1)

end

end

end LambdaQuery.Compilation
