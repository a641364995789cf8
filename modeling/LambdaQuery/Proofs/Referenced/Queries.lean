import LambdaQuery.Proofs.Referenced.Operators

/-!
# Queries that refer to all reported parameters

By induction on the size of expressions the scalars refer to all that their computations put into
use, and the stages of chains as well. A query keeps all that its stage refers to, so that the
parameters reported are those that it refers to (`Expr.compile_referenced`), where no operator
replaces what another one has set.
-/

set_option autoImplicit false

namespace LambdaQuery

namespace Compilation

variable {env : Environment} {name : String} {k : Stacks} {B : Prop} {n : Nat}

/-! ## Chains -/

theorem yields_layered {stage : Stage} {p o : Bool} (hs : stage.Retains p o) {method : String}
    (hc : checkOrder stage method = .ok ()) (argCount : Nat) :
    (layered stage method argCount).Yields name k (B ∨ name ∈ stage.parameters)
      (fun st => st.Retains p o ∧ st.Ready method argCount) fun st => B ∨ name ∈ st.parameters := by
  have hg := (Stage.checkOrder_eq_ok.mp hc).1
  unfold layered
  split
  · exact .bind .fresh fun r _ => .pure ⟨hs.package hg r, .package hc r⟩ (Or.imp_right fun hname =>
      Stage.mem_parameters.mpr (.inr (List.mem_flatMap.mp hname)))
  · rename_i hl
    exact .pure ⟨hs, .of_checkOrder hc (Bool.eq_false_iff.mpr hl)⟩ id

section

variable (h : ∀ d, sizeOf d < n → d.Keeping → Referenced env name d)

include h

theorem yields_operator {target : Option Expr} {m : Method} {args : List Expr} {ty : HostType}
    (hm : m.isOperator = true) (hn : sizeOf args ≤ n) (hk : (Expr.call target m args ty).Keeping) :
    (operator env m.name args).Yields name k B
      (Stage.Retains ((Expr.call target m args ty).chainHas projections)
        ((Expr.call target m args ty).chainHas orderings)) fun st => B ∨ name ∈ st.parameters := by
  obtain ⟨cs, bs⟩ := k
  cases args with
  | nil =>
    rw [operator]
    exact .throw
  | cons source rest =>
    simp only [List.cons.sizeOf_spec] at hn
    have hsource : source.Keeping := hk.part (.of_child (by simp [Expr.children]))
    rw [operator, Expr.chainHas, Expr.chainHas, hm, Bool.true_and, Bool.true_and]
    refine .bind ((h source (by omega) hsource).rows _ B) fun input hinput => ?_
    refine .bind .ofExcept fun _ hc => .bind (yields_layered hinput hc _) fun stage hstage => ?_
    refine .withCollection (yields_apply h hstage.1 (by omega) (fun e he => hk.part (.of_child ?_))
      hstage.2 (fun hord => ?_) fun hproj hp => hk.readsRows hm hproj hp)
    · exact List.mem_append_right _ (List.mem_cons_of_mem _ he)
    · exact Bool.eq_false_iff.mpr fun ho => hk _ .self ⟨hm, .inl ⟨hord, ho⟩⟩

/-- A call is a user function, an aggregate of a group, a nested query or a builtin function. -/
theorem mentioned_call {target : Option Expr} {method : Method} {args : List Expr} {ty : HostType}
    (hn : sizeOf (Expr.call target method args ty) = n)
    (hk : (Expr.call target method args ty).Keeping) :
    (scalar env (.call target method args ty)).Mentioned name := by
  intro k B
  have hargs : sizeOf args ≤ n := by
    simp only [Expr.call.sizeOf_spec] at hn
    omega
  have hkeeping : ∀ e ∈ args, e.Keeping := fun e he =>
    hk.part (.of_child (List.mem_append_right _ he))
  rw [scalar]
  split
  · exact accounts_userFunction h hargs hkeeping k B
  refine .bind .get fun s => ?_
  split
  · exact accounts_groupAggregate h method.name _ hargs hkeeping k B
  split
  · rename_i hnested
    have hop : method.isOperator = true := by
      simp only [isNestedQuery, Bool.and_eq_true] at hnested
      exact hnested.1.1.2
    -- The query of a nested chain refers to all that its stage does.
    exact Yields.bind (.nested (.withMethod (yields_operator h hop hargs hk))) fun stage hstage =>
      Yields.bind .flattened fun q hq => Accounts.pure (Or.imp_right fun hname =>
        mentions_nestedScalar method.name (hstage.lossless.parameters hq hname))
  · have hoperands : ∀ d ∈ target.toList ++ args, (scalar env d).Mentioned name := fun d hd =>
      (h d (hn ▸ Expr.sizeOf_child (e := .call target method args ty) hd)
        (hk.part (.of_child hd))).scalar
    cases target with
    | none => exact accounts_call method (by simpa using hoperands) k B
    | some target => exact accounts_call method (by simpa using hoperands) k B

/-- An object of an anonymous type has a property for each of its members. -/
theorem mentioned_construct {args : List Expr} {members : Option (List Member)} {ty : HostType}
    (hn : sizeOf (Expr.construct args members ty) = n)
    (hk : (Expr.construct args members ty).Keeping) :
    (scalar env (.construct args members ty)).Mentioned name := by
  intro k B
  have hargs : sizeOf args ≤ n := by
    simp only [Expr.construct.sizeOf_spec] at hn
    omega
  rw [scalar.eq_def]
  dsimp only
  split
  · exact .bind .ofHost fun _ => .imp .ofExcept fun _ => .inl
  split
  · rename_i members
    split
    · exact .throw
    · rename_i hlength
      have hvalues : (scalars env args).Yields name k B (fun as => as.length = args.length)
          fun as => B ∨ ∃ a ∈ as, a.Mentions name :=
        .with_result (accounts_scalars h hargs fun e he => hk.part (.of_child he))
          fun s as t _ hrun => gives_length_scalars args s as t hrun
      refine Yields.bind hvalues fun as has => Accounts.pure (Or.imp_right ?_)
      rintro ⟨a, ha, hname⟩
      exact mentions_zip (by rw [List.length_map, has, not_not.mp hlength]) ha hname
  · split
    · exact .pure .inl
    · exact .throw

/-- The scalar of an expression, when the scalars and chains in it are as they should be. -/
theorem mentioned_node {e : Expr} (hn : sizeOf e = n) (hk : e.Keeping) :
    (scalar env e).Mentioned name := by
  subst hn
  have hchild : ∀ {d}, d ∈ e.children → (scalar env d).Mentioned name := fun hd =>
    (h _ (Expr.sizeOf_child hd) (hk.part (.of_child hd))).scalar
  intro k B
  cases e with
  | constant value ty =>
    rw [scalar]
    exact accounts_constant env.options ty value k B
  | parameter x ty =>
    rw [scalar]
    refine .bind .get fun s => ?_
    split
    · exact .pure .inl
    · exact .throw
  | member object m ty =>
    cases object with
    | none =>
      rw [scalar]
      exact .throw
    | some object =>
      rw [scalar]
      exact .bind (hchild (List.mem_singleton_self object) _ _) fun _ =>
        .pure (Or.imp_right (mentions_memberOf _ _ _))
  | binary op left right ty =>
    rw [scalar]
    refine accounts_binary h op left right ty ?_ (hk.part (.of_child (by simp [Expr.children])))
      (hk.part (.of_child (by simp [Expr.children]))) k B
    simp only [Expr.binary.sizeOf_spec]
    omega
  | unary op operand ty =>
    rw [scalar]
    exact .bind (hchild (List.mem_singleton_self operand) _ _) fun _ =>
      .pure (Or.imp_right (mentions_unaryOf _))
  | conditional test ifTrue ifFalse ty =>
    rw [scalar]
    exact .bind (hchild (by simp [Expr.children]) _ _) fun _ =>
      .bind (hchild (by simp [Expr.children]) _ _) fun _ =>
        .bind (hchild (by simp [Expr.children]) _ _) fun _ =>
          .pure fun h => by simpa [or_assoc] using h
  | call target method args ty => exact mentioned_call h rfl hk k B
  | construct args members ty => exact mentioned_construct h rfl hk k B
  | memberInit base bindings ty =>
    rw [scalar]
    refine .bind (accounts_properties h ?_ fun e he =>
      hk.part (.of_child (List.mem_cons_of_mem _ he))) fun _ => .pure fun h => by simpa using h
    simp only [Expr.memberInit.sizeOf_spec]
    omega
  | newArray items ty =>
    rw [scalar]
    refine .bind (accounts_scalars h ?_ fun e he => hk.part (.of_child he)) fun _ =>
      .pure fun h => by simpa using h
    simp only [Expr.newArray.sizeOf_spec]
    omega
  | listInit | lambda | invoke =>
    rw [scalar]
    exact .throw

theorem yields_rows {e : Expr} (hn : sizeOf e = n) (hk : e.Keeping) :
    (rows env e).Yields name k B (Stage.Retains (e.chainHas projections) (e.chainHas orderings))
      fun st => B ∨ name ∈ st.parameters := by
  have hitems : ∀ {p o : Bool}, (do
      let path ← scalar env e
      return .overItems (← fresh "v") path : Compilation Stage).Yields name k B (Stage.Retains p o)
      fun st => B ∨ name ∈ st.parameters :=
    .bind (mentioned_node h hn hk _ _) fun path _ => .bind .fresh fun item _ =>
      .pure (Stage.Retains.ofSource item (.items path)) (Or.imp_right Stage.mentions_overItems)
  rw [rows.eq_def]
  split
  · rename_i target m args ty
    split
    · rename_i hop
      refine .withMethod (yields_operator h hop ?_ hk)
      simp only [Expr.call.sizeOf_spec] at hn
      omega
    refine .bind .get fun s _ => ?_
    split
    · exact hitems
    · exact .throw
  · refine .bind .get fun s _ => ?_
    split
    · exact hitems
    split
    · exact .pure (Stage.Retains.ofSource _ _) .inl
    · exact .throw

end

variable (env name)

/-- **Nothing in use is lost** where no operator replaces what another one has set. -/
theorem referenced (e : Expr) (hk : e.Keeping) : Referenced env name e := by
  induction hn : sizeOf e using Nat.strongRecOn generalizing e with
  | ind n ih =>
    have hsmaller : ∀ d, sizeOf d < n → d.Keeping → Referenced env name d :=
      fun d hd hkd => ih _ hd d hkd rfl
    exact ⟨mentioned_node hsmaller hn hk, fun _ _ => yields_rows hsmaller hn hk⟩

/-- The query of a chain that loses nothing refers to all parameters in use. -/
theorem reported_subset {e folded : Expr} {q : Query} {t : Scope}
    (hf : e.fold env.evaluator = .ok folded) (hk : folded.Keeping)
    (h : query env e .initial = (.ok q, t)) : t.reported ⊆ q.parameters := by
  intro name hname
  have hrun : (query env e).Accounts name Scope.initial.stacks False
      fun q => False ∨ name ∈ q.parameters := by
    unfold query
    rw [hf]
    refine Yields.bind (R := (· = folded)) (P := fun _ => False) (.pure rfl id) fun d hd => ?_
    subst hd
    refine Accounts.bind (P := fun _ => False) (Yields.same fun s _ _ hrun => ?_) fun _ => ?_
    · cases hrun
      obtain ⟨names, hdeclare, -⟩ := s.addNames_eq d.parameterNames
      dsimp only [Scope.declare]
      rw [hdeclare]
      exact ⟨rfl, rfl, trivial⟩
    exact Yields.bind ((referenced env name _ hk).rows _ _) fun stage hstage =>
      Accounts.of_yields .flattened fun q hq => Or.imp_right fun hname =>
        hstage.lossless.parameters hq hname
  exact ((hrun _ _ _ rfl (by simp [Scope.reported, Scope.initial]) h).2.2 hname).resolve_left id

end Compilation

namespace Expr

variable {env : Environment}

/-- **All reported parameters are referred to**, unless an operator orders ordered rows anew or
projects projected rows without reading them. -/
theorem compile_referenced {target : Option Expr} {m : Method} {args : List Expr} {ty : HostType}
    {folded : Expr} {c : Compiled} (hm : m.declaring ≠ .queryEscape)
    (hf : (Expr.call target m args ty).fold env.evaluator = .ok folded) (hk : folded.Keeping)
    (h : (Expr.call target m args ty).compile env = .ok c) :
    ∃ q prepared, (Expr.call target m args ty).toQuery env = .ok q ∧ c.query = some prepared ∧
      prepared.text = (if env.options.pretty then q.pretty else q.text) ∧
        ∀ p ∈ prepared.parameters, p.name ∈ q.parameters := by
  obtain ⟨q, t, hq, rfl⟩ := compile_call hm h
  exact ⟨q, _, congrArg Prod.fst hq, rfl, rfl, fun p hp =>
    Compilation.reported_subset env hf hk hq (List.mem_map_of_mem hp)⟩

/-- The distance of a larger size from zero: the second projection hands the first one to a
function. -/
theorem compile_referenced_distance :
    let env : Environment :=
      ⟨⟨⟨.declared, []⟩, [⟨"p", .integer 5⟩], false⟩, Interpreter.empty.evaluate⟩
    let size := (Expr.parameter "r" (.model "Row")).property "Size" .int32
    let larger := Expr.binary .add size (.int 5) .int32
    let distance := Expr.staticCall ⟨.math, "Abs"⟩ [.parameter "s" .int32] .int32
    let e := (((Queryable.root (.model "Row")).select (.unary "r" (.model "Row") larger)).select
      (.unary "s" .int32 distance)).expr
    ∃ c q prepared, e.compile env = .ok c ∧ e.toQuery env = .ok q ∧ c.query = some prepared ∧
      q.parameters = ["@p"] ∧ prepared.text = q.text ∧
        ∀ p ∈ prepared.parameters, p.name ∈ q.parameters := by
  intro env size larger distance e
  have hparameters : (e.toQuery env).map Query.parameters = .ok ["@p"] := by
    subst e distance larger size env
    cbv
  have hfold : e.fold env.evaluator = .ok e := by
    subst e distance larger size env
    cbv
  -- The second `Select` is the only operator over a projection.
  have hkeeping : e.Keeping := by
    have hsize : size.Keeping := .of_children id (List.forall_mem_singleton.mpr (.leaf rfl))
    have hlarger : (Expr.quote (.unary "r" (.model "Row") larger)).Keeping :=
      .quote (.binary hsize (.leaf rfl))
    have hdistance : (Expr.quote (.unary "s" .int32 distance)).Keeping :=
      .quote (.of_children (fun h => Bool.false_ne_true h.1)
        (List.forall_mem_singleton.mpr (.leaf rfl)))
    refine .of_children ?_ (List.forall_mem_cons.mpr ⟨.of_children ?_ (List.forall_mem_cons.mpr
      ⟨.leaf rfl, List.forall_mem_singleton.mpr hlarger⟩),
        List.forall_mem_singleton.mpr hdistance⟩)
    · rintro ⟨-, ⟨horder, -⟩ | ⟨-, -, hreads⟩⟩
      · exact absurd horder (by decide)
      · refine hreads (.inr ⟨_, ⟨"s", distance, by decide⟩, rfl, rfl, ?_⟩)
        rw [if_neg (by decide)]
        exact .passed rfl rfl List.mem_cons_self .parameter
    · rintro ⟨-, ⟨horder, -⟩ | ⟨-, hprojected, -⟩⟩
      · exact absurd horder (by decide)
      · cases hprojected
  rcases hquery : Compilation.query env e .initial with ⟨_ | r, t⟩
  · rw [show e.toQuery env = _ from congrArg Prod.fst hquery] at hparameters
    cases hparameters
  have hc : e.compile env = .ok ⟨some ⟨r.text, t.parameters⟩, t.clientOperation⟩ := by
    show e.compileChain env = _
    rw [compileChain, hquery]
    rfl
  obtain ⟨q, prepared, hq, hprepared, htext, hreferenced⟩ :=
    compile_referenced (show Declaring.queryable ≠ .queryEscape by decide) hfold hkeeping hc
  have hp : q.parameters = ["@p"] := by
    rw [show e.toQuery env = .ok q from hq] at hparameters
    exact Except.ok.inj hparameters
  exact ⟨_, q, prepared, hc, hq, hprepared, hp, htext, hreferenced⟩

end Expr

end LambdaQuery
