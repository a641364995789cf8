import LambdaQuery.Proofs.Reductions.Builtins
import LambdaQuery.Proofs.Reductions.Operations

/-!
# Reductions come last in what is compiled

Where the scalar of an expression or the stage of a chain is compiled, no operator follows a
reduction in what has been read of it (`Compilation.gives`): what an operator is applied to has been
compiled under that operator, where a reduction is refused. The induction is that of the
compilation.
-/

set_option autoImplicit false

namespace LambdaQuery

namespace Compilation

variable {s t : Scope} {method : String} {arg e : Expr}

/-! ## Shapes -/

theorem reducesLast_of_selector? {l : Selector arg} (hl : selector? method arg = .ok l)
    (hbody : l.body.ReducesLast) : arg.ReducesLast := by
  unfold selector? at hl
  split at hl
  · cases hl
  · rename_i ha
    obtain rfl := Except.ok.inj hl
    exact Expr.reducesLast_of_asLambda? ha hbody
  · cases hl

theorem reducesLast_of_resultSelector? {l : ResultSelector arg} (hl : resultSelector? arg = .ok l)
    (hbody : l.body.ReducesLast) : arg.ReducesLast := by
  unfold resultSelector? at hl
  split at hl
  · rename_i ha
    obtain rfl := Except.ok.inj hl
    exact Expr.reducesLast_of_asLambda? ha hbody
  · cases hl

theorem reducesLast_of_isRoot (h : e.isRoot = true) : e.ReducesLast := by
  cases e with
  | constant value ty => exact Expr.reducesLast_constant value ty
  | _ => cases h

theorem reducesLast_of_isZero (h : isZero e = true) : e.ReducesLast := by
  unfold isZero at h
  split at h
  · rename_i hn
    obtain ⟨v, hv, -⟩ := Option.bind_eq_some_iff.mp hn
    exact Expr.reducesLast_of_asConstant? hv
  · cases h

theorem reducesLast_of_comparedStrings? {a b : Expr}
    {hab : sizeOf (a, b).1 + sizeOf (a, b).2 < sizeOf e}
    (hc : comparedStrings? e = some ⟨(a, b), hab⟩) (ha : a.ReducesLast) (hb : b.ReducesLast) :
    e.ReducesLast := by
  have hoperands : ∀ d ∈ [a, b], d.ReducesLast :=
    List.forall_mem_cons.mpr ⟨ha, List.forall_mem_singleton.mpr hb⟩
  unfold comparedStrings? at hc
  split at hc
  · cases hc
    exact Expr.reducesLast_call rfl fun d hd => hoperands d (Expr.mem_of_mem_readOperands hd)
  · cases hc
    exact Expr.reducesLast_call rfl fun d hd => hoperands d (Expr.mem_of_mem_readOperands hd)
  · cases hc

theorem reducesLast_of_stripConversions {value : Value}
    (h : (stripConversions e).asConstant? = some value) : e.ReducesLast := by
  induction e using stripConversions.induct with
  | case1 operand ty ih =>
    rw [stripConversions] at h
    exact Expr.reducesLast_of_parts (by rintro ⟨⟩) (List.forall_mem_singleton.mpr (ih h))
  | case2 e he =>
    rw [stripConversions.eq_2 e he] at h
    exact Expr.reducesLast_of_asConstant? h

theorem reducesLast_of_functionName? {arg : Option Expr} {name : String}
    (h : functionName? arg = .ok name) : ∀ e ∈ arg, e.ReducesLast := by
  rintro e rfl
  obtain ⟨v, hv⟩ := asConstant?_of_functionName? h
  exact Expr.reducesLast_of_asConstant? hv

theorem gives_count {options : Options} :
    (count options method arg).Gives fun _ => arg.ReducesLast := by
  unfold count
  split
  · exact .throw
  · rename_i hv
    exact fun _ _ _ _ => reducesLast_of_stripConversions hv

/-! ## Expressions -/

section

variable {env : Environment} {n : Nat}
  (h : ∀ d, sizeOf d < n → ((scalar env d).Gives fun _ => d.ReducesLast) ∧
    (rows env d).Gives fun _ => d.ReducesLast)

include h

theorem gives_scalars {es : List Expr} (hn : sizeOf es ≤ n) :
    (scalars env es).Gives fun _ => ∀ d ∈ es, d.ReducesLast := by
  induction es with
  | nil =>
    rw [scalars]
    exact .pure (List.forall_mem_nil _)
  | cons e es ih =>
    simp only [List.cons.sizeOf_spec] at hn
    rw [scalars]
    exact (h e (by omega)).1.bind fun _ he => (ih (by omega)).bind fun _ hes =>
      .pure (List.forall_mem_cons.mpr ⟨he, hes⟩)

theorem gives_properties {bindings : List Binding} (hn : sizeOf bindings ≤ n) :
    (properties env bindings).Gives fun _ =>
      ∀ d ∈ Binding.childrenOfAll bindings, d.ReducesLast := by
  induction bindings with
  | nil =>
    rw [properties]
    exact .pure (List.forall_mem_nil _)
  | cons binding rest ih =>
    simp only [List.cons.sizeOf_spec] at hn
    cases binding with
    | assign m value =>
      simp only [Binding.assign.sizeOf_spec] at hn
      rw [properties]
      exact (h value (by omega)).1.bind fun _ hvalue => (ih (by omega)).bind fun _ hrest =>
        .pure (List.forall_mem_cons.mpr ⟨hvalue, hrest⟩)
    | nested m bs =>
      rw [properties]
      exact .throw
    | collect m es =>
      rw [properties]
      exact .throw

theorem gives_binary (op : BinaryOp) (left right : Expr) (ty : HostType)
    (hn : sizeOf left + sizeOf right ≤ n) :
    (binary env op left right ty).Gives fun _ => left.ReducesLast ∧ right.ReducesLast := by
  have hl := left.sizeOf_pos
  have hr := right.sizeOf_pos
  rw [binary]
  split
  · rename_i a b hab op' hc
    simp only at hab
    split
    · refine (gives_binary op' a b .boolean (by omega)).imp fun _ ⟨ha, hb⟩ => ?_
      rcases stringComparison?_eq_some hc with ⟨⟨_, hp⟩, hz⟩ | ⟨⟨_, hp⟩, hz⟩
      · exact ⟨reducesLast_of_comparedStrings? hp ha hb, reducesLast_of_isZero hz⟩
      · exact ⟨reducesLast_of_isZero hz, reducesLast_of_comparedStrings? hp ha hb⟩
    · exact .throw
  · exact (h left (by omega)).1.bind fun a hleft => (h right (by omega)).1.bind fun b hright =>
      fun _ _ _ _ => ⟨hleft, hright⟩
termination_by sizeOf left + sizeOf right

theorem gives_userFunction {args : List Expr} (hn : sizeOf args ≤ n) :
    (userFunction env args).Gives fun _ => ∀ d ∈ args, d.ReducesLast := by
  rw [userFunction]
  refine Gives.ofExcept.bind fun name hname => ?_
  have hfirst : ∀ {d : Expr} {ds : List Expr}, args = d :: ds → d.ReducesLast := fun hargs =>
    reducesLast_of_functionName? hname _ (by rw [hargs]; rfl)
  split
  · rename_i items ty
    simp only [List.cons.sizeOf_spec, Expr.newArray.sizeOf_spec] at hn
    refine ((gives_scalars h (by omega)).imp fun _ hitems => ?_).first
    exact List.forall_mem_cons.mpr ⟨hfirst rfl, List.forall_mem_singleton.mpr
      (Expr.reducesLast_of_parts (by rintro ⟨⟩) hitems)⟩
  · exact fun _ _ _ _ => List.forall_mem_cons.mpr ⟨hfirst rfl, List.forall_mem_singleton.mpr
      (Expr.reducesLast_constant _ _)⟩
  · simp only [List.cons.sizeOf_spec] at hn
    refine ((gives_scalars h (by omega)).imp fun _ hrest => ?_).first
    exact List.forall_mem_cons.mpr ⟨hfirst rfl, hrest⟩
  · exact .pure (List.forall_mem_nil _)

theorem gives_groupAggregate (method : String) {args : List Expr} (row : Scalar)
    (hgroup : ∀ d ∈ args.head?, d.ReducesLast) (hn : sizeOf args ≤ n) :
    (groupAggregate env method args row).Gives fun _ => ∀ d ∈ args, d.ReducesLast := by
  have halone : args.tail = [] → ∀ d ∈ args, d.ReducesLast := by
    intro hrest
    cases args with
    | nil => exact List.forall_mem_nil _
    | cons group rest =>
      obtain rfl : rest = [] := hrest
      exact List.forall_mem_singleton.mpr (hgroup group rfl)
  rw [groupAggregate.eq_def]
  split
  · exact .pure (halone ‹_›)
  · exact .throw
  split
  · exact .throw
  · exact .pure (List.forall_mem_nil _)
  · exact .pure (List.forall_mem_singleton.mpr (hgroup _ rfl))
  · refine Gives.ofExcept.bind fun l hl => ?_
    have := l.smaller
    simp only [List.cons.sizeOf_spec] at hn
    refine ((Gives.within (h l.body (by omega)).1).imp fun _ hbody => ?_).first
    exact List.forall_mem_cons.mpr ⟨hgroup _ rfl, List.forall_mem_singleton.mpr
      (reducesLast_of_selector? hl hbody)⟩
  · exact .throw

/-! ## Operators -/

/-- The parameter of an operator's lambda, and what its body is compiled to. -/
theorem gives_body {arg : Expr} {l : Selector arg} (hl : selector? method arg = .ok l)
    (stage : Stage) (hn : sizeOf arg ≤ n) :
    (withRow l.param stage fun stage => return (← scalar env l.body, stage)).Gives
      fun _ => arg.ReducesLast := by
  have := l.smaller
  exact .withRow fun _ => ((h l.body (by omega)).1.imp fun _ hbody =>
    reducesLast_of_selector? hl hbody).first

theorem gives_selected (method : String) {rest : List Expr} (stage : Stage)
    (hn : sizeOf rest ≤ n) :
    (selected env method rest stage).Gives fun _ => ∀ d ∈ rest, d.ReducesLast := by
  rw [selected.eq_def]
  split
  · simp only [List.cons.sizeOf_spec] at hn
    exact Gives.ofExcept.bind fun l hl => (gives_body h hl stage (by omega)).imp fun _ harg =>
      List.forall_mem_singleton.mpr harg
  · exact .throw

/-- What is joined is no reduction. -/
theorem gives_joined (e : Expr) (stage : Stage) (hn : sizeOf e < n) :
    (joined env e stage).Gives fun _ => e.isReduction = false ∧ e.ReducesLast := by
  have hpath (he : isOperatorCall e = false) : (do
      let path ← scalar env e
      return stage.addJoin (← fresh "v") path : Compilation Stage).Gives
        fun _ => e.isReduction = false ∧ e.ReducesLast :=
    ((h e hn).1.imp fun _ he' => ⟨Expr.isReduction_eq_false he, he'⟩).first
  rw [joined.eq_def]
  split
  · rename_i target m args ty
    split
    · rename_i hm
      split
      · rename_i hname
        have hno : (Expr.call target m args ty).isReduction = false := by
          rw [Expr.isReduction, hm, Bool.true_and]
          rcases Bool.or_eq_true_iff.mp hname with hname | hname <;>
            rw [beq_iff_eq.mp hname] <;> rfl
        split
        · rename_i source arg
          simp only [Expr.call.sizeOf_spec, List.cons.sizeOf_spec] at hn
          refine Gives.ofExcept.bind fun l hl => ?_
          have hcall : source.isReduction = false ∧ source.ReducesLast → arg.ReducesLast →
              (Expr.call target m [source, arg] ty).isReduction = false ∧
                (Expr.call target m [source, arg] ty).ReducesLast := fun hsource harg =>
            ⟨hno, Expr.reducesLast_operator hm hsource.1
              (List.forall_mem_cons.mpr ⟨hsource.2, List.forall_mem_singleton.mpr harg⟩)⟩
          -- Whether the body filters or selects makes no difference here.
          split
          all_goals
            dsimp only
            split
            · exact (gives_joined source stage (by omega)).bind fun stage hsource =>
                ((gives_body h hl stage (by omega)).imp fun _ => hcall hsource).first
            · rename_i hs
              exact (h source (by omega)).1.bind fun path hsource =>
                (Gives.within (gives_body h hl stage (by omega))).imp (fun _ => hcall
                  ⟨Expr.isReduction_eq_false (Bool.eq_false_iff.mpr hs), hsource⟩) |>.first
        · exact .throw
      · exact .throw
    · rename_i hm
      exact hpath (Bool.eq_false_iff.mpr hm)
  · rename_i he
    refine hpath ?_
    cases e <;> first | rfl | exact absurd rfl (he _ _ _ _)
termination_by sizeOf e

theorem gives_grouped {rest : List Expr} (stage : Stage) (hn : sizeOf rest ≤ n) :
    (grouped env rest stage).Gives fun _ => ∀ d ∈ rest, d.ReducesLast := by
  rw [grouped.eq_def]
  split
  · rename_i keyArg resultArg
    simp only [List.cons.sizeOf_spec] at hn
    refine Gives.ofExcept.bind fun l hl => Gives.ofExcept.bind fun r hr => ?_
    have := r.smaller
    refine (gives_body h hl stage (by omega)).bind fun p hkey => ?_
    obtain ⟨key, keyed⟩ := p
    refine .refuse fun _ => ?_
    refine ((Gives.within (Gives.within (h r.body (by omega)).1)).imp fun _ hbody => ?_).first
    exact List.forall_mem_cons.mpr ⟨hkey, List.forall_mem_singleton.mpr
      (reducesLast_of_resultSelector? hr hbody)⟩
  · exact .throw

theorem gives_apply (method : String) {rest : List Expr} (stage : Stage) (hn : sizeOf rest ≤ n) :
    (apply env method rest stage).Gives fun _ => ∀ d ∈ rest, d.ReducesLast := by
  have hselected : ∀ {f : Scalar × Stage → Compilation Stage} (method : String),
      (selected env method rest stage >>= f).Gives fun _ => ∀ d ∈ rest, d.ReducesLast :=
    fun method => (gives_selected h method stage hn).first
  -- An operator may do without a lambda.
  have hoptional : ∀ {x y : Compilation Stage}, (y.Gives fun _ => ∀ d ∈ rest, d.ReducesLast) →
      (if rest.isEmpty = true then x else y).Gives fun _ => ∀ d ∈ rest, d.ReducesLast := by
    intro x y hy
    split
    · rename_i hr
      rw [List.isEmpty_iff.mp hr]
      exact fun _ _ _ _ => List.forall_mem_nil _
    · exact hy
  rw [apply.eq_def]
  split
  · exact hselected _
  · exact hselected _
  · split
    · simp only [List.cons.sizeOf_spec] at hn
      refine Gives.ofExcept.bind fun l hl => ?_
      have := l.smaller
      exact .withRow fun stage => (gives_joined h l.body stage (by omega)).imp fun _ hbody =>
        List.forall_mem_singleton.mpr (reducesLast_of_selector? hl hbody.2)
    · exact .throw
  · exact hselected _
  · exact hselected _
  · exact hselected _
  · exact hselected _
  · split
    · exact (gives_count.imp fun _ harg => List.forall_mem_singleton.mpr harg).first
    · exact .throw
  · split
    · exact (gives_count.imp fun _ harg => List.forall_mem_singleton.mpr harg).first
    · exact .throw
  · exact hoptional .throw
  · exact .refuse fun _ => .second fun _ => hoptional (hselected _)
  · exact .refuse fun _ => .second fun _ => hoptional (hselected _)
  · refine .refuse fun hr _ _ _ _ => ?_
    have hrest : rest.isEmpty = true := by simpa using hr
    rw [List.isEmpty_iff.mp hrest]
    exact List.forall_mem_nil _
  · exact gives_grouped h stage hn
  · split
    · exact .throw
    · exact .refuse fun _ => .second fun _ => hoptional (hselected _)

/-- An operator is compiled under itself, so that its source is no reduction. -/
theorem gives_operator (method : String) {args : List Expr} (hn : sizeOf args ≤ n) :
    (withMethod method (operator env method args)).Gives fun _ =>
      args.head?.any Expr.isReduction = false ∧ ∀ d ∈ args, d.ReducesLast := by
  intro s st t hrun
  obtain ⟨u, hoperator, -⟩ := within_eq_ok hrun
  obtain ⟨source, rest, input, v, x, w, y, rfl, hrows, -, -, happly, -⟩ := operator_eq_ok hoperator
  simp only [List.cons.sizeOf_spec] at hn
  refine ⟨isReduction_of_source (List.cons_ne_nil _ _) hrows, List.forall_mem_cons.mpr ⟨?_, ?_⟩⟩
  · exact (h source (by omega)).2 _ _ _ hrows
  · exact gives_apply h method x (by omega) _ _ _ happly

/-- The scalar of an expression, when the scalars and chains in it are compiled so. -/
theorem gives_node {e : Expr} (hn : sizeOf e = n) :
    (scalar env e).Gives fun _ => e.ReducesLast := by
  subst hn
  have hchild : ∀ {d}, d ∈ e.children → (scalar env d).Gives fun _ => d.ReducesLast :=
    fun hd => (h _ (Expr.sizeOf_child hd)).1
  have hparts : ∀ {x : Compilation Scalar} {e : Expr}, e.kind ≠ .call →
      (x.Gives fun _ => ∀ d ∈ e.readParts, d.ReducesLast) → x.Gives fun _ => e.ReducesLast :=
    fun hk hx => hx.imp fun _ => Expr.reducesLast_of_parts hk
  cases e with
  | constant value ty => exact fun _ _ _ _ => Expr.reducesLast_constant value ty
  | parameter name ty => exact fun _ _ _ _ => Expr.reducesLast_parameter name ty
  | member object m ty =>
    cases object with
    | none =>
      rw [scalar]
      exact .throw
    | some object =>
      refine hparts (by rintro ⟨⟩) ?_
      rw [scalar]
      exact ((hchild (List.mem_singleton_self object)).imp fun _ hobject =>
        List.forall_mem_singleton.mpr hobject).first
  | binary op left right ty =>
    refine hparts (by rintro ⟨⟩) ?_
    rw [scalar]
    refine (gives_binary h op left right ty ?_).imp fun _ h =>
      List.forall_mem_cons.mpr ⟨h.1, List.forall_mem_singleton.mpr h.2⟩
    simp only [Expr.binary.sizeOf_spec]
    omega
  | unary op operand ty =>
    refine hparts (by rintro ⟨⟩) ?_
    rw [scalar]
    exact ((hchild (List.mem_singleton_self operand)).imp fun _ hoperand =>
      List.forall_mem_singleton.mpr hoperand).first
  | conditional test ifTrue ifFalse ty =>
    refine hparts (by rintro ⟨⟩) ?_
    rw [scalar]
    exact (hchild (by simp [Expr.children])).bind fun _ htest =>
      (hchild (by simp [Expr.children])).bind fun _ htrue =>
        ((hchild (by simp [Expr.children])).imp fun _ hfalse => List.forall_mem_cons.mpr
          ⟨htest, List.forall_mem_cons.mpr ⟨htrue, List.forall_mem_singleton.mpr hfalse⟩⟩).first
  | call target method args ty =>
    have hargs : sizeOf args ≤ sizeOf (Expr.call target method args ty) := by
      simp only [Expr.call.sizeOf_spec]
      omega
    rw [scalar]
    split
    · rename_i hm
      refine (gives_userFunction h hargs).imp fun _ hread => Expr.reducesLast_call ?_ fun d hd =>
        hread d (Expr.mem_args_of_mem_readOperands (by rw [hm]; rfl) hd)
      rw [Method.isOperator, hm]
    refine .second fun s => ?_
    split
    · rename_i row hrow
      obtain ⟨hm, name, ty, rest, rfl⟩ := groupSource?_eq_some hrow
      refine (gives_groupAggregate h method.name row ?_ hargs).imp fun _ hread =>
        Expr.reducesLast_operator hm rfl hread
      rintro _ ⟨⟩
      exact Expr.reducesLast_parameter name ty
    split
    · rename_i hnested
      have hm : method.isOperator = true := by
        unfold isNestedQuery at hnested
        simp only [Bool.and_eq_true] at hnested
        exact hnested.1.1.2
      exact ((Gives.within (gives_operator h method.name hargs)).imp fun _ h =>
        Expr.reducesLast_operator hm h.1 h.2).first
    · rename_i hnested
      have hbuiltin := gives_builtin ty hnested fun _ hd => hchild hd
      cases target with
      | none => exact hbuiltin
      | some target => exact hbuiltin
  | construct args members ty =>
    refine hparts (by rintro ⟨⟩) ?_
    rw [Expr.readParts, scalar.eq_def]
    dsimp only
    split
    · exact fun _ _ _ _ => List.forall_mem_nil _
    have hargs : sizeOf args ≤ sizeOf (Expr.construct args members ty) := by
      simp only [Expr.construct.sizeOf_spec]
      omega
    split
    · split
      · exact .throw
      · exact (gives_scalars h hargs).first
    · split
      · rename_i hempty
        rw [List.isEmpty_iff.mp hempty]
        exact fun _ _ _ _ => List.forall_mem_nil _
      · exact .throw
  | memberInit base bindings ty =>
    refine hparts (by rintro ⟨⟩) ?_
    rw [scalar]
    refine (gives_properties h ?_).first
    simp only [Expr.memberInit.sizeOf_spec]
    omega
  | newArray items ty =>
    refine hparts (by rintro ⟨⟩) ?_
    rw [scalar]
    refine (gives_scalars h ?_).first
    simp only [Expr.newArray.sizeOf_spec]
    omega
  | listInit | lambda | invoke =>
    rw [scalar]
    exact .throw

theorem gives_chain {e : Expr} (hn : sizeOf e = n) : (rows env e).Gives fun _ => e.ReducesLast := by
  have hitems : (do
      let path ← scalar env e
      return .overItems (← fresh "v") path : Compilation Stage).Gives fun _ => e.ReducesLast :=
    (gives_node h hn).first
  rw [rows.eq_def]
  split
  · rename_i target method args ty
    split
    · rename_i hm
      simp only [Expr.call.sizeOf_spec] at hn
      exact (gives_operator h method.name (by omega)).imp fun _ h =>
        Expr.reducesLast_operator hm h.1 h.2
    refine .second fun s => ?_
    split
    · exact hitems
    · exact .throw
  · refine .second fun s => ?_
    split
    · exact hitems
    split
    · rename_i hroot
      exact .pure (reducesLast_of_isRoot hroot)
    · exact .throw

end

variable (env : Environment)

/-- **Reductions come last** in what is read of an expression that has a scalar, or of a chain that
has a stage. -/
theorem gives (e : Expr) :
    ((scalar env e).Gives fun _ => e.ReducesLast) ∧ (rows env e).Gives fun _ => e.ReducesLast := by
  induction hn : sizeOf e using Nat.strongRecOn generalizing e with
  | ind n ih => exact ⟨gives_node (fun d hd => ih _ hd d rfl) hn,
      gives_chain (fun d hd => ih _ hd d rfl) hn⟩

end Compilation

end LambdaQuery
