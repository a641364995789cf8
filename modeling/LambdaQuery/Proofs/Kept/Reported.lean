import LambdaQuery.Proofs.Kept.Windows

/-!
# Reported parameters

The parameters that a compiled query is reported with are those that its scope has in use. All that
the query refers to are among them, none twice, and each has a name that a query may have for it
(`Expr.compile_parameters`). Not all of them are referred to: a constant is bound when it is
compiled, and the clause that it stands in may be replaced by another one
(`Expr.compile_unreferenced`).
-/

set_option autoImplicit false

namespace LambdaQuery

variable {env : Environment}

/-! ## Names of parameters -/

/-- An at sign, a letter or an underscore, and letters, digits and underscores. -/
theorem isParameterName_iff {name : String} :
    isParameterName name = true ↔ ∃ c rest, name.toList = '@' :: c :: rest ∧
      (c.isAlpha ∨ c = '_') ∧ ∀ d ∈ rest, d.isAlphanum ∨ d = '_' := by
  have hstart : ∀ c, isNameStart c = true ↔ c.isAlpha ∨ c = '_' := fun c => by simp [isNameStart]
  have hrest : ∀ d, (isNameStart d || d.isDigit) = true ↔ d.isAlphanum ∨ d = '_' := fun d => by
    simp only [Bool.or_eq_true, hstart, Char.isAlphanum]
    exact or_right_comm
  unfold isParameterName
  split
  · rename_i rest heq
    rw [heq]
    cases rest with
    | nil => simp [isIdentifier]
    | cons c rest => simp [isIdentifier, hstart, hrest]
  · rename_i hne
    refine ⟨nofun, ?_⟩
    rintro ⟨c, rest, heq, -⟩
    exact (hne _ heq).elim

theorem Part.Sound.parameters {names : List String} {p : Part} (h : p.Sound names) :
    p.parameters ⊆ names := by
  cases p with
  | parameter name => exact List.cons_subset.mpr ⟨h, List.nil_subset _⟩
  | window w =>
    intro name hname
    obtain ⟨c, hc, hname⟩ := List.mem_filterMap.mp hname
    cases c with
    | literal => cases hname
    | parameter =>
      cases hname
      exact h.counts _ hc

namespace Compilation

/-- The parameters that a query refers to are in use. -/
theorem query_parameters {e : Expr} {q : Query} {t : Scope}
    (h : query env e .initial = (.ok q, t)) :
    q.parameters ⊆ t.reported ∧ Reportable t.parameters := by
  refine ⟨fun name hname => ?_, ?_⟩
  · obtain ⟨p, hp, hname⟩ := List.mem_flatMap.mp hname
    exact (query_sound h p hp).parameters hname
  · have hg : Scope.initial.Grows t := by
      have hg := (Invariant.trivial.query env e).grows
      rwa [h] at hg
    exact hg.reports ⟨List.nodup_nil, fun _ h => (List.not_mem_nil h).elim⟩

end Compilation

namespace Expr

/-- What is prepared of a chain of operators. -/
theorem compile_call {target : Option Expr} {m : Method} {args : List Expr} {ty : HostType}
    {c : Compiled} (hm : m.declaring ≠ .queryEscape)
    (h : (Expr.call target m args ty).compile env = .ok c) :
    ∃ q t, Compilation.query env (.call target m args ty) .initial = (.ok q, t) ∧
      c = ⟨some ⟨if env.options.pretty then q.pretty else q.text, t.parameters⟩,
        t.clientOperation⟩ := by
  simp only [compile, if_neg hm, compileChain] at h
  split at h
  · rename_i q t hq
    exact ⟨q, t, hq, (Except.ok.inj h).symm⟩
  · cases h

/-- **No parameter dangles.** Where a call of an operator compiles, all parameters that its query
refers to are reported, each of them once, and under a name of the form `@name`. -/
theorem compile_parameters {target : Option Expr} {m : Method} {args : List Expr} {ty : HostType}
    {c : Compiled} (hm : m.declaring ≠ .queryEscape)
    (h : (Expr.call target m args ty).compile env = .ok c) :
    ∃ q prepared, (Expr.call target m args ty).toQuery env = .ok q ∧ c.query = some prepared ∧
      prepared.text = (if env.options.pretty then q.pretty else q.text) ∧
        (∀ name ∈ q.parameters, ∃ p ∈ prepared.parameters, p.name = name) ∧
          (prepared.parameters.map (·.name)).Nodup ∧
            ∀ p ∈ prepared.parameters, ∃ c rest, p.name.toList = '@' :: c :: rest ∧
              (c.isAlpha ∨ c = '_') ∧ ∀ d ∈ rest, d.isAlphanum ∨ d = '_' := by
  obtain ⟨q, t, hq, rfl⟩ := compile_call hm h
  obtain ⟨hparameters, hreports⟩ := Compilation.query_parameters hq
  refine ⟨q, _, congrArg Prod.fst hq, rfl, rfl, fun name hname => ?_, hreports.once,
    fun p hp => isParameterName_iff.mp (hreports.named p hp)⟩
  exact List.mem_map.mp (hparameters hname)

/-- The least size of a row is a parameter. -/
theorem compile_parameters_size :
    let env : Environment :=
      ⟨⟨⟨.declared, []⟩, [⟨"size", .integer 3⟩], false⟩, Interpreter.empty.evaluate⟩
    let size := (Expr.parameter "r" (.model "Row")).property "Size" .int32
    let test := Expr.compare .greaterThanOrEqual size (.int 3)
    let e := ((Queryable.root (.model "Row")).filter (.unary "r" (.model "Row") test)).expr
    ∃ c q prepared, e.compile env = .ok c ∧ e.toQuery env = .ok q ∧ c.query = some prepared ∧
      q.parameters = ["@size"] ∧ prepared.text = q.text ∧
        (∀ name ∈ q.parameters, ∃ p ∈ prepared.parameters, p.name = name) ∧
          (prepared.parameters.map (·.name)).Nodup ∧
            ∀ p ∈ prepared.parameters, ∃ c rest, p.name.toList = '@' :: c :: rest ∧
              (c.isAlpha ∨ c = '_') ∧ ∀ d ∈ rest, d.isAlphanum ∨ d = '_' := by
  intro env size test e
  have hparameters : (e.toQuery env).map Query.parameters = .ok ["@size"] := by
    subst e test size env
    cbv
  rcases hquery : Compilation.query env e .initial with ⟨_ | r, t⟩
  · rw [show e.toQuery env = _ from congrArg Prod.fst hquery] at hparameters
    cases hparameters
  have hc : e.compile env = .ok ⟨some ⟨r.text, t.parameters⟩, t.clientOperation⟩ := by
    show e.compileChain env = _
    rw [compileChain, hquery]
    rfl
  obtain ⟨q, prepared, hq, hprepared, htext, hproperties⟩ :=
    compile_parameters (show Declaring.queryable ≠ .queryEscape by decide) hc
  have hsize : q.parameters = ["@size"] := by
    rw [show e.toQuery env = .ok q from hq] at hparameters
    exact Except.ok.inj hparameters
  exact ⟨_, q, prepared, hc, hq, hprepared, hsize, htext, hproperties⟩

/-- The sizes are ordered with a parameter in use; then the names order the rows instead. -/
theorem compile_unreferenced :
    let env : Environment :=
      ⟨⟨⟨.declared, []⟩, [⟨"p", .integer 5⟩], false⟩, Interpreter.empty.evaluate⟩
    let row := Expr.parameter "r" (.model "Row")
    let larger := Expr.binary .add (row.property "Size" .int32) (.int 5) .int32
    let e := (((Queryable.root (.model "Row")).orderBy (.unary "r" (.model "Row") larger)).orderBy
      (.unary "r" (.model "Row") (row.property "Name" .string))).expr
    ∃ c q prepared, e.compile env = .ok c ∧ e.toQuery env = .ok q ∧ c.query = some prepared ∧
      ∃ p ∈ prepared.parameters, p.name ∉ q.parameters := by
  intro env row larger e
  have hrun : (Compilation.query env e .initial).map (·.map Query.parameters)
      (·.parameters.map (·.name)) = (.ok [], ["@p"]) := by
    subst e larger row env
    cbv
  rcases hquery : Compilation.query env e .initial with ⟨_ | q, t⟩
  · rw [hquery] at hrun
    cases (Prod.mk.inj hrun).1
  rw [hquery] at hrun
  have hnone : q.parameters = [] := Except.ok.inj (Prod.mk.inj hrun).1
  have hreported : t.parameters.map (·.name) = ["@p"] := (Prod.mk.inj hrun).2
  have hc : e.compile env = .ok ⟨some ⟨q.text, t.parameters⟩, t.clientOperation⟩ := by
    show e.compileChain env = _
    rw [compileChain, hquery]
    rfl
  obtain ⟨p, hp, -⟩ := List.mem_map.mp (hreported ▸ List.mem_singleton_self "@p")
  refine ⟨_, q, _, hc, congrArg Prod.fst hquery, rfl, p, hp, ?_⟩
  rw [hnone]
  exact List.not_mem_nil

end Expr

end LambdaQuery
