import LambdaQuery.Proofs.Kept.Builtins
import LambdaQuery.Proofs.Kept.Refusals
import LambdaQuery.Proofs.Subexpressions

/-!
# Invariants of scalars

The scalar of a node satisfies the invariant when those of its parts do, and, if it is a call, the
aggregate or the nested query that it is (`ScalarInvariant.scalar_node`). One lemma for each kind of
node; the induction is in `Kept.Operators`.
-/

set_option autoImplicit false

namespace LambdaQuery

open Compilation

/-! ## Refused shapes -/

theorem Compilation.selector?_external {method : String} {arg : Expr} {e : CompileError}
    (h : selector? method arg = .error e) : e.isInternal = false := by
  unfold selector? at h
  split at h <;> cases h <;> rfl

theorem Compilation.functionName?_external {arg : Option Expr} {e : CompileError}
    (h : functionName? arg = .error e) : e.isInternal = false := by
  unfold functionName? at h
  split at h
  · split at h
    · cases h
      rfl
    · split at h <;> cases h
      rfl
  · cases h
    rfl

namespace ScalarInvariant

variable (I : ScalarInvariant) (env : Environment)

/-- The scalar of an expression satisfies the invariant, from a scope on. -/
def Keeps (s : Scope) (e : Expr) : Prop := ∀ t, s.Grows t → (scalar env e).Ensures t I.holds

variable {I env} {s t : Scope}

theorem Keeps.grows {e : Expr} (h : I.Keeps env s e) (hg : s.Grows t) : I.Keeps env t e :=
  fun u hu => h u (hg.trans hu)

/-! ## Parts -/

theorem memberOf {a : Scalar} (h : I.holds s a) (naming : Naming) (ty : HostType) (m : Member) :
    I.holds s (Compilation.memberOf naming ty m a) := by
  unfold Compilation.memberOf
  split
  · exact h
  · split
    · exact I.function (by simpa using h) rfl
    · split
      · exact I.function (by simpa using h) rfl
      · exact I.function (by simpa using h) rfl
      · exact I.function (by simpa using h) rfl
      · exact I.index h (I.literal _)

theorem unaryOf {a : Scalar} (h : I.holds s a) (op : UnaryOp) :
    I.holds s (Compilation.unaryOf op a) := by
  cases op with
  | negate => exact I.unary .minus h
  | unaryPlus => exact I.unary .plus h
  | not =>
    unfold Compilation.unaryOf
    dsimp only
    split
    · exact I.negated h
    · exact I.unary .not h
  | onesComplement => exact I.unary .bitwiseNot h
  | convert | quote | typeAs => exact h
  | arrayLength => exact I.function (by simpa using h) rfl

theorem combine {a b : Scalar} (op : BinaryOp) (text : Bool) (ha : I.holds s a)
    (hb : I.holds s b) : (ofExcept (Compilation.combine op text a b) : Compilation Scalar).Ensures s
      I.holds := by
  unfold Compilation.combine
  split
  · exact .ofExcept (by rintro _ ⟨⟩; exact I.index ha hb) (by rintro _ ⟨⟩)
  · split
    · exact .ofExcept (by rintro _ ⟨⟩; exact I.binary _ ha hb) (by rintro _ ⟨⟩)
    · exact .ofExcept (by rintro _ ⟨⟩) (by rintro _ ⟨⟩; rfl)

theorem encoded (naming : Naming) (member : Expr) {a : Scalar} (ha : I.holds s a) :
    (Compilation.encoded naming member a).Ensures s I.holds := by
  unfold Compilation.encoded
  split
  · refine .bind (.ofHost (Q := fun _ _ => True) fun _ _ => trivial) fun t j _ _ => ?_
    exact .ofExcept (fun a ha => I.data (Json.toScalar_data ha)) fun _ => Json.toScalar_external
  · exact .pure ha

theorem matched (naming : Naming) (left right : Expr) {a b : Scalar} (ha : I.holds s a)
    (hb : I.holds s b) : (Compilation.matched naming left right a b).Ensures s
      fun t p => I.holds t p.1 ∧ I.holds t p.2 := by
  unfold Compilation.matched
  split
  · exact .bind (encoded naming left hb) fun t c ht hc => .pure ⟨I.mono ht.knows ha, hc⟩
  split
  · exact .bind (encoded naming right ha) fun t c ht hc => .pure ⟨hc, I.mono ht.knows hb⟩
  · exact .pure ⟨ha, hb⟩

theorem scalars {es : List Expr} (h : ∀ e ∈ es, I.Keeps env s e) :
    (Compilation.scalars env es).Ensures s fun t as => ∀ a ∈ as, I.holds t a := by
  induction es generalizing s with
  | nil =>
    rw [Compilation.scalars]
    exact .pure (List.forall_mem_nil _)
  | cons e es ih =>
    obtain ⟨he, hes⟩ := List.forall_mem_cons.mp h
    rw [Compilation.scalars]
    refine .bind (he s (.refl s)) fun t a ht ha => ?_
    refine .bind (ih fun e he => (hes e he).grows ht) fun u as hu has => ?_
    exact .pure (List.forall_mem_cons.mpr ⟨I.mono hu.knows ha, has⟩)

theorem properties {bindings : List Binding}
    (h : ∀ e ∈ Binding.childrenOfAll bindings, I.Keeps env s e) :
    (Compilation.properties env bindings).Ensures s fun t ps => ∀ p ∈ ps, I.holds t p.2 := by
  induction bindings generalizing s with
  | nil =>
    rw [Compilation.properties]
    exact .pure (List.forall_mem_nil _)
  | cons binding bindings ih =>
    cases binding with
    | assign m value =>
      rw [Compilation.properties]
      refine .bind (h value List.mem_cons_self s (.refl s)) fun t a ht ha => ?_
      refine .bind (ih fun e he => (h e (List.mem_cons_of_mem _ he)).grows ht)
        fun u ps hu hps => ?_
      exact .pure (List.forall_mem_cons.mpr ⟨I.mono hu.knows ha, hps⟩)
    | nested m bs =>
      rw [Compilation.properties]
      exact .throw rfl
    | collect m es =>
      rw [Compilation.properties]
      exact .throw rfl

theorem operation (op : BinaryOp) (left right : Expr) (ty : HostType)
    (hl : ∀ d : Expr, d.IsPart left → I.Keeps env s d)
    (hr : ∀ d : Expr, d.IsPart right → I.Keeps env s d) :
    (Compilation.binary env op left right ty).Ensures s I.holds := by
  rw [Compilation.binary]
  split
  · rename_i a b hab op' hcompared
    simp only at hab
    split
    · rcases stringComparison?_isPart hcompared with ⟨ha, hb⟩ | ⟨ha, hb⟩
      · exact operation op' a b .boolean (fun d hd => hl d (hd.trans ha))
          fun d hd => hl d (hd.trans hb)
      · exact operation op' a b .boolean (fun d hd => hr d (hd.trans ha))
          fun d hd => hr d (hd.trans hb)
    · exact .throw rfl
  · refine .bind (hl left .self s (.refl s)) fun t a ht ha => ?_
    refine .bind (hr right .self t ht) fun u b hu hb => ?_
    refine .bind (matched _ left right (I.mono hu.knows ha) hb) fun v p _ hp => ?_
    exact combine _ _ hp.1 hp.2
termination_by sizeOf left + sizeOf right

theorem userFunction {args : List Expr}
    (h : ∀ e ∈ args, ∀ d : Expr, d.IsPart e → I.Keeps env s d) :
    (Compilation.userFunction env args).Ensures s I.holds := by
  have hcall : ∀ (name : String) {t : Scope} {as : List Scalar}, (∀ a ∈ as, I.holds t a) →
      I.holds t (.call name as true) := fun name _ _ has => I.call name true has (.inl rfl)
  rw [Compilation.userFunction]
  refine .bind (.ofExcept (Q := fun _ _ => True) (fun _ _ => trivial)
    fun _ => functionName?_external) fun t name ht _ => ?_
  split
  · rename_i items ty
    have hitems : ∀ d ∈ items, I.Keeps env s d := fun d hd =>
      h (.newArray items ty) (List.mem_cons_of_mem _ List.mem_cons_self) d (.of_child hd)
    exact .bind (scalars fun d hd => (hitems d hd).grows ht) fun u as _ has =>
      .pure (hcall name has)
  · exact .bind (I.constants _ _ _ t) fun u as _ has => .pure (hcall name has)
  · exact .bind (scalars fun e he => (h e (List.mem_cons_of_mem _ he) e .self).grows ht)
      fun u as _ has => .pure (hcall name has)
  · exact .pure (hcall name (List.forall_mem_nil _))

theorem scalar_construct {args : List Expr} {members : Option (List Member)} {ty : HostType}
    (h : ∀ e ∈ args, I.Keeps env s e) :
    (scalar env (.construct args members ty)).Ensures s I.holds := by
  have hevaluated : (do
      ofExcept (← ofHost (env.evaluator (.construct args members ty))).toScalar :
      Compilation Scalar).Ensures s I.holds := by
    refine .bind (.ofHost (Q := fun _ _ => True) fun _ _ => trivial) fun t v _ _ => ?_
    exact .ofExcept (fun a ha => I.data (Value.toScalar_data ha)) fun _ => Value.toScalar_external
  cases members with
  | some members =>
    rw [Compilation.scalar]
    split
    · exact hevaluated
    · split
      · exact .throw rfl
      · refine .bind (scalars h) fun t as _ has => .pure (I.object fun p hp => has _ ?_)
        exact (List.of_mem_zip hp).2
  | none =>
    rw [Compilation.scalar]
    split
    · exact hevaluated
    · split
      · exact .pure (I.object (List.forall_mem_nil _))
      · exact .throw rfl

/-! ## Nodes -/

/-- What a call is if it is an aggregate over the group in scope or a nested query. -/
structure CallKeeps (I : ScalarInvariant) (env : Environment) (s : Scope) (target : Option Expr)
    (method : Method) (args : List Expr) : Prop where
  aggregate : ∀ {row}, groupSource? s method args = some row →
    (groupAggregate env method.name args row).Ensures s I.holds
  nested : groupSource? s method args = none → isNestedQuery target method args = true →
    (do
      let stage ← Compilation.nested (withMethod method.name (operator env method.name args))
      return nestedScalar method.name (← flattened stage) : Compilation Scalar).Ensures s I.holds

theorem scalar_call {target : Option Expr} {method : Method} {args : List Expr} {ty : HostType}
    (h : ∀ c ∈ target.toList ++ args, ∀ d : Expr, d.IsPart c → I.Keeps env s d)
    (hcall : I.CallKeeps env s target method args) :
    (scalar env (.call target method args ty)).Ensures s I.holds := by
  rw [Compilation.scalar]
  split
  · exact userFunction fun e he => h e (List.mem_append_right _ he)
  refine .get_bind ?_
  split
  · rename_i row hrow
    exact hcall.aggregate hrow
  · rename_i hnone
    split
    · rename_i hnested
      exact hcall.nested hnone hnested
    · have hoperand : ∀ e ∈ target.toList ++ args, I.Operands s ⟨e, scalar env e⟩ :=
        fun e hmem => h e hmem e .self
      have hargs : ∀ o ∈ args.map fun arg => Operand.mk arg (scalar env arg), I.Operands s o := by
        intro o ho
        obtain ⟨e, he, rfl⟩ := List.mem_map.mp ho
        exact hoperand e (List.mem_append_right _ he)
      cases target with
      | none =>
        refine builtin method ?_ hargs
        rintro _ ⟨⟩
      | some target =>
        refine builtin method ?_ hargs
        rintro _ ⟨⟩
        exact hoperand target (List.mem_append_left _ (List.mem_singleton_self _))

/-- **The scalar of a node satisfies the invariant** when those of its parts do, and what it is if
it is a call. -/
theorem scalar_node (e : Expr) (hb : ∀ b ∈ s.bindings, I.holds s b.2)
    (h : ∀ c ∈ e.children, ∀ d : Expr, d.IsPart c → I.Keeps env s d)
    (hcall : ∀ target method args ty, e = .call target method args ty →
      I.CallKeeps env s target method args) : (scalar env e).Ensures s I.holds := by
  have hchild : ∀ {d}, d ∈ e.children → I.Keeps env s d := fun hd => h _ hd _ .self
  cases e with
  | constant v ty =>
    rw [Compilation.scalar]
    exact I.constant _ ty v s
  | parameter name ty =>
    rw [Compilation.scalar]
    refine .get_bind ?_
    split
    · rename_i a ha
      exact .pure (lookup? hb ha)
    · exact .throw rfl
  | member object m ty =>
    cases object with
    | none =>
      rw [Compilation.scalar]
      exact .throw rfl
    | some object =>
      rw [Compilation.scalar]
      exact .bind (hchild (List.mem_singleton_self object) s (.refl s)) fun t a _ ha =>
        .pure (memberOf ha _ _ m)
  | binary op left right ty =>
    rw [Compilation.scalar]
    exact operation op left right ty (h left List.mem_cons_self)
      (h right (List.mem_cons_of_mem _ List.mem_cons_self))
  | unary op operand ty =>
    rw [Compilation.scalar]
    exact .bind (hchild (List.mem_singleton_self operand) s (.refl s)) fun t a _ ha =>
      .pure (unaryOf ha op)
  | conditional test ifTrue ifFalse ty =>
    rw [Compilation.scalar]
    refine .bind (hchild (d := test) List.mem_cons_self s (.refl s)) fun t a ht ha => ?_
    refine .bind (hchild (d := ifTrue) (List.mem_cons_of_mem _ List.mem_cons_self) t ht)
      fun u b hu hb => ?_
    refine .bind (hchild (d := ifFalse) (List.mem_cons_of_mem _ (List.mem_cons_of_mem _
      List.mem_cons_self)) u (ht.trans hu)) fun v c hv hc => ?_
    exact .pure (I.conditional (I.mono (hu.trans hv).knows ha) (I.mono hv.knows hb) hc)
  | call target method args ty => exact scalar_call h (hcall _ _ _ _ rfl)
  | construct args members ty => exact scalar_construct fun d hd => hchild hd
  | memberInit base bindings ty =>
    rw [Compilation.scalar]
    exact .bind (properties fun d hd => hchild (List.mem_cons_of_mem _ hd))
      fun t ps _ hps => .pure (I.object hps)
  | newArray items ty =>
    rw [Compilation.scalar]
    exact .bind (scalars fun d hd => hchild hd) fun t as _ has => .pure (I.array has)
  | listInit base items ty =>
    rw [Compilation.scalar]
    exact .throw rfl
  | lambda params body =>
    rw [Compilation.scalar]
    exact .throw rfl
  | invoke target args ty =>
    rw [Compilation.scalar]
    exact .throw rfl

end ScalarInvariant

/-! ## Aggregates and nested queries -/

namespace Invariant

variable (I : Invariant) (env : Environment)

/-- The scalar of an expression satisfies the invariant. -/
def ScalarKeeps (e : Expr) : Prop := ∀ s, I.Scopes s → (scalar env e).Ensures s I.holds

/-- The stage of an operator is one that operators build. Only the outermost one may end it. -/
def OperatorKeeps (method : String) (args : List Expr) : Prop :=
  ∀ s, I.Scopes s → s.methods ≠ [] →
    (operator env method args).Ensures s (I.Ended (s.methods.length = 1))

variable {I env} {s : Scope}

theorem Scopes.groupSource? (h : I.Scopes s) {method : Method} {args : List Expr} {row : Scalar}
    (hrow : Compilation.groupSource? s method args = some row) :
    I.holds s row ∧ s.group ≠ none := by
  unfold Compilation.groupSource? at hrow
  split at hrow
  · split at hrow
    · exact h.groupRow? hrow
    · cases hrow
  · cases hrow

/-- An aggregate over a group is an aggregate function of what the invariant holds of. -/
theorem groupAggregate {method : String} {args : List Expr} {row : Scalar}
    (h : ∀ e, sizeOf e < sizeOf args → I.ScalarKeeps env e) (hs : I.Scopes s)
    (hrow : I.holds s row) :
    (Compilation.groupAggregate env method args row).Ensures s fun t a =>
      ∃ function operand, Scalar.aggregates.contains function = true ∧
        a = .builtin function [operand] ∧ I.holds t operand := by
  by_cases hm : method = "Count"
  · subst hm
    cases ht : args.tail with
    | nil =>
      rw [Compilation.groupAggregate.eq_1 _ _ _ ht]
      exact .pure ⟨_, _, by decide, rfl, I.literal _⟩
    | cons e es =>
      have hne : args.tail = [] → False := fun h => by rw [ht] at h; cases h
      rw [Compilation.groupAggregate.eq_2 _ _ _ hne]
      exact .throw rfl
  · have hm' : method = "Count" → ∀ es : List Expr, es = [] → False := fun h => absurd h hm
    cases hf : aggregate? method with
    | none =>
      rw [Compilation.groupAggregate.eq_3 _ _ _ _ hm hf (hm' · _)]
      exact .throw rfl
    | some function =>
      have hagg := (contains_of_aggregate? hf).1
      rcases args with _ | ⟨source, _ | ⟨arg, _ | ⟨extra, rest⟩⟩⟩
      · rw [Compilation.groupAggregate.eq_4 _ _ _ _ hm hf (hm' · _)]
        exact .pure ⟨_, _, hagg, rfl, hrow⟩
      · rw [Compilation.groupAggregate.eq_5 _ _ _ _ _ hm hf (hm' · _)]
        exact .pure ⟨_, _, hagg, rfl, hrow⟩
      · rw [Compilation.groupAggregate.eq_6 _ _ _ _ _ _ hm hf (hm' · _)]
        refine .bind (.ofExcept (Q := fun _ _ => True) (fun _ _ => trivial)
          fun _ => selector?_external) fun t l ht _ => ?_
        have hsize := l.smaller
        have hbody : I.ScalarKeeps env l.body := by
          refine h l.body ?_
          simp only [List.cons.sizeOf_spec]
          omega
        have hrow := I.mono ht.knows hrow
        refine .bind (.withParameter (hbody _ ((hs.grows ht).bindTo hrow l.param))
          (Q := I.holds) fun u a hu ha => ?_) fun u a _ ha => .pure ⟨_, _, hagg, rfl, ha⟩
        exact ScalarInvariant.holds_same ha rfl rfl rfl
      · rw [Compilation.groupAggregate.eq_7 _ _ _ _ _ hm (by simp) (by simp) _ hf (hm' · _)]
        exact .throw rfl

/-- The stage of a nested query, within the operators around it. -/
theorem nestedStage {method : String} {args : List Expr} (h : I.OperatorKeeps env method args)
    (hs : I.Scopes s) : (Compilation.nested (Compilation.withMethod method
      (operator env method args))).Ensures s (I.Ended True) := by
  have hin : I.Scopes (s.enterSubquery.pushMethod method) :=
    hs.knows (.same rfl rfl rfl) rfl
  refine .nested (.withMethod (h _ hin (List.cons_ne_nil _ _)) (Q := I.Ended True) ?_) ?_
  · exact fun t st _ hst => ended_same hst (fun _ => trivial) rfl rfl rfl
  · exact fun t st _ hst => ended_same hst id rfl rfl rfl

theorem nestedQuery {method : String} {args : List Expr} (h : I.OperatorKeeps env method args)
    (hs : I.Scopes s) :
    (do
      let stage ← Compilation.nested (Compilation.withMethod method (operator env method args))
      return nestedScalar method (← Compilation.flattened stage) : Compilation Scalar).Ensures s
        I.holds := by
  refine .bind (nestedStage h hs) fun t st _ hst => ?_
  refine .bind (.flattened (Q := fun u q => I.holds u (nestedScalar method q)) (fun q hq => ?_)
    fun e he => st.flatten_external he) fun u q _ hq => .pure hq
  exact I.nested method (ended_same hst id rfl rfl rfl) hq

/-- **The scalar of a node satisfies the invariant** when those of its parts and its nested query
do. -/
theorem ScalarKeeps.of_parts (e : Expr) (h : ∀ d, sizeOf d < sizeOf e → I.ScalarKeeps env d)
    (hop : ∀ method args, sizeOf args < sizeOf e → I.OperatorKeeps env method args) :
    I.ScalarKeeps env e := by
  intro s hs
  refine ScalarInvariant.scalar_node e hs.bindings (fun c hc d hd t ht => ?_) ?_
  · exact h d (Nat.lt_of_le_of_lt hd.sizeOf_le (Expr.sizeOf_child hc)) t (hs.grows ht)
  rintro target method args ty rfl
  have hsize : sizeOf args < sizeOf (Expr.call target method args ty) := by
    simp only [Expr.call.sizeOf_spec]
    omega
  refine ⟨fun hrow => ?_, fun _ _ => nestedQuery (hop _ _ hsize) hs⟩
  obtain ⟨hholds, hgroup⟩ := hs.groupSource? hrow
  refine (groupAggregate (fun d hd => h d (Nat.lt_trans hd hsize)) hs hholds).imp ?_
  rintro t _ ht ⟨function, operand, -, rfl, hoperand⟩
  exact I.call function false (List.forall_mem_singleton.mpr hoperand)
    (.inr (.inr (ht.group ▸ hgroup)))

end Invariant

end LambdaQuery
