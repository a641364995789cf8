import LambdaQuery.Proofs.Asked.Closed

/-!
# What a compilation asks for

The scalar of an expression and the stage of a chain depend on the evaluator for the spatial values
that are constructed in them alone (`Compilation.asks`): evaluators that answer alike for these are
as good as each other.
-/

set_option autoImplicit false

namespace LambdaQuery

/-- The evaluators answer alike for the spatial values that are constructed in an expression. -/
def Expr.SameShapes (ev ev' : Evaluator) (e : Expr) : Prop :=
  ∀ d : Expr, d.IsPart e → d.IsShape → ev d = ev' d

theorem Expr.SameShapes.part {ev ev' : Evaluator} {e d : Expr} (h : e.SameShapes ev ev')
    (hd : d.IsPart e) : d.SameShapes ev ev' := fun c hc => h c (hc.trans hd)

namespace Compilation

theorem ofExcept_bind_congr {α β : Type} {x : Except CompileError α} {f f' : α → Compilation β}
    (hf : ∀ a, x = .ok a → f a = f' a) : ofExcept x >>= f = ofExcept x >>= f' := by
  cases x with
  | error => rfl
  | ok a => exact hf a rfl

variable {o : Options} {ev ev' : Evaluator} {n : Nat}
  (h : ∀ d : Expr, sizeOf d < n → d.SameShapes ev ev' →
    scalar ⟨o, ev⟩ d = scalar ⟨o, ev'⟩ d ∧ rows ⟨o, ev⟩ d = rows ⟨o, ev'⟩ d)

include h

theorem scalars_asks {es : List Expr} (hn : sizeOf es ≤ n)
    (hs : ∀ d ∈ es, Expr.SameShapes ev ev' d) : scalars ⟨o, ev⟩ es = scalars ⟨o, ev'⟩ es := by
  induction es with
  | nil => rw [scalars, scalars]
  | cons e es ih =>
    obtain ⟨he, hes⟩ := List.forall_mem_cons.mp hs
    simp only [List.cons.sizeOf_spec] at hn
    rw [scalars, scalars, (h e (by omega) he).1, ih (by omega) hes]

theorem properties_asks {bindings : List Binding} (hn : sizeOf bindings ≤ n)
    (hs : ∀ d ∈ Binding.childrenOfAll bindings, Expr.SameShapes ev ev' d) :
    properties ⟨o, ev⟩ bindings = properties ⟨o, ev'⟩ bindings := by
  induction bindings with
  | nil => rw [properties, properties]
  | cons b rest ih =>
    obtain ⟨hb, hrest⟩ := List.forall_mem_append.mp hs
    simp only [List.cons.sizeOf_spec] at hn
    cases b with
    | assign m value =>
      simp only [Binding.assign.sizeOf_spec] at hn
      rw [properties, properties, (h value (by omega) (hb value List.mem_cons_self)).1,
        ih (by omega) hrest]
    | nested m bs => rw [properties, properties]
    | collect m es => rw [properties, properties]

theorem binary_asks (op : BinaryOp) {left right : Expr} (ty : HostType)
    (hn : sizeOf left + sizeOf right ≤ n) (hl : left.SameShapes ev ev')
    (hr : right.SameShapes ev ev') :
    binary ⟨o, ev⟩ op left right ty = binary ⟨o, ev'⟩ op left right ty := by
  have hlpos := left.sizeOf_pos
  have hrpos := right.sizeOf_pos
  rw [binary, binary, (h left (by omega) hl).1, (h right (by omega) hr).1]
  split
  · rename_i a b hab op' hc
    simp only at hab
    have hshapes : a.SameShapes ev ev' ∧ b.SameShapes ev ev' := by
      rcases stringComparison?_isPart hc with ⟨ha, hb⟩ | ⟨ha, hb⟩
      · exact ⟨hl.part ha, hl.part hb⟩
      · exact ⟨hr.part ha, hr.part hb⟩
    rw [binary_asks op' .boolean (by omega) hshapes.1 hshapes.2]
  · rfl
termination_by sizeOf left + sizeOf right

theorem userFunction_asks {args : List Expr} (hn : sizeOf args ≤ n)
    (hs : ∀ d ∈ args, Expr.SameShapes ev ev' d) :
    userFunction ⟨o, ev⟩ args = userFunction ⟨o, ev'⟩ args := by
  rw [userFunction, userFunction]
  refine bind_congr fun name => ?_
  split
  · rename_i items ty
    have harray := hs (.newArray items ty) (by simp)
    simp only [List.cons.sizeOf_spec, Expr.newArray.sizeOf_spec] at hn
    have hitems : ∀ d ∈ items, Expr.SameShapes ev ev' d := fun d hd =>
      harray.part (.of_child hd)
    rw [scalars_asks h (by omega) hitems]
  · rfl
  · simp only [List.cons.sizeOf_spec] at hn
    rw [scalars_asks h (by omega) (List.forall_mem_cons.mp hs).2]
  · rfl

theorem body_asks {arg body : Expr} (hbody : body.IsPart arg) (hsize : sizeOf body < sizeOf arg)
    (hn : sizeOf arg ≤ n) (hs : arg.SameShapes ev ev') :
    scalar ⟨o, ev⟩ body = scalar ⟨o, ev'⟩ body :=
  (h body (by omega) (hs.part hbody)).1

theorem groupAggregate_asks (method : String) {args : List Expr} (row : Scalar)
    (hn : sizeOf args ≤ n) (hs : ∀ d ∈ args, Expr.SameShapes ev ev' d) :
    groupAggregate ⟨o, ev⟩ method args row = groupAggregate ⟨o, ev'⟩ method args row := by
  rw [groupAggregate.eq_def, groupAggregate.eq_def]
  split
  · rfl
  · rfl
  split
  · rfl
  · rfl
  · rfl
  · rename_i arg _
    simp only [List.cons.sizeOf_spec] at hn
    refine ofExcept_bind_congr fun l hl => ?_
    dsimp only
    rw [body_asks h (selector?_isPart hl) l.smaller (by omega) (hs _ (by simp))]
  · rfl

theorem selected_asks (method : String) {rest : List Expr} (stage : Stage) (hn : sizeOf rest ≤ n)
    (hs : ∀ d ∈ rest, Expr.SameShapes ev ev' d) :
    selected ⟨o, ev⟩ method rest stage = selected ⟨o, ev'⟩ method rest stage := by
  rw [selected.eq_def, selected.eq_def]
  split
  · simp only [List.cons.sizeOf_spec] at hn
    refine ofExcept_bind_congr fun l hl => ?_
    dsimp only
    rw [body_asks h (selector?_isPart hl) l.smaller (by omega) (hs _ (by simp))]
  · rfl

theorem joined_asks (e : Expr) (stage : Stage) (hn : sizeOf e < n) (hs : e.SameShapes ev ev') :
    joined ⟨o, ev⟩ e stage = joined ⟨o, ev'⟩ e stage := by
  rw [joined.eq_def, joined.eq_def]
  split
  · rw [(h _ hn hs).1]
    split
    · split
      · split
        · rename_i source arg
          have hsource : source.SameShapes ev ev' := hs.part (.of_child (by simp [Expr.children]))
          have harg : arg.SameShapes ev ev' := hs.part (.of_child (by simp [Expr.children]))
          simp only [Expr.call.sizeOf_spec, List.cons.sizeOf_spec] at hn
          refine ofExcept_bind_congr fun l hl => ?_
          dsimp only
          rw [body_asks h (selector?_isPart hl) l.smaller (by omega) harg,
            joined_asks source stage (by omega) hsource, (h source (by omega) hsource).1]
        · rfl
      · rfl
    · rfl
  · rw [(h _ hn hs).1]
termination_by sizeOf e

theorem grouped_asks {rest : List Expr} (stage : Stage) (hn : sizeOf rest ≤ n)
    (hs : ∀ d ∈ rest, Expr.SameShapes ev ev' d) :
    grouped ⟨o, ev⟩ rest stage = grouped ⟨o, ev'⟩ rest stage := by
  rw [grouped.eq_def, grouped.eq_def]
  split
  · simp only [List.cons.sizeOf_spec] at hn
    refine ofExcept_bind_congr fun l hl => ofExcept_bind_congr fun r hr => ?_
    dsimp only
    rw [body_asks h (selector?_isPart hl) l.smaller (by omega) (hs _ (by simp)),
      body_asks h (resultSelector?_isPart hr) r.smaller (by omega) (hs _ (by simp))]
  · rfl

theorem apply_asks (method : String) {rest : List Expr} (stage : Stage) (hn : sizeOf rest ≤ n)
    (hs : ∀ d ∈ rest, Expr.SameShapes ev ev' d) :
    apply ⟨o, ev⟩ method rest stage = apply ⟨o, ev'⟩ method rest stage := by
  have hselected := fun method => selected_asks h method stage hn hs
  rw [apply.eq_def, apply.eq_def]
  simp only [hselected, grouped_asks h stage hn hs]
  split
  case h_3 =>
    split
    · simp only [List.cons.sizeOf_spec] at hn
      refine ofExcept_bind_congr fun l hl => ?_
      have hsize := l.smaller
      have hbody := (hs _ (by simp)).part (selector?_isPart hl)
      congr 1
      funext stage
      exact joined_asks h l.body stage (by omega) hbody
    · rfl
  all_goals rfl

theorem operator_asks (method : String) {args : List Expr} (hn : sizeOf args ≤ n)
    (hs : ∀ d ∈ args, Expr.SameShapes ev ev' d) :
    operator ⟨o, ev⟩ method args = operator ⟨o, ev'⟩ method args := by
  cases args with
  | nil => rw [operator, operator]
  | cons source rest =>
    obtain ⟨hsource, hrest⟩ := List.forall_mem_cons.mp hs
    simp only [List.cons.sizeOf_spec] at hn
    rw [operator, operator, (h source (by omega) hsource).2]
    simp only [apply_asks h method _ (show sizeOf rest ≤ n by omega) hrest]

/-- The scalar of an expression, when the scalars and chains in it depend on nothing else. -/
theorem scalar_asks {e : Expr} (hn : sizeOf e = n) (hs : e.SameShapes ev ev') :
    scalar ⟨o, ev⟩ e = scalar ⟨o, ev'⟩ e := by
  subst hn
  have hshape : ∀ d ∈ e.children, Expr.SameShapes ev ev' d := fun d hd => hs.part (.of_child hd)
  have hchild : ∀ {d}, d ∈ e.children → scalar ⟨o, ev⟩ d = scalar ⟨o, ev'⟩ d :=
    fun hd => (h _ (Expr.sizeOf_child hd) (hshape _ hd)).1
  cases e with
  | constant => rw [scalar, scalar]
  | parameter => rw [scalar, scalar]
  | member object m ty =>
    cases object with
    | none => rw [scalar, scalar]
    | some object => rw [scalar, scalar, hchild (List.mem_singleton_self object)]
  | binary op left right ty =>
    rw [scalar, scalar]
    refine binary_asks h op ty ?_ (hshape left (by simp [Expr.children]))
      (hshape right (by simp [Expr.children]))
    simp only [Expr.binary.sizeOf_spec]
    omega
  | unary op operand ty => rw [scalar, scalar, hchild (List.mem_singleton_self operand)]
  | conditional test ifTrue ifFalse ty =>
    rw [scalar, scalar, hchild (show test ∈ _ by simp [Expr.children]),
      hchild (show ifTrue ∈ _ by simp [Expr.children]),
      hchild (show ifFalse ∈ _ by simp [Expr.children])]
  | call target method args ty =>
    have hsargs : ∀ d ∈ args, Expr.SameShapes ev ev' d := fun d hd =>
      hshape d (List.mem_append_right _ hd)
    have hargs : sizeOf args ≤ sizeOf (Expr.call target method args ty) := by
      simp only [Expr.call.sizeOf_spec]
      omega
    have hoperands : (args.map fun arg => Operand.mk arg (scalar ⟨o, ev⟩ arg)) =
        args.map fun arg => Operand.mk arg (scalar ⟨o, ev'⟩ arg) :=
      List.map_congr_left fun d hd => by rw [hchild (List.mem_append_right _ hd)]
    rw [scalar, scalar, userFunction_asks h hargs hsargs, operator_asks h method.name hargs hsargs]
    simp only [groupAggregate_asks h method.name _ hargs hsargs, hoperands]
    cases target with
    | none => rfl
    | some target =>
      have htarget := hchild (List.mem_append_left _ (List.mem_singleton_self target))
      simp only [htarget]
  | construct args members ty =>
    have hargs : sizeOf args ≤ sizeOf (Expr.construct args members ty) := by
      simp only [Expr.construct.sizeOf_spec]
      omega
    rw [scalar.eq_def, scalar.eq_def]
    simp only [scalars_asks h hargs hshape]
    split
    · rename_i hty
      rw [hs _ .self ⟨rfl, hty⟩]
    · rfl
  | memberInit base bindings ty =>
    rw [scalar, scalar, properties_asks h ?_ fun d hd => hshape d (List.mem_cons_of_mem _ hd)]
    simp only [Expr.memberInit.sizeOf_spec]
    omega
  | newArray items ty =>
    have hitems : sizeOf items ≤ sizeOf (Expr.newArray items ty) := by
      simp only [Expr.newArray.sizeOf_spec]
      omega
    rw [scalar, scalar, scalars_asks h hitems hshape]
  | listInit | lambda | invoke => rw [scalar, scalar]

theorem rows_asks {e : Expr} (hn : sizeOf e = n) (hs : e.SameShapes ev ev') :
    rows ⟨o, ev⟩ e = rows ⟨o, ev'⟩ e := by
  have hscalar := scalar_asks h hn hs
  rw [rows.eq_def, rows.eq_def]
  split
  · rename_i target method args ty
    have hargs : ∀ d ∈ args, Expr.SameShapes ev ev' d := fun d hd =>
      hs.part (.of_child (List.mem_append_right _ hd))
    simp only [Expr.call.sizeOf_spec] at hn
    rw [hscalar, operator_asks h method.name (by omega) hargs]
  · rw [hscalar]

omit h

/-- Evaluators that answer alike for the spatial values in an expression give one compilation. -/
theorem asks {e : Expr} (hs : e.SameShapes ev ev') :
    scalar ⟨o, ev⟩ e = scalar ⟨o, ev'⟩ e ∧ rows ⟨o, ev⟩ e = rows ⟨o, ev'⟩ e := by
  induction hn : sizeOf e using Nat.strongRecOn generalizing e with
  | ind n ih => exact ⟨scalar_asks (fun d hd hd' => ih _ hd hd' rfl) hn hs,
      rows_asks (fun d hd hd' => ih _ hd hd' rfl) hn hs⟩

end Compilation

end LambdaQuery
