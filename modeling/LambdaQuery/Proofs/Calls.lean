import LambdaQuery.Proofs.Computations

/-!
# Calls that test

Whether two operands are equal, and whether a list has an item, can be asked in several calls
(`Expr.EqualsCall`, `Expr.ContainsCall`). All of them compile their operands as they stand and
compare the scalars: `Compilation.scalar_equalsCall`, `Compilation.scalar_containsCall`.
-/

set_option autoImplicit false

namespace LambdaQuery

/-- A call that asks whether `a` equals `b`. -/
inductive Expr.EqualsCall (a b : Expr) : Expr → Prop
  | object (ty : HostType) : EqualsCall a b (.call (some a) ⟨.object, "Equals"⟩ [b] ty)
  | string (ty : HostType) : EqualsCall a b (.call (some a) ⟨.string, "Equals"⟩ [b] ty)
  | strings (ty : HostType) : EqualsCall a b (.call none ⟨.string, "Equals"⟩ [a, b] ty)

/-- A call that asks whether the sequence `source` has `item`. -/
inductive Expr.ContainsCall (source item : Expr) : Expr → Prop
  | method {d : Declaring} (hd : d = .enumerable ∨ d = .list) (ty : HostType) :
      ContainsCall source item (.call (some source) ⟨d, "Contains"⟩ [item] ty)
  | function {d : Declaring} (hd : d = .enumerable ∨ d = .list) (ty : HostType) :
      ContainsCall source item (.call none ⟨d, "Contains"⟩ [source, item] ty)

namespace Compilation

variable {env : Environment} {s t u : Scope}

/-- A call that is neither an aggregate of a group nor a nested query is one of a builtin. -/
theorem scalar_builtin {target : Option Expr} {method : Method} {args : List Expr}
    (ty : HostType) (huser : method.declaring ≠ .userFunction)
    (hgroup : groupSource? s method args = none)
    (hnested : isNestedQuery target method args = false) :
    scalar env (.call target method args ty) s =
      Builtin.call method (target.map fun e => ⟨e, scalar env e⟩)
        (args.map fun e => ⟨e, scalar env e⟩) s := by
  have hget : (get : Compilation Scope) s = (.ok s, s) := rfl
  rw [Compilation.scalar, if_neg huser, Compilation.run_bind, hget]
  dsimp only
  rw [hgroup]
  dsimp only
  rw [if_neg (by rw [hnested]; decide)]
  cases target <;> rfl

/-- Where the head of the arguments is no parameter, no group is aggregated. -/
theorem groupSource?_of_ne_parameter {method : Method} {e : Expr} {args : List Expr}
    (he : ∀ name ty, e ≠ .parameter name ty) : groupSource? s method (e :: args) = none := by
  cases e with
  | parameter name ty => exact absurd rfl (he name ty)
  | _ => rfl

theorem not_isNestedQuery_contains {target : Option Expr} {d : Declaring} {args : List Expr} :
    isNestedQuery target ⟨d, "Contains"⟩ args = false := by
  have hname : nestedOperators.contains "Contains" = false := by decide
  rw [isNestedQuery, hname, Bool.and_false, Bool.false_and]

theorem scalar_equalsCall {a b call : Expr} (hcall : a.EqualsCall b call) :
    scalar env call s = (do return .equal (← scalar env a) (← scalar env b) : Compilation _) s := by
  have hnested : ∀ {target d args}, Method.isOperator ⟨d, "Equals"⟩ = false →
      isNestedQuery target ⟨d, "Equals"⟩ args = false := by
    intro target d args hd
    rw [isNestedQuery, hd, Bool.and_false, Bool.false_and, Bool.false_and]
  have hgroup : ∀ {d args}, Method.isOperator ⟨d, "Equals"⟩ = false →
      groupSource? s ⟨d, "Equals"⟩ args = none := by
    intro d args hd
    unfold groupSource?
    rw [hd]
    split <;> rfl
  cases hcall <;>
  · rw [scalar_builtin _ (by decide) (hgroup rfl) (hnested rfl)]
    simp only [Builtin.call, Builtin.objectMethod?, Builtin.stringMethod?,
      Builtin.staticStringMethod?, Option.map_some, Option.map_none, List.map_cons, List.map_nil,
      bind_assoc, pure_bind]

theorem scalar_containsCall {source item call : Expr} (hcall : source.ContainsCall item call)
    (hsource : ∀ name ty, source ≠ .parameter name ty)
    (hitem : ∀ name ty, item ≠ .parameter name ty) :
    scalar env call s = Builtin.contains ⟨source, scalar env source⟩ ⟨item, scalar env item⟩ s := by
  cases hcall with
  | method hd =>
    rw [scalar_builtin _ (by rcases hd with rfl | rfl <;> simp)
      (groupSource?_of_ne_parameter hitem) not_isNestedQuery_contains]
    rcases hd with rfl | rfl <;>
    simp only [Builtin.call, Builtin.sequenceMethod?, Option.map_some, Option.toList_some,
      List.map_cons, List.map_nil, List.cons_append, List.nil_append, bind_assoc, pure_bind,
      bind_pure]
  | function hd =>
    rw [scalar_builtin _ (by rcases hd with rfl | rfl <;> simp)
      (groupSource?_of_ne_parameter hsource) not_isNestedQuery_contains]
    rcases hd with rfl | rfl <;>
    simp only [Builtin.call, Builtin.sequenceMethod?, Option.map_none, Option.toList_none,
      List.map_cons, List.map_nil, List.nil_append, bind_assoc, pure_bind, bind_pure]

/-- A list in the query that has no items has none of any value. -/
theorem contains_nil {source item : Operand} (hinline : Builtin.isInlineList source.expr = true)
    (hsource : source.scalar s = (.ok (.array []), u)) :
    Builtin.contains source item s = (.ok (.boolean false), u) := by
  rw [Builtin.contains, Compilation.run_bind, hsource, hinline]
  rfl

/-- Membership in the items of a list in the query. -/
theorem contains_cons {source item : Operand} (hinline : Builtin.isInlineList source.expr = true)
    {a : Scalar} {items : List Scalar}
    (hsource : source.scalar s = (.ok (.array (a :: items)), u)) :
    Builtin.contains source item s =
      (do return .isIn (← item.scalar) (a :: items) false : Compilation _) u := by
  rw [Builtin.contains, Compilation.run_bind, hsource, hinline]

/-! ## Items of lists -/

/-- The scalar of an item is among those of the items, which are compiled one after the other. -/
theorem getElem?_of_items {α : Type} {f : α → Compilation Scalar}
    {F : List α → Compilation (List Scalar)}
    (hF : ∀ a as, F (a :: as) = f a >>= fun x => F as >>= fun xs => pure (x :: xs))
    {a : α} {as : List α} :
    ∀ {i : Nat} {s t : Scope} {xs : List Scalar}, F as s = (.ok xs, t) →
      as[i]? = some a → ∃ x u w, f a u = (.ok x, w) ∧ xs[i]? = some x := by
  induction as with
  | nil => exact fun _ ha => nomatch ha
  | cons b bs ih =>
    intro i s t xs h ha
    rw [hF] at h
    obtain ⟨x, u, hx, h⟩ := bind_eq_ok.mp h
    obtain ⟨ys, u', hys, h⟩ := bind_eq_ok.mp h
    obtain ⟨rfl, -⟩ := pure_eq_ok.mp h
    cases i with
    | zero =>
      obtain rfl := Option.some.inj ha
      exact ⟨x, s, u, hx, rfl⟩
    | succ i =>
      simp only [List.getElem?_cons_succ] at ha ⊢
      exact ih hys ha

theorem constants_getElem? {options : Options} {ty : HostType} {v : Value} {vs : List Value}
    {i : Nat} {s t : Scope} {ss : List Scalar} (h : constants options ty vs s = (.ok ss, t))
    (hv : vs[i]? = some v) : ∃ a u w, constant options ty v u = (.ok a, w) ∧ ss[i]? = some a :=
  getElem?_of_items (fun _ _ => by rw [constants]) h hv

theorem scalars_getElem? {e : Expr} {es : List Expr} {i : Nat} {s t : Scope} {ss : List Scalar}
    (h : scalars env es s = (.ok ss, t)) (he : es[i]? = some e) :
    ∃ a u w, scalar env e u = (.ok a, w) ∧ ss[i]? = some a :=
  getElem?_of_items (fun _ _ => by rw [scalars]) h he

end Compilation

end LambdaQuery
