import LambdaQuery.Proofs.Calls
import LambdaQuery.Proofs.Denotation.Simple
import Mathlib

/-!
# Logic and comparison in host code and in the query

`Expr.HasKind` types the closed expressions that logic, comparison, concatenation and membership
make of simple values. An expression and a simple value agree (`Compilation.Agrees`) if the
interpreter gives the value and the scalar of the expression stands for it. There is one lemma for
each rule of typing, and by induction every typed expression agrees with a value of its kind:
`Compilation.scalar_denotes_evaluated`.
-/

set_option autoImplicit false

namespace LambdaQuery

/-- The closed expressions over simple values, with the kind of their value. -/
inductive Expr.HasKind : Expr → Simple.Kind → Prop
  | constant (x : Simple) (ty : HostType) : HasKind (.constant x.value ty) x.kind
  | compare {op : BinaryOp} {q : QueryBinaryOp} {k : Simple.Kind} {left right : Expr}
      (hop : op.comparison? = some q) (hk : k.Compares q) (hleft : HasKind left k)
      (hright : HasKind right k) (ty : HostType) : HasKind (.binary op left right ty) .boolean
  | compareToZero {op : BinaryOp} {q : QueryBinaryOp} {left right : Expr}
      (hop : op.comparison? = some q) (hleft : HasKind left .string)
      (hright : HasKind right .string) (cty zty ty : HostType) :
      HasKind (.binary op (.call (some left) ⟨.string, "CompareTo"⟩ [right] cty)
        (.constant (.integer 0) zty) ty) .boolean
  | zeroCompareTo {op : BinaryOp} {q : QueryBinaryOp} {left right : Expr}
      (hop : op.comparison? = some q) (hleft : HasKind left .string)
      (hright : HasKind right .string) (cty zty ty : HostType) :
      HasKind (.binary op (.constant (.integer 0) zty)
        (.call (some left) ⟨.string, "CompareTo"⟩ [right] cty) ty) .boolean
  | andAlso {left right : Expr} (hleft : HasKind left .boolean) (hright : HasKind right .boolean)
      (ty : HostType) : HasKind (.binary .andAlso left right ty) .boolean
  | orElse {left right : Expr} (hleft : HasKind left .boolean) (hright : HasKind right .boolean)
      (ty : HostType) : HasKind (.binary .orElse left right ty) .boolean
  | not {operand : Expr} (h : HasKind operand .boolean) (ty : HostType) :
      HasKind (.unary .not operand ty) .boolean
  | conditional {k : Simple.Kind} {test ifTrue ifFalse : Expr} (htest : HasKind test .boolean)
      (hifTrue : HasKind ifTrue k) (hifFalse : HasKind ifFalse k) (ty : HostType) :
      HasKind (.conditional test ifTrue ifFalse ty) k
  | concat {left right : Expr} (hleft : HasKind left .string) (hright : HasKind right .string)
      {ty : HostType} (hty : (ty.isString || left.ty.isString || right.ty.isString) = true) :
      HasKind (.binary .add left right ty) .string
  | equals {k l : Simple.Kind} {left right : Expr} (hleft : HasKind left k)
      (hright : HasKind right l) (ty : HostType) :
      HasKind (.call (some left) ⟨.object, "Equals"⟩ [right] ty) .boolean
  | contains {items : List Expr} {item call : Expr} {k : Simple.Kind} (kind : Expr → Simple.Kind)
      (hitems : ∀ e ∈ items, HasKind e (kind e)) (hitem : HasKind item k) {ty : HostType}
      (hcall : (Expr.newArray items ty).ContainsCall item call) : HasKind call .boolean
  | containsConstant {xs : List Simple} {item call : Expr} {k : Simple.Kind}
      (hitem : HasKind item k) {ty : HostType}
      (hcall : (Expr.constant (.array (xs.map Simple.value)) ty).ContainsCall item call) :
      HasKind call .boolean

/-- The expression is neither a parameter, nor a member, nor a three-way comparison of strings. -/
structure Expr.IsOperand (e : Expr) : Prop where
  parameter : ∀ name ty, e ≠ .parameter name ty
  accessed : Compilation.accessed? e = none
  compared : Compilation.comparedStrings? e = none

theorem Expr.ContainsCall.isOperand {source item call : Expr} (h : source.ContainsCall item call) :
    call.IsOperand := by
  cases h with
  | method hd => rcases hd with rfl | rfl <;> exact ⟨fun _ _ h => (by cases h), rfl, rfl⟩
  | function hd => rcases hd with rfl | rfl <;> exact ⟨fun _ _ h => (by cases h), rfl, rfl⟩

theorem Expr.HasKind.isOperand {e : Expr} {k : Simple.Kind} (h : e.HasKind k) : e.IsOperand := by
  cases h with
  | contains _ _ _ hcall => exact hcall.isOperand
  | containsConstant _ hcall => exact hcall.isOperand
  | _ => exact ⟨fun _ _ h => (by cases h), rfl, rfl⟩

/-! ## In host code -/

namespace Interpreter

variable {i : Interpreter} {left right : Expr} {u v : Value}

theorem evaluate_constant (v : Value) (ty : HostType) : i.evaluate (.constant v ty) = .ok v := by
  rw [evaluate]

/-- An operator that evaluates both operands is an operation on their values. -/
theorem evaluate_binary {op : BinaryOp} (hop : op ≠ .andAlso ∧ op ≠ .orElse ∧ op ≠ .coalesce)
    (hu : i.evaluate left = .ok u) (hv : i.evaluate right = .ok v) (ty : HostType) :
    i.evaluate (.binary op left right ty) = Value.binary op u v := by
  obtain ⟨hand, hor, hcoalesce⟩ := hop
  cases op <;> first | contradiction | (simp only [evaluate, hu, hv]; rfl)

theorem evaluate_comparison {op : BinaryOp} {q : QueryBinaryOp} (hop : op.comparison? = some q)
    (hu : i.evaluate left = .ok u) (hv : i.evaluate right = .ok v) (ty : HostType) :
    i.evaluate (.binary op left right ty) = Value.binary op u v := by
  refine evaluate_binary ?_ hu hv ty
  cases op <;> cases hop <;> decide

theorem evaluate_andAlso {a b : Bool} (ha : i.evaluate left = .ok (.boolean a))
    (hb : i.evaluate right = .ok (.boolean b)) (ty : HostType) :
    i.evaluate (.binary .andAlso left right ty) = .ok (.boolean (a && b)) := by
  simp only [evaluate, ha, hb]
  cases a <;> rfl

theorem evaluate_orElse {a b : Bool} (ha : i.evaluate left = .ok (.boolean a))
    (hb : i.evaluate right = .ok (.boolean b)) (ty : HostType) :
    i.evaluate (.binary .orElse left right ty) = .ok (.boolean (a || b)) := by
  simp only [evaluate, ha, hb]
  cases a <;> rfl

theorem evaluate_method {target arg : Expr} {method : Method} (hu : i.evaluate target = .ok u)
    (hv : i.evaluate arg = .ok v) (ty : HostType) :
    i.evaluate (.call (some target) method [arg] ty) = i.call method (some u) [v] := by
  simp only [evaluate, evaluateOption, evaluateList, hu, hv]
  rfl

theorem evaluate_compareTo {s t : String} (hs : i.evaluate left = .ok (.string s))
    (ht : i.evaluate right = .ok (.string t)) (ty : HostType) :
    i.evaluate (.call (some left) ⟨.string, "CompareTo"⟩ [right] ty) =
      .ok (.integer (Value.ordinal (compare s t))) := by
  rw [evaluate_method hs ht]
  rfl

theorem evaluate_containsCall {source item call : Expr} (hcall : source.ContainsCall item call)
    {xs : List Simple} {x : Simple} (hxs : i.evaluate source = .ok (.array (xs.map Simple.value)))
    (hx : i.evaluate item = .ok x.value) :
    i.evaluate call = .ok (.boolean (decide (x ∈ xs))) := by
  cases hcall with
  | method hd =>
    rw [evaluate_method hxs hx, ← Simple.any_equals]
    rcases hd with rfl | rfl <;> rfl
  | function hd =>
    simp only [evaluate, evaluateOption, evaluateList, hxs, hx, ← Simple.any_equals]
    rcases hd with rfl | rfl <;> rfl

end Interpreter

/-! ## In the query -/

namespace Compilation

variable {env : Environment} {s t : Scope} {left right : Expr} {ty : HostType} {a c : Scalar}

theorem encoded_of_accessed? {e : Expr} (h : accessed? e = none) (n : Naming) (a : Scalar) :
    encoded n e a = pure a := by
  unfold encoded
  rw [h]
  rfl

/-- Nothing is encoded where no side reads a member. -/
theorem matched_of_accessed? (hleft : accessed? left = none) (hright : accessed? right = none)
    (n : Naming) (a b : Scalar) : matched n left right a b = pure (a, b) := by
  unfold matched
  rw [encoded_of_accessed? hleft, encoded_of_accessed? hright, pure_bind, pure_bind]
  split
  · rfl
  · split <;> rfl

theorem combine_of_operator? {op : BinaryOp} {text : Bool} {q : QueryBinaryOp}
    (hop : operator? op text = some q) (a b : Scalar) :
    combine op text a b = .ok (.binary q a b) := by
  unfold combine
  split
  · cases hop
  · rw [hop]

/-- A binary operation on operands combines their scalars. -/
theorem binary_of_isOperand {op : BinaryOp} {q : QueryBinaryOp} (hleft : left.IsOperand)
    (hright : right.IsOperand)
    (hop : operator? op (ty.isString || left.ty.isString || right.ty.isString) = some q)
    (h : scalar env (.binary op left right ty) s = (.ok c, t)) :
    ∃ a b u, scalar env left s = (.ok a, u) ∧ scalar env right u = (.ok b, t) ∧
      c = .binary q a b := by
  have hnone : stringComparison? op left right = none := by
    unfold stringComparison?
    rw [hleft.compared, hright.compared]
  rw [scalar, binary, hnone] at h
  obtain ⟨a, u, ha, h⟩ := bind_eq_ok.mp h
  obtain ⟨b, w, hb, h⟩ := bind_eq_ok.mp h
  simp only [matched_of_accessed? hleft.accessed hright.accessed, pure_bind,
    combine_of_operator? hop] at h
  obtain ⟨rfl, rfl⟩ := pure_eq_ok.mp h
  exact ⟨a, b, u, ha, hb, rfl⟩

theorem comparison?_exchanged {op : BinaryOp} {q : QueryBinaryOp}
    (hop : op.comparison? = some q) : ∃ q', (exchanged op).comparison? = some q' := by
  cases op <;> cases hop <;> exact ⟨_, rfl⟩

/-- A number compared with zero stands for the comparison of strings that it was made by. -/
theorem binary_of_stringComparison? {op op' : BinaryOp} {l r a b : Expr} {hsize}
    (hstrings : stringComparison? op l r = some (⟨(a, b), hsize⟩, op'))
    (h : scalar env (.binary op l r ty) s = (.ok c, t)) :
    scalar env (.binary op' a b .boolean) s = (.ok c, t) := by
  rw [scalar, binary, hstrings] at h
  dsimp only at h
  split at h
  · rwa [scalar]
  · cases h

/-! ## Agreement -/

variable {V : Type} [DecidableEq V]

/-- `x` is what the expression comes to in host code, and what its scalar stands for. -/
structure Agrees (I : Interpretation V) (env : Environment) (i : Interpreter) (e : Expr)
    (x : Simple) : Prop where
  value : i.evaluate e = .ok x.value
  scalar : ∀ {s t : Scope} {a : Scalar}, Compilation.scalar env e s = (.ok a, t) →
    ∀ ρ g, a.denote I ρ g = I.literal x.literal

/-- The items of a list in the expression, in host code and in the query. -/
structure Lists (I : Interpretation V) (env : Environment) (i : Interpreter) (e : Expr)
    (xs : List Simple) : Prop where
  inline : Builtin.isInlineList e = true
  value : i.evaluate e = .ok (.array (xs.map Simple.value))
  scalar : ∀ {s t : Scope} {a : Scalar}, Compilation.scalar env e s = (.ok a, t) →
    ∃ as, a = .array as ∧ ∀ ρ g, Scalar.denoteAll I as ρ g = xs.map (I.literal ·.literal)

variable {I : Interpretation V} {i : Interpreter}

namespace Lists

variable {xs : List Simple} {source : Expr}

theorem ne_parameter (h : Lists I env i source xs) (name : String) (ty : HostType) :
    source ≠ .parameter name ty := by
  rintro rfl
  cases h.inline

theorem constants {options : Options} (hfree : options.parameters = []) (ty : HostType) :
    ∀ {xs : List Simple} {s t : Scope} {as : List Scalar},
      Compilation.constants options ty (xs.map Simple.value) s = (.ok as, t) →
        ∀ ρ g, Scalar.denoteAll I as ρ g = xs.map (I.literal ·.literal) := by
  intro xs
  induction xs with
  | nil =>
    intro s t as h ρ g
    rw [List.map_nil, Compilation.constants] at h
    obtain ⟨rfl, -⟩ := pure_eq_ok.mp h
    rfl
  | cons x xs ih =>
    intro s t as h ρ g
    rw [List.map_cons, Compilation.constants] at h
    obtain ⟨a, u, ha, h⟩ := bind_eq_ok.mp h
    obtain ⟨as, u', has, h⟩ := bind_eq_ok.mp h
    obtain ⟨rfl, -⟩ := pure_eq_ok.mp h
    rw [constant_primitive s hfree x.value_isLiteral.isPrimitive, x.toScalar_value] at ha
    obtain ⟨ha, -⟩ := ofExcept_eq_ok.mp (eq_ok_of_ite ha)
    obtain rfl := Except.ok.inj ha
    rw [Scalar.denoteAll, ih has, Scalar.denote, List.map_cons]

theorem constant (hfree : env.options.parameters = []) (xs : List Simple) (ty : HostType) :
    Lists I env i (.constant (.array (xs.map Simple.value)) ty) xs where
  inline := rfl
  value := Interpreter.evaluate_constant _ ty
  scalar {s t a} h := by
    rw [Compilation.scalar, constant_items s (find?_unbound hfree _)] at h
    obtain ⟨as, u, has, h⟩ := bind_eq_ok.mp (eq_ok_of_ite h)
    obtain ⟨rfl, -⟩ := pure_eq_ok.mp h
    exact ⟨as, rfl, Lists.constants hfree _ has⟩

/-- Of items that agree with simple values, a list of them has those values. -/
theorem of_agrees {items : List Expr} (h : ∀ e ∈ items, ∃ x, Agrees I env i e x) :
    ∃ xs : List Simple, i.evaluateList items = .ok (xs.map Simple.value) ∧
      ∀ {s t : Scope} {as : List Scalar}, scalars env items s = (.ok as, t) →
        ∀ ρ g, Scalar.denoteAll I as ρ g = xs.map (I.literal ·.literal) := by
  induction items with
  | nil =>
    refine ⟨[], by rw [Interpreter.evaluateList]; rfl, fun {s t as} h ρ g => ?_⟩
    rw [scalars] at h
    obtain ⟨rfl, -⟩ := pure_eq_ok.mp h
    rfl
  | cons e es ih =>
    obtain ⟨x, hx⟩ := h e List.mem_cons_self
    obtain ⟨xs, hvalues, hscalars⟩ := ih fun d hd => h d (List.mem_cons_of_mem e hd)
    refine ⟨x :: xs, ?_, fun {s t as} h ρ g => ?_⟩
    · rw [Interpreter.evaluateList, hx.value, hvalues]
      rfl
    · rw [scalars] at h
      obtain ⟨a, u, ha, h⟩ := bind_eq_ok.mp h
      obtain ⟨as, u', has, h⟩ := bind_eq_ok.mp h
      obtain ⟨rfl, -⟩ := pure_eq_ok.mp h
      rw [Scalar.denoteAll, hx.scalar ha, hscalars has, List.map_cons]

theorem newArray {items : List Expr} (h : ∀ e ∈ items, ∃ x, Agrees I env i e x) (ty : HostType) :
    ∃ xs, Lists I env i (.newArray items ty) xs := by
  obtain ⟨xs, hvalues, hscalars⟩ := of_agrees h
  refine ⟨xs, rfl, ?_, fun {s t a} h => ?_⟩
  · rw [Interpreter.evaluate, hvalues]
    rfl
  · rw [Compilation.scalar] at h
    obtain ⟨as, u, has, h⟩ := bind_eq_ok.mp h
    obtain ⟨rfl, -⟩ := pure_eq_ok.mp h
    exact ⟨as, rfl, hscalars has⟩

end Lists

namespace Agrees

variable {x y : Simple}

theorem constant (hfree : env.options.parameters = []) (x : Simple) (ty : HostType) :
    Agrees I env i (.constant x.value ty) x where
  value := Interpreter.evaluate_constant _ ty
  scalar {s t a} h ρ g := by
    obtain ⟨ha, -⟩ := constant_of_isLiteral x.value_isLiteral (find?_unbound hfree _) h
    rw [x.toScalar_value] at ha
    obtain rfl := Except.ok.inj ha
    rfl

/-- A binary operation, of which both sides make `z` out of the values of its operands. -/
theorem binary {op : BinaryOp} {q : QueryBinaryOp} (hleft : left.IsOperand)
    (hright : right.IsOperand) (hx : Agrees I env i left x) (hy : Agrees I env i right y)
    (hop : operator? op (ty.isString || left.ty.isString || right.ty.isString) = some q)
    {z : Simple} (hvalue : i.evaluate (.binary op left right ty) = .ok z.value)
    (hz : I.binary q (I.literal x.literal) (I.literal y.literal) = I.literal z.literal) :
    Agrees I env i (.binary op left right ty) z where
  value := hvalue
  scalar h ρ g := by
    obtain ⟨a, b, u, ha, hb, rfl⟩ := binary_of_isOperand hleft hright hop h
    show I.binary q (a.denote I ρ g) (b.denote I ρ g) = _
    rw [hx.scalar ha, hy.scalar hb, hz]

section

variable {op : BinaryOp} {q : QueryBinaryOp} (hop : op.comparison? = some q) {s t : String}
  {z : Simple} (hs : Agrees I env i left (.string s)) (ht : Agrees I env i right (.string t))
  (cty zty ty : HostType)

include hop hs ht

/-- A three-way comparison against zero comes to what the comparison of the strings does. -/
theorem compareToZero (h : Agrees I env i (.binary op left right .boolean) z) :
    Agrees I env i (.binary op (.call (some left) ⟨.string, "CompareTo"⟩ [right] cty)
      (.constant (.integer 0) zty) ty) z where
  value := by
    have hordinal := Interpreter.evaluate_compareTo hs.value ht.value cty
    rw [Interpreter.evaluate_comparison hop hordinal (Interpreter.evaluate_constant _ zty),
      Simple.binary_ordinal_zero hop, ← h.value,
      Interpreter.evaluate_comparison hop hs.value ht.value]
    rfl
  scalar hc := h.scalar (binary_of_stringComparison? rfl hc)

/-- With zero on the left, the comparison of the strings is the exchanged one. -/
theorem zeroCompareTo
    (h : Agrees I env i (.binary (exchanged op) left right .boolean) z) :
    Agrees I env i (.binary op (.constant (.integer 0) zty)
      (.call (some left) ⟨.string, "CompareTo"⟩ [right] cty) ty) z where
  value := by
    have hordinal := Interpreter.evaluate_compareTo hs.value ht.value cty
    obtain ⟨q', hop'⟩ := comparison?_exchanged hop
    rw [Interpreter.evaluate_comparison hop (Interpreter.evaluate_constant _ zty) hordinal,
      Simple.binary_zero_ordinal hop, ← h.value,
      Interpreter.evaluate_comparison hop' hs.value ht.value]
    rfl
  scalar hc := h.scalar (binary_of_stringComparison? rfl hc)

end

section

variable (hI : I.Usual)

include hI

theorem comparison {op : BinaryOp} {q : QueryBinaryOp} (hop : op.comparison? = some q)
    (hleft : left.IsOperand) (hright : right.IsOperand) (hx : Agrees I env i left x)
    (hy : Agrees I env i right y) {b : Bool} (hb : Simple.test? q x y = some b) (ty : HostType) :
    Agrees I env i (.binary op left right ty) (.boolean b) := by
  refine binary hleft hright hx hy (q := q) ?_ ?_ (hI.compare hb)
  · cases op <;> cases hop <;> rfl
  · rw [Interpreter.evaluate_comparison hop hx.value hy.value]
    exact Simple.binary_of_test? hop hb

theorem andAlso {a b : Bool} (hleft : left.IsOperand) (hright : right.IsOperand)
    (ha : Agrees I env i left (.boolean a)) (hb : Agrees I env i right (.boolean b))
    (ty : HostType) : Agrees I env i (.binary .andAlso left right ty) (.boolean (a && b)) :=
  binary hleft hright ha hb rfl (Interpreter.evaluate_andAlso ha.value hb.value ty) (hI.and a b)

theorem orElse {a b : Bool} (hleft : left.IsOperand) (hright : right.IsOperand)
    (ha : Agrees I env i left (.boolean a)) (hb : Agrees I env i right (.boolean b))
    (ty : HostType) : Agrees I env i (.binary .orElse left right ty) (.boolean (a || b)) :=
  binary hleft hright ha hb rfl (Interpreter.evaluate_orElse ha.value hb.value ty) (hI.or a b)

theorem concat {s t : String} (hleft : left.IsOperand) (hright : right.IsOperand)
    (hs : Agrees I env i left (.string s)) (ht : Agrees I env i right (.string t))
    (hty : (ty.isString || left.ty.isString || right.ty.isString) = true) :
    Agrees I env i (.binary .add left right ty) (.string (s ++ t)) := by
  refine binary hleft hright hs ht (q := .stringConcat) ?_ ?_ (hI.concat s t)
  · rw [hty]
    rfl
  · rw [Interpreter.evaluate_binary (by decide) hs.value ht.value]
    rfl

/-- A negated membership test is the other membership test, which is what it should be. -/
theorem not {operand : Expr} {b : Bool} (h : Agrees I env i operand (.boolean b)) (ty : HostType) :
    Agrees I env i (.unary .not operand ty) (.boolean !b) where
  value := by
    rw [Interpreter.evaluate, h.value]
    rfl
  scalar {s t a} hs ρ g := by
    rw [Compilation.scalar] at hs
    obtain ⟨c, u, hc, hs⟩ := bind_eq_ok.mp hs
    obtain ⟨rfl, -⟩ := pure_eq_ok.mp hs
    have hdenote : (unaryOf .not c).denote I ρ g = I.unary .not (c.denote I ρ g) := by
      unfold unaryOf
      dsimp only
      split
      · rw [Scalar.denote, Scalar.denote, hI.notIn]
      · rw [Scalar.denote]
    rw [hdenote, h.scalar hc]
    exact hI.not b

theorem conditional {test ifTrue ifFalse : Expr} {b : Bool}
    (htest : Agrees I env i test (.boolean b)) (hx : Agrees I env i ifTrue x)
    (hy : Agrees I env i ifFalse y) (ty : HostType) :
    Agrees I env i (.conditional test ifTrue ifFalse ty) (if b then x else y) where
  value := by
    rw [Interpreter.evaluate, htest.value]
    cases b
    · exact hy.value
    · exact hx.value
  scalar {s t a} h ρ g := by
    rw [Compilation.scalar] at h
    obtain ⟨c, u, hc, h⟩ := bind_eq_ok.mp h
    obtain ⟨p, v, hp, h⟩ := bind_eq_ok.mp h
    obtain ⟨q, w, hq, h⟩ := bind_eq_ok.mp h
    obtain ⟨rfl, -⟩ := pure_eq_ok.mp h
    show I.conditional (c.denote I ρ g) (p.denote I ρ g) (q.denote I ρ g) = _
    rw [htest.scalar hc, hx.scalar hp, hy.scalar hq, Simple.literal, hI.conditional]
    cases b <;> rfl

theorem equals (hx : Agrees I env i left x) (hy : Agrees I env i right y) (ty : HostType) :
    Agrees I env i (.call (some left) ⟨.object, "Equals"⟩ [right] ty)
      (.boolean (decide (x = y))) where
  value := by
    rw [Interpreter.evaluate_method hx.value hy.value, ← Simple.equals_value]
    rfl
  scalar {s t a} h ρ g := by
    rw [scalar_equalsCall (.object ty)] at h
    obtain ⟨p, u, hp, h⟩ := bind_eq_ok.mp h
    obtain ⟨q, v, hq, h⟩ := bind_eq_ok.mp h
    obtain ⟨rfl, -⟩ := pure_eq_ok.mp h
    show I.binary .equal (p.denote I ρ g) (q.denote I ρ g) = _
    rw [hx.scalar hp, hy.scalar hq]
    exact hI.compare rfl

/-- An empty list has no item, and is asked for none. -/
theorem contains {source item call : Expr} {xs : List Simple} (hxs : Lists I env i source xs)
    (hitem : item.IsOperand) (hx : Agrees I env i item x)
    (hcall : source.ContainsCall item call) :
    Agrees I env i call (.boolean (decide (x ∈ xs))) where
  value := Interpreter.evaluate_containsCall hcall hxs.value hx.value
  scalar {s t a} h ρ g := by
    rw [scalar_containsCall hcall hxs.ne_parameter hitem.parameter] at h
    have hrun := h
    unfold Builtin.contains at hrun
    obtain ⟨sequence, u, hsource, -⟩ := bind_eq_ok.mp hrun
    obtain ⟨as, rfl, has⟩ := hxs.scalar hsource
    cases as with
    | nil =>
      obtain rfl : xs = [] := by simpa [Scalar.denoteAll] using (has ρ g).symm
      rw [contains_nil hxs.inline hsource] at h
      cases h
      rfl
    | cons c as =>
      rw [contains_cons hxs.inline hsource] at h
      obtain ⟨b, v, hb, h⟩ := bind_eq_ok.mp h
      obtain ⟨rfl, -⟩ := pure_eq_ok.mp h
      show I.isIn (b.denote I ρ g) (Scalar.denoteAll I (c :: as) ρ g) false = _
      rw [hx.scalar hb, has]
      exact hI.isIn x xs

end

end Agrees

section

variable {e : Expr}

theorem exists_boolean (h : ∃ x : Simple, x.kind = .boolean ∧ Agrees I env i e x) :
    ∃ b, Agrees I env i e (.boolean b) := by
  obtain ⟨x, hkind, hx⟩ := h
  obtain ⟨b, rfl⟩ := Simple.kind_eq_boolean hkind
  exact ⟨b, hx⟩

theorem exists_string (h : ∃ x : Simple, x.kind = .string ∧ Agrees I env i e x) :
    ∃ s, Agrees I env i e (.string s) := by
  obtain ⟨x, hkind, hx⟩ := h
  obtain ⟨s, rfl⟩ := Simple.kind_eq_string hkind
  exact ⟨s, hx⟩

end

/-- A typed expression agrees with a simple value of its kind. -/
theorem agrees_of_hasKind (hI : I.Usual) (hfree : env.options.parameters = []) {e : Expr}
    {k : Simple.Kind} (he : e.HasKind k) : ∃ x, x.kind = k ∧ Agrees I env i e x := by
  -- The rules of typing in turn: of the values of the parts, the kinds tell the form.
  induction he with
  | constant x ty => exact ⟨x, rfl, .constant hfree x ty⟩
  | compare hop hk hleft hright ty ihleft ihright =>
    obtain ⟨x, rfl, hx⟩ := ihleft
    obtain ⟨y, hy', hy⟩ := ihright
    obtain ⟨b, hb⟩ := Simple.exists_test? hop hk rfl hy'
    exact ⟨.boolean b, rfl, .comparison hI hop hleft.isOperand hright.isOperand hx hy hb ty⟩
  | compareToZero hop hleft hright cty zty ty ihleft ihright =>
    obtain ⟨s, hs⟩ := exists_string ihleft
    obtain ⟨t, ht⟩ := exists_string ihright
    obtain ⟨b, hb⟩ := Simple.exists_test?_string hop s t
    have hstrings := Agrees.comparison hI hop hleft.isOperand hright.isOperand hs ht hb .boolean
    exact ⟨.boolean b, rfl, .compareToZero hop hs ht cty zty ty hstrings⟩
  | zeroCompareTo hop hleft hright cty zty ty ihleft ihright =>
    obtain ⟨s, hs⟩ := exists_string ihleft
    obtain ⟨t, ht⟩ := exists_string ihright
    obtain ⟨q', hop'⟩ := comparison?_exchanged hop
    obtain ⟨b, hb⟩ := Simple.exists_test?_string hop' s t
    have hstrings := Agrees.comparison hI hop' hleft.isOperand hright.isOperand hs ht hb .boolean
    exact ⟨.boolean b, rfl, .zeroCompareTo hop hs ht cty zty ty hstrings⟩
  | andAlso hleft hright ty ihleft ihright =>
    obtain ⟨a, ha⟩ := exists_boolean ihleft
    obtain ⟨b, hb⟩ := exists_boolean ihright
    exact ⟨_, rfl, .andAlso hI hleft.isOperand hright.isOperand ha hb ty⟩
  | orElse hleft hright ty ihleft ihright =>
    obtain ⟨a, ha⟩ := exists_boolean ihleft
    obtain ⟨b, hb⟩ := exists_boolean ihright
    exact ⟨_, rfl, .orElse hI hleft.isOperand hright.isOperand ha hb ty⟩
  | not h ty ih =>
    obtain ⟨b, hb⟩ := exists_boolean ih
    exact ⟨_, rfl, .not hI hb ty⟩
  | conditional htest hifTrue hifFalse ty ihtest ihifTrue ihifFalse =>
    obtain ⟨b, hb⟩ := exists_boolean ihtest
    obtain ⟨x, hx', hx⟩ := ihifTrue
    obtain ⟨y, hy', hy⟩ := ihifFalse
    refine ⟨if b then x else y, ?_, .conditional hI hb hx hy ty⟩
    cases b
    · exact hy'
    · exact hx'
  | concat hleft hright hty ihleft ihright =>
    obtain ⟨s, hs⟩ := exists_string ihleft
    obtain ⟨t, ht⟩ := exists_string ihright
    exact ⟨_, rfl, .concat hI hleft.isOperand hright.isOperand hs ht hty⟩
  | equals hleft hright ty ihleft ihright =>
    obtain ⟨x, -, hx⟩ := ihleft
    obtain ⟨y, -, hy⟩ := ihright
    exact ⟨_, rfl, .equals hI hx hy ty⟩
  | @contains items item call k kind hitems hitem ty hcall ihitems ihitem =>
    have hvalues : ∀ e ∈ items, ∃ x, Agrees I env i e x := by
      intro e he
      obtain ⟨x, -, hx⟩ := ihitems e he
      exact ⟨x, hx⟩
    obtain ⟨xs, hxs⟩ := Lists.newArray hvalues ty
    obtain ⟨x, -, hx⟩ := ihitem
    exact ⟨_, rfl, .contains hI hxs hitem.isOperand hx hcall⟩
  | @containsConstant xs item call k hitem ty hcall ihitem =>
    obtain ⟨x, -, hx⟩ := ihitem
    exact ⟨_, rfl, .contains hI (.constant hfree xs ty) hitem.isOperand hx hcall⟩

/-- **Host code and query agree on logic and comparison.** A typed expression has one value: the
interpreter gives it, and if the expression compiles without parameters of the query, its scalar
stands for it wherever the operators have their usual meaning. -/
theorem scalar_denotes_evaluated (hI : I.Usual) (env : Environment)
    (hfree : env.options.parameters = []) (i : Interpreter) {e : Expr} {k : Simple.Kind}
    (he : e.HasKind k) :
    ∃ x : Simple, x.kind = k ∧ i.evaluate e = .ok x.value ∧
      ∀ s a t, scalar env e s = (.ok a, t) → ∀ ρ g, a.denote I ρ g = I.literal x.literal := by
  obtain ⟨x, hx', hx⟩ := agrees_of_hasKind hI hfree he
  exact ⟨x, hx', hx.value, fun _ _ _ h => hx.scalar h⟩

/-- `!["a" + "b", "c"].Contains("ab") || 0 < "x".CompareTo("y")`, where the negation turns into
`NOT IN` and the strings are compared the other way round. -/
theorem scalar_denotes_evaluated_membership :
    let i := Interpreter.empty
    let env : Environment := ⟨⟨⟨.camelCase, []⟩, [], false⟩, i.evaluate⟩
    let text (s : String) : Expr := .constant (.string s) .string
    let items : Expr :=
      .newArray [.binary .add (text "a") (text "b") .string, text "c"] (.array .string)
    let member : Expr := .call (some items) ⟨.enumerable, "Contains"⟩ [text "ab"] .boolean
    let order : Expr := .binary .lessThan (.constant (.integer 0) .int32)
      (.call (some (text "x")) ⟨.string, "CompareTo"⟩ [text "y"] .int32) .boolean
    let e : Expr := .binary .orElse (.unary .not member .boolean) order .boolean
    let a : Scalar := .binary .or
      (.isIn (.string "ab") [.binary .stringConcat (.string "a") (.string "b"), .string "c"] true)
      (.binary .greaterThan (.string "x") (.string "y"))
    let s := Scope.initial
    i.evaluate e = .ok (.boolean false) ∧ scalar env e s = (.ok a, s) ∧
      ∀ ρ g, a.denote Interpretation.onSimple ρ g = some (.boolean false) := by
  intro i env text items member order e a s
  have htext : ∀ s, (text s).HasKind .string := fun s => .constant (.string s) .string
  have hitems : ∀ d ∈ [.binary .add (text "a") (text "b") .string, text "c"],
      d.HasKind .string := by
    intro d hd
    obtain rfl | rfl : d = .binary .add (text "a") (text "b") .string ∨ d = text "c" := by
      simpa using hd
    · exact .concat (htext "a") (htext "b") rfl
    · exact htext "c"
  have hmember : member.HasKind .boolean :=
    .contains (fun _ => .string) hitems (htext "ab") (.method (.inl rfl) .boolean)
  have he : e.HasKind .boolean :=
    .orElse (.not hmember _) (.zeroCompareTo rfl (htext "x") (htext "y") _ _ _) _
  have hvalue : i.evaluate e = .ok (.boolean false) := by cbv
  have ha : scalar env e s = (.ok a, s) := by
    simp only [e, order, member, items, text, env, i, s, a]
    cbv
  obtain ⟨x, -, hx, hscalar⟩ :=
    scalar_denotes_evaluated Interpretation.onSimple_usual env rfl i he
  obtain rfl : x = .boolean false := by
    rw [hvalue] at hx
    cases x <;> cases hx
    rfl
  exact ⟨hvalue, ha, hscalar s a s ha⟩

end Compilation

end LambdaQuery
