import LambdaQuery.Proofs.Naming.Equality
import Mathlib

/-!
# Members in operations

The converter of a member is there for literals that the member is compared with. The compilation
hands it the literal opposite of the member before it looks at the operator, so that in arithmetic,
in logic and in the index of an array too the literal is replaced, or refused. The operands reach
the operator as they are (`Compilation.operation`) where the converter gives the literal back:
`Compilation.operation_keeps_literal`, and only there: `Compilation.leaves_of_operation`.
-/

set_option autoImplicit false

namespace LambdaQuery

namespace Compilation

/-- A binary operation on the scalars of its operands, whatever the operands are. -/
def operation (env : Environment) (op : BinaryOp) (left right : Expr) (ty : HostType) :
    Compilation Scalar := do
  let a ← scalar env left
  let b ← scalar env right
  ofExcept (combine op (ty.isString || left.ty.isString || right.ty.isString) a b)

variable {env : Environment} {m : Member} {e : Expr} {v : Value} {op : BinaryOp}
  {left right : Expr} {ty cty : HostType} {s t u : Scope} {a b : Scalar}

/-- The compilation of a binary expression is the operation where no operand is replaced. -/
theorem scalar_binary_of_matched (hstring : stringComparison? op left right = none)
    (hmatched : ∀ {a b : Scalar} {t u : Scope}, scalar env left s = (.ok a, t) →
      scalar env right t = (.ok b, u) →
        matched env.options.naming left right a b u = (.ok (a, b), u)) :
    scalar env (.binary op left right ty) s = operation env op left right ty s := by
  rw [scalar, binary, hstring, operation]
  dsimp only
  rw [Compilation.run_bind, Compilation.run_bind]
  rcases ha : scalar env left s with ⟨a | a, t⟩
  · rfl
  dsimp only
  rw [Compilation.run_bind, Compilation.run_bind]
  rcases hb : scalar env right t with ⟨b | b, u⟩
  · rfl
  dsimp only
  rw [Compilation.run_bind, hmatched ha hb]

/-- A constant that becomes a literal becomes the one of its value, and no other than null is
null. -/
theorem literal_of_constant (hv : v.IsPrimitive) (h : scalar env (.constant v cty) s = (.ok b, t))
    (hb : b.isNonNullLiteral = true) :
    v ≠ .null ∧ ∃ l, b = .literal l ∧ v.toScalar = .ok (.literal l) := by
  rw [scalar] at h
  cases hfind : env.options.parameters.find? (·.value == v) with
  | some bound =>
    rw [constant_bound s hfind] at h
    split at h
    · cases h
    · split at h
      · cases h
        cases hb
      · cases h
  | none =>
    rw [constant_inlined s hfind (by rintro items rfl; exact hv)] at h
    have h : (ofExcept v.toScalar : Compilation Scalar) s = (.ok b, t) := by
      have h := eq_ok_of_ite h
      cases v <;> first | exact h | exact hv.elim
    obtain ⟨hl, -⟩ := ofExcept_eq_ok.mp h
    have hnull : v ≠ .null := by
      rintro rfl
      cases hl
      cases hb
    obtain ⟨l, rfl, -⟩ := Value.literal_of_toScalar hv hnull hl
    exact ⟨hnull, l, rfl, hl⟩

section

variable (he : e.Accesses m) (hv : v.IsPrimitive)
  (hleaves : v ≠ .null → env.options.naming.Leaves m v)

include he hv hleaves

theorem matched_left_of_leaves (ha : scalar env e s = (.ok a, t))
    (hb : scalar env (.constant v cty) t = (.ok b, u)) :
    matched env.options.naming e (.constant v cty) a b u = (.ok (a, b), u) := by
  obtain ⟨o, rfl⟩ := scalar_of_accesses he ha
  have hindex : (o.property (env.options.naming.wireName m)).isNonNullLiteral = false := rfl
  cases hliteral : b.isNonNullLiteral with
  | true =>
    obtain ⟨hnull, l, rfl, hl⟩ := literal_of_constant hv hb hliteral
    rw [matched, if_pos (by rw [hliteral]; rfl), Compilation.run_bind,
      encoded_of_leaves he (hleaves hnull) hl]
    rfl
  | false =>
    rw [matched, if_neg (by simp [hliteral]), if_neg (by simp [hindex])]
    rfl

theorem matched_right_of_leaves (hb : scalar env (.constant v cty) s = (.ok b, t))
    (ha : scalar env e t = (.ok a, u)) :
    matched env.options.naming (.constant v cty) e b a u = (.ok (b, a), u) := by
  obtain ⟨o, rfl⟩ := scalar_of_accesses he ha
  have hindex : (o.property (env.options.naming.wireName m)).isNonNullLiteral = false := rfl
  rw [matched, if_neg (by simp [hindex])]
  cases hliteral : b.isNonNullLiteral with
  | true =>
    obtain ⟨hnull, l, rfl, hl⟩ := literal_of_constant hv hb hliteral
    rw [if_pos (by rfl), Compilation.run_bind, encoded_of_leaves he (hleaves hnull) hl]
    rfl
  | false =>
    rw [if_neg (by simp)]
    rfl

end

/-- **Operations have their operands as they are.** Where the converter of a member gives a literal
back, an expression of any operator with the member and the literal, in either order, is the
operation on the scalars of both: the same scalar, or the same refusal. -/
theorem operation_keeps_literal (env : Environment) {m : Member} {e : Expr} (he : e.Accesses m)
    {v : Value} (hv : v.IsPrimitive) (hleaves : v ≠ .null → env.options.naming.Leaves m v)
    (op : BinaryOp) (ty cty : HostType) (s : Scope) :
    scalar env (.binary op e (.constant v cty) ty) s =
        operation env op e (.constant v cty) ty s ∧
      scalar env (.binary op (.constant v cty) e ty) s =
        operation env op (.constant v cty) e ty s :=
  ⟨scalar_binary_of_matched (stringComparison?_left he v cty) fun ha hb =>
      matched_left_of_leaves he hv hleaves ha hb,
    scalar_binary_of_matched (stringComparison?_right he v cty) fun hb ha =>
      matched_right_of_leaves he hv hleaves hb ha⟩

/-- A status that is stored by name, beside a name: a converter of ordinals leaves it. -/
theorem operation_keeps_literal_name :
    let status : FieldInfo := ⟨none, none, some (.enumAsString [(1, "Active")])⟩
    let env : Environment :=
      ⟨⟨⟨.declared, [("Row", [("Status", status)])]⟩, [], false⟩, Interpreter.empty.evaluate⟩
    let row : Expr := .parameter "r" (.model "Row")
    let access : Expr := .member (some row) ⟨.model "Row", "Status"⟩ .string
    let closed : Expr := .constant (.string "Closed") .string
    let s := Scope.initial.bindTo "r" (.ref "root")
    let a := (Scalar.ref "root").property "Status"
    let lit := Scalar.string "Closed"
    scalar env (.binary .coalesce access closed .string) s = (.ok (.binary .coalesce a lit), s) ∧
      scalar env (.binary .add closed access .string) s =
        (.ok (.binary .stringConcat lit a), s) := by
  intro status env row access closed s a lit
  have he : access.Accesses ⟨.model "Row", "Status"⟩ := .member _ rfl
  have hleaves : env.options.naming.Leaves ⟨.model "Row", "Status"⟩ (.string "Closed") := by
    intro c l hc hl
    cases hc
    cases hl
    exact ⟨_, rfl, rfl⟩
  have hkept := fun op => operation_keeps_literal env he (v := .string "Closed") trivial
    (fun _ => hleaves) op .string .string s
  rw [(hkept .coalesce).1, (hkept .add).2]
  simp only [env, access, row, s, a, lit, status]
  constructor <;> cbv

/-- A status that is stored by name, in operations with an ordinal: the sum and the item have the
name in place of the number, and an ordinal without a name is refused. The operations on the
operands as they are have no need of a name. -/
theorem operation_replaces_literal :
    let status : FieldInfo := ⟨none, none, some (.enumAsString [(1, "Active")])⟩
    let env : Environment :=
      ⟨⟨⟨.declared, [("Row", [("Status", status)])]⟩, [], false⟩, Interpreter.empty.evaluate⟩
    let row : Expr := .parameter "r" (.model "Row")
    let access : Expr := .member (some row) ⟨.model "Row", "Status"⟩ .int32
    let one : Expr := .constant (.integer 1) .int32
    let seven : Expr := .constant (.integer 7) .int32
    let s := Scope.initial.bindTo "r" (.ref "root")
    let a := (Scalar.ref "root").property "Status"
    scalar env (.binary .add access one .int32) s =
        (.ok (.binary .add a (.string "Active")), s) ∧
      operation env .add access one .int32 s = (.ok (.binary .add a (.integer 1)), s) ∧
      scalar env (.binary .arrayIndex access one .int32) s =
        (.ok (.index a (.string "Active")), s) ∧
      operation env .arrayIndex access one .int32 s = (.ok (.index a (.integer 1)), s) ∧
      scalar env (.binary .add seven access .int32) s =
        (.error (.host (.typeError (.ordinal 7))), s) ∧
      operation env .add seven access .int32 s = (.ok (.binary .add (.integer 7) a), s) := by
  intro status env row access one seven s a
  simp only [env, access, one, seven, row, s, a, status]
  refine ⟨?_, ?_, ?_, ?_, ?_, ?_⟩ <;> cbv

/-! ## Where the literal is replaced -/

/-- An operation tells its right operands apart. -/
theorem combine_right_injective {text : Bool} {a b b' c : Scalar}
    (h : combine op text a b = .ok c) (h' : combine op text a b' = .ok c) : b' = b := by
  unfold combine at h h'
  cases op <;> cases text <;> cases h <;> cases h' <;> rfl

/-- A literal that stays as it is in a member with a converter is one that the converter gives
back. -/
theorem leaves_of_encoded (he : e.Accesses m) {n : Naming} {l : Literal}
    (hl : v.toScalar = .ok (.literal l)) (h : encoded n e (.literal l) s = (.ok (.literal l), t)) :
    n.Leaves m v := by
  intro c l' hc hl'
  cases hl.symm.trans hl'
  unfold encoded at h
  rw [accessed?_of_accesses he, Option.bind_some, hc] at h
  obtain ⟨j, u, hj, h⟩ := bind_eq_ok.mp h
  have hconvert : c.convert l.toJson = .ok j := by
    cases hc' : c.convert l.toJson with
    | ok j' =>
      rw [hc'] at hj
      cases hj
      rfl
    | error =>
      rw [hc'] at hj
      cases hj
  exact ⟨j, hconvert, (ofExcept_eq_ok.mp h).1⟩

/-- **Only there are the operands as they are**: where the query language has the operation, and the
expression is the operation on the member and the literal, the converter gives the literal back. -/
theorem leaves_of_operation (he : e.Accesses m) {l : Literal} (hl : v.toScalar = .ok (.literal l))
    (hnull : l ≠ .null) (ha : scalar env e s = (.ok a, t))
    (hb : scalar env (.constant v cty) t = (.ok (.literal l), u)) {c : Scalar} {w : Scope}
    (hoperation : operation env op e (.constant v cty) ty s = (.ok c, w))
    (h : scalar env (.binary op e (.constant v cty) ty) s = (.ok c, w)) :
    env.options.naming.Leaves m v := by
  obtain ⟨o, rfl⟩ := scalar_of_accesses he ha
  have hnonNull : (Scalar.literal l).isNonNullLiteral = true := by
    cases l <;> first | rfl | exact absurd rfl hnull
  rw [operation, Compilation.run_bind, ha] at hoperation
  dsimp only at hoperation
  rw [Compilation.run_bind, hb] at hoperation
  obtain ⟨hcombine, -⟩ := ofExcept_eq_ok.mp hoperation
  rw [scalar, binary, stringComparison?_left he] at h
  dsimp only at h
  rw [Compilation.run_bind, ha] at h
  dsimp only at h
  rw [Compilation.run_bind, hb] at h
  obtain ⟨⟨a', b'⟩, x, hmatched, h⟩ := bind_eq_ok.mp h
  obtain ⟨hcombine', -⟩ := ofExcept_eq_ok.mp h
  rw [matched, if_pos (by rw [hnonNull]; rfl)] at hmatched
  obtain ⟨b, y, hencoded, hmatched⟩ := bind_eq_ok.mp hmatched
  obtain ⟨heq, -⟩ := pure_eq_ok.mp hmatched
  cases heq
  obtain rfl := combine_right_injective hcombine hcombine'
  exact leaves_of_encoded he hl hencoded

end Compilation

end LambdaQuery
