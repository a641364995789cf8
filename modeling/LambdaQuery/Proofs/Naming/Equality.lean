import LambdaQuery.Proofs.Calls
import LambdaQuery.Proofs.Naming.Comparisons
import Mathlib

/-!
# Equality tests of members

That a member equals a constant can be said by `==`, by a call of `Equals` on either side, and by
membership in a list. Only the operator hands the constant to the converter of the member, so that
the spellings agree on the literal of the constant where the converter leaves it as it is
(`Naming.Leaves`): `Compilation.equality_spells_alike`. With another converter they do not:
`Compilation.equality_spells_apart`.
-/

set_option autoImplicit false

namespace LambdaQuery

/-- A list in the query whose item at `i` is the constant `v`. -/
inductive Expr.Lists (v : Value) (i : Nat) : Expr → Prop
  | constant {vs : List Value} (h : vs[i]? = some v) (ty : HostType) :
      Lists v i (.constant (.array vs) ty)
  | newArray {es : List Expr} {cty : HostType} (h : es[i]? = some (.constant v cty))
      (ty : HostType) : Lists v i (.newArray es ty)

theorem Expr.Lists.isInlineList {v : Value} {i : Nat} {source : Expr} (h : source.Lists v i) :
    Builtin.isInlineList source = true := by
  cases h <;> rfl

theorem Expr.Lists.ne_parameter {v : Value} {i : Nat} {source : Expr} (h : source.Lists v i)
    (name : String) (ty : HostType) : source ≠ .parameter name ty := by
  cases h <;> simp

theorem Expr.Accesses.ne_parameter {m : Member} {e : Expr} (h : e.Accesses m) (name : String)
    (ty : HostType) : e ≠ .parameter name ty := by
  cases h <;> simp

/-- The converter of the member, if it has one, gives the literal of the value back. -/
def Naming.Leaves (n : Naming) (m : Member) (v : Value) : Prop :=
  ∀ c l, n.converter? m = some c → v.toScalar = .ok (.literal l) →
    ∃ j, c.convert l.toJson = .ok j ∧ j.toScalar = .ok (.literal l)

/-- The scalar of a primitive value other than null is a literal. -/
theorem Value.literal_of_toScalar {v : Value} (hv : v.IsPrimitive) (hnull : v ≠ .null) {s : Scalar}
    (h : v.toScalar = .ok s) : ∃ l, s = .literal l ∧ s.isNonNullLiteral = true := by
  cases v with
  | null => exact absurd rfl hnull
  | unsigned n =>
    simp only [Value.toScalar] at h
    split at h
    · cases h
      exact ⟨_, rfl, rfl⟩
    · obtain ⟨l, hl, hliteral, -⟩ := Literal.toJson_double? h
      exact ⟨l, hl, hliteral⟩
  | float x =>
    obtain ⟨l, hl, hliteral, -⟩ := Literal.toJson_double? h
    exact ⟨l, hl, hliteral⟩
  | boolean | integer | decimal | char | string | guid =>
    obtain ⟨l, hl, hliteral, -⟩ := Value.toJson_of_toScalar (by trivial) h
    exact ⟨l, hl, hliteral⟩
  | array | object | geometry | query => exact hv.elim

namespace Compilation

variable {env : Environment} {m : Member} {e : Expr} {v : Value} {ty cty : HostType}
  {s t : Scope}

/-- A literal that the converter leaves as it is. -/
theorem encoded_of_leaves (he : e.Accesses m) {n : Naming} (hleaves : n.Leaves m v) {l : Literal}
    (hl : v.toScalar = .ok (.literal l)) :
    encoded n e (.literal l) s = (.ok (.literal l), s) := by
  unfold encoded
  rw [accessed?_of_accesses he, Option.bind_some]
  cases hc : n.converter? m with
  | none => rfl
  | some c =>
    obtain ⟨j, hconvert, hj⟩ := hleaves c l hc hl
    dsimp only
    rw [hconvert, Compilation.run_bind]
    show (ofExcept j.toScalar : Compilation Scalar) s = _
    rw [hj]
    rfl

section

variable (hfree : env.options.parameters = []) (hv : v.IsPrimitive) (hnull : v ≠ .null)

include hfree hv

theorem toScalar_of_constant {a : Scalar} (h : scalar env (.constant v cty) s = (.ok a, t)) :
    v.toScalar = .ok a ∧ t = s := by
  rw [scalar, constant_primitive s hfree hv] at h
  exact ofExcept_eq_ok.mp (eq_ok_of_ite h)

include hnull

/-- The operator compares the member with the literal of the constant. -/
theorem equal_of_leaves (he : e.Accesses m) (hleaves : env.options.naming.Leaves m v)
    {test : Scalar} (h : scalar env (.binary .equal e (.constant v cty) ty) s = (.ok test, t)) :
    ∃ a l, test = .equal a (.literal l) ∧ v.toScalar = .ok (.literal l) := by
  obtain ⟨a, u, b, w, ha, hb⟩ := binary_eq_ok (stringComparison?_left he v cty) h
  obtain ⟨hl, rfl⟩ := toScalar_of_constant hfree hv hb
  obtain ⟨l, rfl, hnonNull⟩ := Value.literal_of_toScalar hv hnull hl
  obtain ⟨o, rfl⟩ := scalar_of_accesses he ha
  refine ⟨.property o (env.options.naming.wireName m), l, ?_, hl⟩
  rw [scalar, binary, stringComparison?_left he] at h
  dsimp only at h
  rw [Compilation.run_bind, ha] at h
  dsimp only at h
  rw [Compilation.run_bind, hb] at h
  dsimp only at h
  have hmatched : matched env.options.naming e (.constant v cty)
      (.property o (env.options.naming.wireName m)) (.literal l) w =
        (.ok (.property o (env.options.naming.wireName m), .literal l), w) := by
    rw [matched, if_pos (by rw [hnonNull]; rfl), Compilation.run_bind,
      encoded_of_leaves he hleaves hl]
    rfl
  rw [Compilation.run_bind, hmatched] at h
  dsimp only at h
  rw [combine_of_comparison? (rfl : BinaryOp.comparison? .equal = some .equal)] at h
  cases h
  rfl

omit hnull

/-- The item of a list at the place of a constant is the scalar of the constant. -/
theorem items_of_lists {source : Expr} {i : Nat} (hsource : source.Lists v i) {a : Scalar}
    (h : scalar env source s = (.ok a, t)) :
    ∃ items b, a = .array items ∧ items[i]? = some b ∧ v.toScalar = .ok b := by
  cases hsource with
  | constant hi =>
    rw [scalar, constant_items s (find?_unbound hfree _)] at h
    have h := eq_ok_of_ite h
    rw [← bind_pure_comp] at h
    obtain ⟨items, u, hitems, h⟩ := bind_eq_ok.mp h
    obtain ⟨rfl, -⟩ := pure_eq_ok.mp h
    obtain ⟨b, u, w, hb, hget⟩ := constants_getElem? hitems hi
    rw [constant_primitive u hfree hv] at hb
    exact ⟨items, b, rfl, hget, (ofExcept_eq_ok.mp (eq_ok_of_ite hb)).1⟩
  | newArray hi =>
    rw [scalar] at h
    obtain ⟨items, u, hitems, h⟩ := bind_eq_ok.mp h
    obtain ⟨rfl, -⟩ := pure_eq_ok.mp h
    obtain ⟨b, u, w, hb, hget⟩ := scalars_getElem? hitems hi
    exact ⟨items, b, rfl, hget, (toScalar_of_constant hfree hv hb).1⟩

/-- Membership of a member in a list compares it with the scalars of the constants in the list. -/
theorem isIn_of_lists (he : e.Accesses m) {source call : Expr} {i : Nat}
    (hsource : source.Lists v i) (hcall : source.ContainsCall e call) {r : Scalar}
    (h : scalar env call s = (.ok r, t)) :
    ∃ b items l, r = .isIn b items false ∧ items[i]? = some l ∧ v.toScalar = .ok l := by
  rw [scalar_containsCall hcall hsource.ne_parameter he.ne_parameter] at h
  have hrun : ∃ a u, scalar env source s = (.ok a, u) := by
    rw [Builtin.contains] at h
    obtain ⟨a, u, ha, -⟩ := bind_eq_ok.mp h
    exact ⟨a, u, ha⟩
  obtain ⟨a, u, ha⟩ := hrun
  obtain ⟨items, l, rfl, hget, hl⟩ := items_of_lists hfree hv hsource ha
  cases items with
  | nil => cases hget
  | cons first rest =>
    rw [contains_cons hsource.isInlineList ha] at h
    obtain ⟨b, w, -, h⟩ := bind_eq_ok.mp h
    obtain ⟨rfl, -⟩ := pure_eq_ok.mp h
    exact ⟨b, first :: rest, l, rfl, hget, hl⟩

end

/-- **Every spelling of an equality test has one literal.** Where a member is compared with a
constant that its converter leaves as it is, the calls of `Equals`, on either side, and the
membership in lists with this constant compare it with the literal that the operator does, in any
scopes. -/
theorem equality_spells_alike (env : Environment) (hfree : env.options.parameters = [])
    {m : Member} {e : Expr} (he : e.Accesses m) {v : Value} (hv : v.IsPrimitive) (hnull : v ≠ .null)
    (hleaves : env.options.naming.Leaves m v) {ty cty : HostType} {s t : Scope} {test : Scalar}
    (h : scalar env (.binary .equal e (.constant v cty) ty) s = (.ok test, t)) :
    ∃ a l, test = .equal a l ∧
      ∀ {call : Expr} {s' t' : Scope} {r : Scalar}, scalar env call s' = (.ok r, t') →
        (∀ cty', e.EqualsCall (.constant v cty') call → ∃ b, r = .equal b l) ∧
        (∀ cty', (Expr.constant v cty').EqualsCall e call → ∃ b, r = .equal l b) ∧
        ∀ (source : Expr) (i : Nat), source.Lists v i → source.ContainsCall e call →
          ∃ b items, r = .isIn b items false ∧ items[i]? = some l := by
  obtain ⟨a, l, rfl, hl⟩ := equal_of_leaves hfree hv hnull he hleaves h
  refine ⟨a, .literal l, rfl, fun hr => ⟨fun cty' hcall => ?_, fun cty' hcall => ?_,
    fun source i hsource hcall => ?_⟩⟩
  · rw [scalar_equalsCall hcall] at hr
    obtain ⟨b, u, -, hr⟩ := bind_eq_ok.mp hr
    obtain ⟨c, w, hc, hr⟩ := bind_eq_ok.mp hr
    obtain ⟨rfl, -⟩ := pure_eq_ok.mp hr
    obtain rfl := Except.ok.inj ((toScalar_of_constant hfree hv hc).1.symm.trans hl)
    exact ⟨b, rfl⟩
  · rw [scalar_equalsCall hcall] at hr
    obtain ⟨c, u, hc, hr⟩ := bind_eq_ok.mp hr
    obtain ⟨b, w, -, hr⟩ := bind_eq_ok.mp hr
    obtain ⟨rfl, -⟩ := pure_eq_ok.mp hr
    obtain rfl := Except.ok.inj ((toScalar_of_constant hfree hv hc).1.symm.trans hl)
    exact ⟨b, rfl⟩
  · obtain ⟨b, items, c, rfl, hget, hc⟩ := isIn_of_lists hfree hv he hsource hcall hr
    obtain rfl := Except.ok.inj (hc.symm.trans hl)
    exact ⟨b, items, rfl, hget⟩

/-- A status that is stored by name, compared with a name: a converter of ordinals leaves it. -/
theorem equality_spells_alike_name :
    let status : FieldInfo := ⟨none, none, some (.enumAsString [(1, "Active")])⟩
    let env : Environment :=
      ⟨⟨⟨.declared, [("Row", [("Status", status)])]⟩, [], false⟩, Interpreter.empty.evaluate⟩
    let row : Expr := .parameter "r" (.model "Row")
    let access : Expr := .member (some row) ⟨.model "Row", "Status"⟩ .string
    let closed : Expr := .constant (.string "Closed") .string
    let active : Expr := .constant (.string "Active") .string
    let s := Scope.initial.bindTo "r" (.ref "root")
    ∃ a l, scalar env (.binary .equal access active .boolean) s = (.ok (.equal a l), s) ∧
      (∃ b, scalar env (.call (some active) ⟨.string, "Equals"⟩ [access] .boolean) s =
        (.ok (.equal l b), s)) ∧
      ∃ b items, scalar env (.call none ⟨.enumerable, "Contains"⟩
          [.newArray [closed, active] (.array .string), access] .boolean) s =
        (.ok (.isIn b items false), s) ∧ items[1]? = some l := by
  intro status env row access closed active s
  let a := (Scalar.ref "root").property "Status"
  let lit := Scalar.string "Active"
  have htest : scalar env (.binary .equal access active .boolean) s = (.ok (.equal a lit), s) := by
    simp only [env, access, active, row, s, a, lit, status]
    cbv
  have hequals : scalar env (.call (some active) ⟨.string, "Equals"⟩ [access] .boolean) s =
      (.ok (.equal lit a), s) := by
    simp only [env, access, active, row, s, a, lit, status]
    cbv
  have hcontains : scalar env (.call none ⟨.enumerable, "Contains"⟩
      [.newArray [closed, active] (.array .string), access] .boolean) s =
        (.ok (.isIn a [.string "Closed", lit] false), s) := by
    rw [scalar_containsCall (.function (.inl rfl) _) (by simp) (by simp [access])]
    simp only [env, access, active, closed, row, s, a, lit, status]
    cbv
  have hleaves : env.options.naming.Leaves ⟨.model "Row", "Status"⟩ (.string "Active") := by
    intro c l hc hl
    cases hc
    cases hl
    exact ⟨_, rfl, rfl⟩
  obtain ⟨a', l, htest', h⟩ := equality_spells_alike env rfl (.member _ rfl) (v := .string "Active")
    trivial (by simp) hleaves htest
  obtain ⟨b, hb⟩ := (h hequals).2.1 _ (.string _)
  obtain ⟨c, items, hitems, hget⟩ :=
    (h hcontains).2.2 _ 1 (.newArray rfl _) (.function (.inl rfl) _)
  exact ⟨a', l, htest'.symm ▸ htest, ⟨b, hb ▸ hequals⟩, c, items, hitems ▸ hcontains, hget⟩

/-- A status that is stored by name, compared with its ordinal: the operator looks for the name, the
calls look for the ordinal. -/
theorem equality_spells_apart :
    let status : FieldInfo := ⟨none, none, some (.enumAsString [(1, "Active")])⟩
    let env : Environment :=
      ⟨⟨⟨.declared, [("Row", [("Status", status)])]⟩, [], false⟩, Interpreter.empty.evaluate⟩
    let row : Expr := .parameter "r" (.model "Row")
    let access : Expr := .member (some row) ⟨.model "Row", "Status"⟩ .int32
    let one : Expr := .constant (.integer 1) .int32
    let s := Scope.initial.bindTo "r" (.ref "root")
    let a := (Scalar.ref "root").property "Status"
    scalar env (.binary .equal access one .boolean) s = (.ok (.equal a (.string "Active")), s) ∧
      scalar env (.call (some access) ⟨.object, "Equals"⟩ [one] .boolean) s =
        (.ok (.equal a (.integer 1)), s) ∧
      scalar env (.call none ⟨.string, "Equals"⟩ [access, one] .boolean) s =
        (.ok (.equal a (.integer 1)), s) ∧
      scalar env (.call none ⟨.enumerable, "Contains"⟩
          [.constant (.array [.integer 1]) (.array .int32), access] .boolean) s =
        (.ok (.isIn a [.integer 1] false), s) := by
  intro status env row access one s a
  rw [scalar_containsCall (.function (.inl rfl) _) (by simp) (by simp [access])]
  simp only [env, access, one, row, s, a, status]
  refine ⟨?_, ?_, ?_, ?_⟩ <;> cbv

end Compilation

end LambdaQuery
