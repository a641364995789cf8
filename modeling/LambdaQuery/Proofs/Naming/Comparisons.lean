import LambdaQuery.Proofs.Folding.Spelling
import LambdaQuery.Proofs.Naming.Paths
import Mathlib

/-!
# Members compared with constants

A constant that a member is compared with is spelled as documents store it in that member.
`Expr.Accesses` says which expressions read a member, `Value.IsLiteral` which constants the query
language has literals for. The constant goes through its scalar and back to JSON before the
converter sees it (`Value.toJson_of_toScalar`), a document hands the converter its plain JSON
(`Naming.wireJson_single`), and both come to the same. Main statement:
`Compilation.comparison_spells_stored`.
-/

set_option autoImplicit false

namespace LambdaQuery

/-! ## Reading a member -/

/-- Members that are not fields of documents: those of a nullable, and the lengths of strings and
arrays. -/
def HostType.intercepts (ty : HostType) (name : String) : Bool :=
  ty.isNullable && (name == "Value" || name == "HasValue") ||
    match ty.underlying with
    | .string => name == "Length"
    | .array _ => name == "Length" || name == "Count"
    | _ => false

/-- The expression reads the member `m`, perhaps behind conversions and the value of a nullable. -/
inductive Expr.Accesses (m : Member) : Expr → Prop
  | member {object : Expr} (ty : HostType) (field : object.ty.intercepts m.name = false) :
      Accesses m (.member (some object) m ty)
  | value {object : Expr} (owner ty : HostType) (nullable : object.ty.isNullable = true)
      (h : Accesses m object) : Accesses m (.member (some object) ⟨owner, "Value"⟩ ty)
  | convert {operand : Expr} (ty : HostType) (h : Accesses m operand) :
      Accesses m (.unary .convert operand ty)
  | typeAs {operand : Expr} (ty : HostType) (h : Accesses m operand) :
      Accesses m (.unary .typeAs operand ty)

/-- The operators that compare, in the query language. -/
def BinaryOp.comparison? : BinaryOp → Option QueryBinaryOp
  | .equal => some .equal
  | .notEqual => some .notEqual
  | .lessThan => some .lessThan
  | .lessThanOrEqual => some .lessThanOrEqual
  | .greaterThan => some .greaterThan
  | .greaterThanOrEqual => some .greaterThanOrEqual
  | _ => none

/-- The values that a literal can stand for: numbers of 64 bits and finite ones, and texts. -/
def Value.IsLiteral : Value → Prop
  | .boolean _ | .integer _ | .decimal _ | .char _ | .string _ | .guid _ => True
  | .unsigned n => ∃ i, int64? n.toNat = some i
  | .float x => x.isFinite = true
  | .null | .array _ | .object _ | .geometry _ | .query _ => False

theorem Value.IsLiteral.isPrimitive {v : Value} (h : v.IsLiteral) : v.IsPrimitive := by
  cases v <;> trivial

theorem toInt_of_int64? {n : Int} {i : Int64} (h : int64? n = some i) : i.toInt = n := by
  unfold int64? at h
  split at h
  · rename_i hn
    cases h
    exact Int64.toInt_ofInt_of_le (by simpa using hn.1) (by simpa using Int.lt_of_le_sub_one hn.2)
  · cases h

/-- A double literal holds the JSON that the double is. -/
theorem Literal.toJson_double? {x : Float} {s : Scalar} (h : Scalar.double? x = .ok s) :
    ∃ l, s = .literal l ∧ s.isNonNullLiteral = true ∧ l.toJson = Json.float x := by
  unfold Scalar.double? at h
  split at h
  · cases h
    exact ⟨_, rfl, rfl, rfl⟩
  · cases h

/-- **The literal of a value gives back the plain JSON of the value.** -/
theorem Value.toJson_of_toScalar {v : Value} (hv : v.IsLiteral) {s : Scalar}
    (h : v.toScalar = .ok s) :
    ∃ l, s = .literal l ∧ s.isNonNullLiteral = true ∧ l.toJson = v.toJson := by
  cases v with
  | boolean | integer | char | string | guid =>
    cases h
    exact ⟨_, rfl, rfl, rfl⟩
  | unsigned n =>
    obtain ⟨i, hi⟩ := hv
    simp only [Value.toScalar, hi] at h
    cases h
    refine ⟨_, rfl, rfl, ?_⟩
    rw [Literal.toJson, Json.int, toInt_of_int64? hi]
    rfl
  | float => exact Literal.toJson_double? h
  | decimal d =>
    simp only [Value.toScalar] at h
    simp only [Value.toJson]
    cases hn : d.toInt64? with
    | none =>
      simp only [hn] at h ⊢
      exact Literal.toJson_double? h
    | some n =>
      simp only [hn] at h ⊢
      by_cases hwhole : d.isWhole = true
      · rw [if_pos hwhole] at h ⊢
        cases h
        exact ⟨_, rfl, rfl, rfl⟩
      · rw [if_neg hwhole] at h ⊢
        exact Literal.toJson_double? h
  | null | array | object | geometry | query => exact hv.elim

mutual

/-- JSON has no scalar only where a number is not finite. -/
theorem Json.unsupported_of_toScalar :
    ∀ {j : Json} {e : CompileError}, j.toScalar = .error e → ∃ u, e = .unsupported u
  | .null, _, h | .bool _, _, h | .str _, _, h => nomatch h
  | .num n, e, h => by
    simp only [Json.toScalar] at h
    split at h
    · cases h
    · unfold Scalar.double? at h
      split at h
      · cases h
      · cases h
        exact ⟨_, rfl⟩
  | .arr items, e, h => by
    simp only [Json.toScalar, bind, Except.bind] at h
    split at h
    · rename_i hitems
      cases h
      exact Json.unsupported_of_toScalars hitems
    · cases h
  | .obj members, e, h => by
    simp only [Json.toScalar, bind, Except.bind] at h
    split at h
    · rename_i hmembers
      cases h
      exact Json.unsupported_of_toProperties hmembers
    · cases h

theorem Json.unsupported_of_toScalars :
    ∀ {js : List Json} {e : CompileError}, Json.toScalars js = .error e → ∃ u, e = .unsupported u
  | [], _, h => nomatch h
  | j :: js, e, h => by
    simp only [Json.toScalars, bind, Except.bind] at h
    split at h
    · rename_i hj
      cases h
      exact Json.unsupported_of_toScalar hj
    · split at h
      · rename_i hjs
        cases h
        exact Json.unsupported_of_toScalars hjs
      · cases h

theorem Json.unsupported_of_toProperties :
    ∀ {ms : List (String × Json)} {e : CompileError},
      Json.toProperties ms = .error e → ∃ u, e = .unsupported u
  | [], _, h => nomatch h
  | (name, j) :: ms, e, h => by
    simp only [Json.toProperties, bind, Except.bind] at h
    split at h
    · rename_i hj
      cases h
      exact Json.unsupported_of_toScalar hj
    · split at h
      · rename_i hms
        cases h
        exact Json.unsupported_of_toProperties hms
      · cases h

end

namespace Naming

/-- The scalar of what a member stores of a value. -/
def spelled (n : Naming) (m : Member) (v : Value) : Except CompileError Scalar := do
  (← (n.converted m v.toJson).mapError .host).toScalar

/-- A document with one primitive field stores it converted, under its name. -/
theorem wireJson_single (n : Naming) (model name : String) {v : Value} (hv : v.IsPrimitive) :
    n.wireJson (.model model) (.object [(name, v)]) =
      (n.converted ⟨.model model, name⟩ v.toJson).map
        fun j => .obj [(n.wireName ⟨.model model, name⟩, j)] := by
  simp only [wireJson, HostType.underlying, wireFields, wireJson_primitive hv, bind, Except.bind]
  cases n.converted ⟨.model model, name⟩ v.toJson <;> rfl

section

variable {n : Naming} {model name : String} {v : Value} (hv : v.IsPrimitive)

include hv

theorem spelled_eq_ok {s : Scalar} : n.spelled ⟨.model model, name⟩ v = .ok s ↔
    ∃ j, n.wireJson (.model model) (.object [(name, v)]) =
      .ok (.obj [(n.wireName ⟨.model model, name⟩, j)]) ∧ j.toScalar = .ok s := by
  rw [n.wireJson_single model name hv, spelled]
  cases n.converted ⟨.model model, name⟩ v.toJson with
  | error e => exact ⟨fun h => (nomatch h), fun ⟨_, h, _⟩ => (nomatch h)⟩
  | ok j =>
    refine ⟨fun h => ⟨j, rfl, h⟩, fun ⟨j', hj, h⟩ => ?_⟩
    obtain rfl : j = j' := by simpa [Except.map] using hj
    exact h

theorem spelled_eq_host {e : HostError} : n.spelled ⟨.model model, name⟩ v = .error (.host e) ↔
    n.wireJson (.model model) (.object [(name, v)]) = .error e := by
  rw [n.wireJson_single model name hv, spelled]
  cases n.converted ⟨.model model, name⟩ v.toJson with
  | error e' =>
    exact ⟨fun h => by cases h; rfl, fun h => by cases h; rfl⟩
  | ok j =>
    refine ⟨fun h => ?_, fun h => (nomatch h)⟩
    obtain ⟨u, hu⟩ := Json.unsupported_of_toScalar (e := .host e) h
    cases hu

end

end Naming

namespace Compilation

/-! ## Both operands -/

theorem memberOf_of_not_intercepts (n : Naming) {ty : HostType} {m : Member}
    (h : ty.intercepts m.name = false) (s : Scalar) :
    memberOf n ty m s = .property s (n.wireName m) := by
  obtain ⟨hnullable, hlength⟩ := Bool.or_eq_false_iff.mp h
  have hvalue : (ty.isNullable && m.name == "Value") = false := by
    cases hty : ty.isNullable <;> simp_all
  have hhas : (ty.isNullable && m.name == "HasValue") = false := by
    cases hty : ty.isNullable <;> simp_all
  rw [memberOf, if_neg (by simp [hvalue]), if_neg (by simp [hhas])]
  split
  · rename_i hty hname
    simp [hty, hname] at hlength
  · rename_i hty hname
    simp [hty, hname] at hlength
  · rename_i hty hname
    simp [hty, hname] at hlength
  · rfl

theorem accessed?_of_accesses {m : Member} {e : Expr} (h : e.Accesses m) :
    accessed? e = some m := by
  induction h with
  | @member object ty field =>
    obtain ⟨hnullable, -⟩ := Bool.or_eq_false_iff.mp field
    rw [accessed?, if_neg]
    intro hvalue
    simp_all
  | value owner ty nullable h ih =>
    rw [accessed?, if_pos (by simp [nullable])]
    exact ih
  | convert ty h ih => exact ih
  | typeAs ty h ih => exact ih

theorem comparedStrings?_of_accesses {m : Member} {e : Expr} (h : e.Accesses m) :
    comparedStrings? e = none := by
  cases h <;> rfl

variable {env : Environment}

/-- Reading a member gives its key in what the object is. -/
theorem scalar_of_accesses {m : Member} {e : Expr} (h : e.Accesses m) :
    ∀ {s t : Scope} {a : Scalar}, scalar env e s = (.ok a, t) →
      ∃ o, a = .property o (env.options.naming.wireName m) := by
  induction h with
  | @member object ty field =>
    intro s t a h
    rw [scalar] at h
    obtain ⟨o, u, -, h⟩ := bind_eq_ok.mp h
    obtain ⟨rfl, -⟩ := pure_eq_ok.mp h
    exact ⟨o, memberOf_of_not_intercepts _ field o⟩
  | value owner ty nullable h ih =>
    intro s t a h
    rw [scalar] at h
    obtain ⟨o, u, ho, h⟩ := bind_eq_ok.mp h
    obtain ⟨rfl, -⟩ := pure_eq_ok.mp h
    rw [memberOf, if_pos (by simp [nullable])]
    exact ih ho
  | convert ty h ih =>
    intro s t a h
    rw [scalar] at h
    obtain ⟨o, u, ho, h⟩ := bind_eq_ok.mp h
    obtain ⟨rfl, -⟩ := pure_eq_ok.mp h
    exact ih ho
  | typeAs ty h ih =>
    intro s t a h
    rw [scalar] at h
    obtain ⟨o, u, ho, h⟩ := bind_eq_ok.mp h
    obtain ⟨rfl, -⟩ := pure_eq_ok.mp h
    exact ih ho

section

variable {m : Member} {e : Expr} {v : Value} {l : Scalar}

/-- Opposite of a member a literal becomes the scalar of what the member stores of the value. -/
theorem encoded_eq_spelled (he : e.Accesses m) (hv : v.IsLiteral) (hl : v.toScalar = .ok l)
    (n : Naming) (s : Scope) : encoded n e l s = (ofExcept (n.spelled m v) : Compilation _) s := by
  unfold encoded
  rw [accessed?_of_accesses he, Option.bind_some, Naming.spelled, Naming.converted]
  cases n.converter? m with
  | none =>
    show (Except.ok l, s) = _
    have hjson : (Except.ok v.toJson : Except CompileError Json) >>= Json.toScalar = .ok l :=
      Value.toScalar_toJson hv.isPrimitive hl
    dsimp only [Except.mapError]
    rw [hjson]
    rfl
  | some c =>
    obtain ⟨value, rfl, -, hjson⟩ := Value.toJson_of_toScalar hv hl
    dsimp only
    rw [hjson, Compilation.run_bind]
    cases c.convert v.toJson <;> rfl

theorem constant_of_isLiteral (hv : v.IsLiteral)
    (hfree : env.options.parameters.find? (·.value == v) = none) {cty : HostType} {s t : Scope}
    (h : scalar env (.constant v cty) s = (.ok l, t)) : v.toScalar = .ok l ∧ t = s := by
  rw [scalar, constant_inlined s hfree (by rintro items rfl; exact hv)] at h
  have h : inlined env.options.naming cty v s = (.ok l, t) := eq_ok_of_ite h
  cases v <;> first | exact ofExcept_eq_ok.mp h | exact hv.elim

/-- No scope has a part in a constant that is bound to no parameter. -/
theorem constant_in_any_scope (hv : v.IsLiteral)
    (hfree : env.options.parameters.find? (·.value == v) = none) {cty : HostType} {s t : Scope}
    (h : scalar env (.constant v cty) s = (.ok l, t)) (u : Scope) :
    scalar env (.constant v cty) u = (.ok l, u) := by
  obtain ⟨hl, -⟩ := constant_of_isLiteral hv hfree h
  rw [scalar, constant_inlined _ hfree (by rintro items rfl; exact hv)] at h ⊢
  by_cases hcty : cty.isDocumentQuery = true
  · rw [if_pos hcty] at h
    cases h
  · rw [if_neg hcty]
    cases v <;> first | exact ofExcept_eq_ok.mpr ⟨hl, rfl⟩ | exact hv.elim

theorem combine_of_comparison? {op : BinaryOp} {q : QueryBinaryOp} (hop : op.comparison? = some q)
    (text : Bool) (a b : Scalar) : combine op text a b = .ok (.binary q a b) := by
  cases op <;> cases hop <;> rfl

variable (he : e.Accesses m) (hv : v.IsLiteral)

include he hv

theorem matched_left {a : Scalar} (ha : a.isIndex = true) (hl : v.toScalar = .ok l) (n : Naming)
    (other : Expr) (s : Scope) :
    matched n e other a l s = (Prod.mk a <$> ofExcept (n.spelled m v) : Compilation _) s := by
  obtain ⟨-, -, hnonNull, -⟩ := Value.toJson_of_toScalar hv hl
  rw [matched, if_pos (by rw [ha, hnonNull]; rfl), ← bind_pure_comp, Compilation.run_bind,
    Compilation.run_bind, encoded_eq_spelled he hv hl]

theorem matched_right {a : Scalar} (ha : a.isIndex = true) (hl : v.toScalar = .ok l) (n : Naming)
    (other : Expr) (s : Scope) :
    matched n other e l a s =
      ((fun lit => (lit, a)) <$> ofExcept (n.spelled m v) : Compilation _) s := by
  obtain ⟨value, rfl, hnonNull, -⟩ := Value.toJson_of_toScalar hv hl
  rw [matched, if_neg (by simp [Scalar.isIndex]), if_pos (by rw [ha, hnonNull]; rfl),
    ← bind_pure_comp, Compilation.run_bind, Compilation.run_bind, encoded_eq_spelled he hv hl]

end

/-! ## Comparisons -/

theorem ofExcept_map_eq_ok {α β : Type} {f : α → β} {r : Except CompileError α} {b : β}
    {s t : Scope} : (f <$> ofExcept r : Compilation β) s = (.ok b, t) ↔
      ∃ a, r = .ok a ∧ b = f a ∧ t = s := by
  rw [← bind_pure_comp, bind_eq_ok]
  constructor
  · rintro ⟨a, u, hr, h⟩
    obtain ⟨rfl, rfl⟩ := ofExcept_eq_ok.mp hr
    exact ⟨a, rfl, pure_eq_ok.mp h⟩
  · rintro ⟨a, rfl, rfl, rfl⟩
    exact ⟨a, _, rfl, rfl⟩

theorem ofExcept_map_eq_error {α β : Type} {f : α → β} {r : Except CompileError α}
    {error : CompileError} {s : Scope} :
    (f <$> ofExcept r : Compilation β) s = (.error error, s) ↔ r = .error error := by
  cases r with
  | error => exact ⟨fun h => by cases h; rfl, fun h => by cases h; rfl⟩
  | ok => exact ⟨fun h => (nomatch h), fun h => (nomatch h)⟩

theorem binary_eq_ok {op : BinaryOp} {left right : Expr} {ty : HostType} {s t : Scope} {c : Scalar}
    (hnone : stringComparison? op left right = none)
    (h : scalar env (.binary op left right ty) s = (.ok c, t)) :
    ∃ a u b w, scalar env left s = (.ok a, u) ∧ scalar env right u = (.ok b, w) := by
  rw [scalar, binary, hnone] at h
  obtain ⟨a, u, ha, h⟩ := bind_eq_ok.mp h
  obtain ⟨b, w, hb, -⟩ := bind_eq_ok.mp h
  exact ⟨a, u, b, w, ha, hb⟩

section

variable {m : Member} {e : Expr} {v : Value} {l a : Scalar} {op : BinaryOp} {q : QueryBinaryOp}
  {ty cty : HostType} {s t : Scope}
  (he : e.Accesses m) (hv : v.IsLiteral) (hop : op.comparison? = some q)

include he

theorem stringComparison?_left (v : Value) (cty : HostType) :
    stringComparison? op e (.constant v cty) = none := by
  unfold stringComparison?
  rw [comparedStrings?_of_accesses he]
  rfl

theorem stringComparison?_right (v : Value) (cty : HostType) :
    stringComparison? op (.constant v cty) e = none := by
  unfold stringComparison?
  rw [comparedStrings?_of_accesses he]
  rfl

include hv hop

/-- A comparison with a member on the left, once both operands have their scalars. -/
theorem scalar_member_left (ha : scalar env e s = (.ok a, t))
    (hl : scalar env (.constant v cty) t = (.ok l, t)) (hlit : v.toScalar = .ok l) :
    scalar env (.binary op e (.constant v cty) ty) s =
      (Scalar.binary q a <$> ofExcept (env.options.naming.spelled m v) : Compilation _) t := by
  obtain ⟨o, rfl⟩ := scalar_of_accesses he ha
  rw [scalar, binary, stringComparison?_left he]
  dsimp only
  rw [Compilation.run_bind, ha]
  dsimp only
  rw [Compilation.run_bind, hl]
  dsimp only
  rw [Compilation.run_bind, matched_left he hv rfl hlit]
  simp only [combine_of_comparison? hop]
  cases env.options.naming.spelled m v <;> rfl

/-- A comparison with a member on the right, once both operands have their scalars. -/
theorem scalar_member_right (ha : scalar env e s = (.ok a, t))
    (hl : scalar env (.constant v cty) s = (.ok l, s)) (hlit : v.toScalar = .ok l) :
    scalar env (.binary op (.constant v cty) e ty) s =
      ((Scalar.binary q · a) <$> ofExcept (env.options.naming.spelled m v) : Compilation _) t := by
  obtain ⟨o, rfl⟩ := scalar_of_accesses he ha
  rw [scalar, binary, stringComparison?_right he]
  dsimp only
  rw [Compilation.run_bind, hl]
  dsimp only
  rw [Compilation.run_bind, ha]
  dsimp only
  rw [Compilation.run_bind, matched_right he hv rfl hlit]
  simp only [combine_of_comparison? hop]
  cases env.options.naming.spelled m v <;> rfl

end

/-- **A constant is compared as it is stored.** Where a comparison of a member of a model with a
constant compiles, on either side, the constant has become the scalar of what a document with this
value stores under the member's name. With operands that compile it does compile where what is
stored has a scalar, and where the converter fails, the comparison and the document fail with one
error. -/
theorem comparison_spells_stored (env : Environment) {model name : String} {e : Expr}
    (he : e.Accesses ⟨.model model, name⟩) {v : Value} (hv : v.IsLiteral)
    (hfree : env.options.parameters.find? (·.value == v) = none) {op : BinaryOp}
    {q : QueryBinaryOp} (hop : op.comparison? = some q) (ty cty : HostType) (s : Scope) :
    let stored := env.options.naming.wireJson (.model model) (.object [(name, v)])
    let key := env.options.naming.wireName ⟨.model model, name⟩
    let left := scalar env (.binary op e (.constant v cty) ty) s
    let right := scalar env (.binary op (.constant v cty) e ty) s
    (∀ c t, left = (.ok c, t) → ∃ a lit j, c = .binary q a lit ∧ scalar env e s = (.ok a, t) ∧
      stored = .ok (.obj [(key, j)]) ∧ j.toScalar = .ok lit) ∧
    (∀ c t, right = (.ok c, t) → ∃ lit a j, c = .binary q lit a ∧ scalar env e s = (.ok a, t) ∧
      stored = .ok (.obj [(key, j)]) ∧ j.toScalar = .ok lit) ∧
    ∀ a t l, scalar env e s = (.ok a, t) → scalar env (.constant v cty) s = (.ok l, s) →
      (∀ j lit, stored = .ok (.obj [(key, j)]) → j.toScalar = .ok lit →
        left = (.ok (.binary q a lit), t) ∧ right = (.ok (.binary q lit a), t)) ∧
      ∀ error, (left = (.error (.host error), t) ↔ stored = .error error) ∧
        (right = (.error (.host error), t) ↔ stored = .error error) := by
  intro stored key left right
  refine ⟨fun c t h => ?_, fun c t h => ?_, fun a t l ha hl => ?_⟩
  · obtain ⟨a, u, l, w, ha, hl⟩ := binary_eq_ok (stringComparison?_left he v cty) h
    obtain ⟨hlit, rfl⟩ := constant_of_isLiteral hv hfree hl
    rw [show left = _ from scalar_member_left he hv hop ha hl hlit, ofExcept_map_eq_ok] at h
    obtain ⟨lit, hspelled, rfl, rfl⟩ := h
    obtain ⟨j, hj, hjson⟩ := (Naming.spelled_eq_ok hv.isPrimitive).mp hspelled
    exact ⟨a, lit, j, rfl, ha, hj, hjson⟩
  · obtain ⟨l, u, a, w, hl, ha⟩ := binary_eq_ok (stringComparison?_right he v cty) h
    obtain ⟨hlit, rfl⟩ := constant_of_isLiteral hv hfree hl
    rw [show right = _ from scalar_member_right he hv hop ha hl hlit, ofExcept_map_eq_ok] at h
    obtain ⟨lit, hspelled, rfl, rfl⟩ := h
    obtain ⟨j, hj, hjson⟩ := (Naming.spelled_eq_ok hv.isPrimitive).mp hspelled
    exact ⟨lit, a, j, rfl, ha, hj, hjson⟩
  · obtain ⟨hlit, -⟩ := constant_of_isLiteral hv hfree hl
    have hleft : left = _ :=
      scalar_member_left he hv hop ha (constant_in_any_scope hv hfree hl t) hlit
    have hright : right = _ := scalar_member_right he hv hop ha hl hlit
    refine ⟨fun j lit hj hjson => ?_, fun error => ⟨?_, ?_⟩⟩
    · have hspelled := (Naming.spelled_eq_ok hv.isPrimitive).mpr ⟨j, hj, hjson⟩
      exact ⟨hleft.trans (ofExcept_map_eq_ok.mpr ⟨lit, hspelled, rfl, rfl⟩),
        hright.trans (ofExcept_map_eq_ok.mpr ⟨lit, hspelled, rfl, rfl⟩)⟩
    · rw [hleft, ofExcept_map_eq_error]
      exact Naming.spelled_eq_host hv.isPrimitive
    · rw [hright, ofExcept_map_eq_error]
      exact Naming.spelled_eq_host hv.isPrimitive

/-- A status behind a nullable and a conversion, compared with an ordinal from either side. -/
theorem comparison_spells_stored_status :
    let status : FieldInfo := ⟨some "State", none, some (.enumAsString [(1, "Active")])⟩
    let env : Environment :=
      ⟨⟨⟨.camelCase, [("Row", [("Status", status)])]⟩, [], false⟩, Interpreter.empty.evaluate⟩
    let row : Expr := .parameter "r" (.model "Row")
    let access : Expr := .unary .convert (.member (some (.member (some row)
      ⟨.model "Row", "Status"⟩ (.nullable (.enum "Status")))) ⟨.nullable (.enum "Status"), "Value"⟩
        (.enum "Status")) .int32
    let s := Scope.initial.bindTo "r" (.ref "root")
    let a := (Scalar.ref "root").property "State"
    let lit := Scalar.string "Active"
    scalar env (.binary .equal access (.constant (.integer 1) .int32) .boolean) s =
        (.ok (.binary .equal a lit), s) ∧
      scalar env (.binary .equal (.constant (.integer 1) .int32) access .boolean) s =
        (.ok (.binary .equal lit a), s) ∧
      scalar env (.binary .equal access (.constant (.integer 7) .int32) .boolean) s =
        (.error (.host (.typeError (.ordinal 7))), s) := by
  intro status env row access s a lit
  have he : access.Accesses ⟨.model "Row", "Status"⟩ :=
    .convert _ (.value _ _ rfl (.member _ rfl))
  have ha : scalar env access s = (.ok a, s) := by
    simp only [env, access, row, s, a, status]
    cbv
  have hop : BinaryOp.comparison? .equal = some .equal := rfl
  obtain ⟨-, -, h⟩ := comparison_spells_stored env he (v := .integer 1) trivial rfl hop
    .boolean .int32 s
  obtain ⟨-, -, h'⟩ := comparison_spells_stored env he (v := .integer 7) trivial rfl hop
    .boolean .int32 s
  obtain ⟨hleft, hright⟩ := (h a s _ ha (by cbv)).1 (.str "Active") lit (by cbv) rfl
  exact ⟨hleft, hright, ((h' a s _ ha (by cbv)).2 (.typeError (.ordinal 7))).1.mpr (by cbv)⟩

end Compilation

end LambdaQuery
