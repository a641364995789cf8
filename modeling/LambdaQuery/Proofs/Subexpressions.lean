import LambdaQuery.Compilation.Operators

/-!
# Parts of expressions

The lambdas that operators take, and the strings that are compared, are parts of the expressions
that they are found in: what passes to children passes to them.
-/

set_option autoImplicit false

namespace LambdaQuery

/-- An expression that a larger one is built of. -/
inductive Expr.IsPart (d : Expr) : Expr → Prop where
  | self : Expr.IsPart d d
  | child {c e : Expr} (h : Expr.IsPart d c) (hc : c ∈ e.children) : Expr.IsPart d e

theorem Expr.IsPart.trans {d c e : Expr} (h : d.IsPart c) (h' : c.IsPart e) : d.IsPart e := by
  induction h' with
  | self => exact h
  | child _ hc ih => exact .child ih hc

theorem Expr.IsPart.of_child {d e : Expr} (h : d ∈ e.children) : d.IsPart e := .child .self h

theorem Expr.IsPart.sizeOf_le {d e : Expr} (h : d.IsPart e) : sizeOf d ≤ sizeOf e := by
  induction h with
  | self => exact Nat.le_refl _
  | child _ hc ih => exact Nat.le_of_lt (Nat.lt_of_le_of_lt ih (Expr.sizeOf_child hc))

/-- What passes to children passes to parts. -/
theorem Expr.IsPart.induct {P : Expr → Prop} (hP : ∀ {e d}, P e → d ∈ e.children → P d)
    {d e : Expr} (h : d.IsPart e) (he : P e) : P d := by
  induction h with
  | self => exact he
  | child _ hc ih => exact ih (hP he hc)

theorem Expr.exists_call {e : Expr} (h : e.kind = .call) :
    ∃ target method args ty, e = .call target method args ty := by
  cases e <;> cases h
  exact ⟨_, _, _, _, rfl⟩

/-- What all parts of an expression satisfy, its children first. -/
theorem Expr.forall_isPart {P : Expr → Prop} {e : Expr} :
    (∀ d : Expr, d.IsPart e → P d) ↔
      P e ∧ ∀ c ∈ e.children, ∀ d : Expr, d.IsPart c → P d := by
  constructor
  · exact fun h => ⟨h e .self, fun c hc d hd => h d (hd.trans (.of_child hc))⟩
  · rintro ⟨he, hchildren⟩ d hd
    cases hd with
    | self => exact he
    | child hd hc => exact hchildren _ hc d hd

namespace Compilation

theorem asLambda?_isPart : ∀ {e : Expr} {l : { l : Lambda // sizeOf l.body < sizeOf e }},
    e.asLambda? = some l → l.1.body.IsPart e
  | .lambda params body, l, hl => by
    obtain rfl := Option.some.inj hl
    exact .of_child List.mem_cons_self
  | .unary op operand ty, l, hl => by
    cases op with
    | quote =>
      simp only [Expr.asLambda?, Option.map_eq_some_iff] at hl
      obtain ⟨l', hl', rfl⟩ := hl
      have hbody := asLambda?_isPart hl'
      exact hbody.child List.mem_cons_self
    | _ => cases hl
  | .constant .., _, hl | .parameter .., _, hl | .member .., _, hl | .binary .., _, hl
  | .conditional .., _, hl | .call .., _, hl | .construct .., _, hl | .memberInit .., _, hl
  | .listInit .., _, hl | .newArray .., _, hl | .invoke .., _, hl => nomatch hl

theorem selector?_isPart {method : String} {arg : Expr} {l : Selector arg}
    (hl : selector? method arg = .ok l) : l.body.IsPart arg := by
  unfold selector? at hl
  split at hl
  · cases hl
  · rename_i ha
    obtain rfl := Except.ok.inj hl
    exact asLambda?_isPart ha
  · cases hl

theorem resultSelector?_isPart {arg : Expr} {l : ResultSelector arg}
    (hl : resultSelector? arg = .ok l) : l.body.IsPart arg := by
  unfold resultSelector? at hl
  split at hl
  · rename_i ha
    obtain rfl := Except.ok.inj hl
    exact asLambda?_isPart ha
  · cases hl

theorem comparedStrings?_isPart {e a b : Expr}
    {hab : sizeOf (a, b).1 + sizeOf (a, b).2 < sizeOf e}
    (hc : comparedStrings? e = some ⟨(a, b), hab⟩) : a.IsPart e ∧ b.IsPart e := by
  unfold comparedStrings? at hc
  split at hc
  · cases hc
    exact ⟨.of_child List.mem_cons_self, .of_child (List.mem_cons_of_mem _ List.mem_cons_self)⟩
  · cases hc
    exact ⟨.of_child List.mem_cons_self, .of_child (List.mem_cons_of_mem _ List.mem_cons_self)⟩
  · cases hc

/-- The strings that are compared are those of one side, and the other side is zero. -/
theorem stringComparison?_eq_some {op op' : BinaryOp} {left right a b : Expr}
    {hab : sizeOf (a, b).1 + sizeOf (a, b).2 < sizeOf left + sizeOf right}
    (hc : stringComparison? op left right = some (⟨(a, b), hab⟩, op')) :
    (∃ h, comparedStrings? left = some ⟨(a, b), h⟩) ∧ isZero right = true ∨
      (∃ h, comparedStrings? right = some ⟨(a, b), h⟩) ∧ isZero left = true := by
  unfold stringComparison? at hc
  split at hc
  · rename_i p h hp
    split at hc
    · rename_i hz
      cases hc
      exact .inl ⟨⟨_, hp⟩, hz⟩
    · split at hc
      · rename_i q hq
        split at hc
        · rename_i hz
          cases hc
          exact .inr ⟨⟨_, hq⟩, hz⟩
        · cases hc
      · cases hc
  · rename_i p h hp hq
    split at hc
    · rename_i hz
      cases hc
      exact .inr ⟨⟨_, hq⟩, hz⟩
    · cases hc
  · cases hc

/-- The strings that are compared are parts of one of the sides. -/
theorem stringComparison?_isPart {op op' : BinaryOp} {left right a b : Expr}
    {hab : sizeOf (a, b).1 + sizeOf (a, b).2 < sizeOf left + sizeOf right}
    (hc : stringComparison? op left right = some (⟨(a, b), hab⟩, op')) :
    a.IsPart left ∧ b.IsPart left ∨ a.IsPart right ∧ b.IsPart right := by
  rcases stringComparison?_eq_some hc with ⟨⟨_, hp⟩, -⟩ | ⟨⟨_, hp⟩, -⟩
  · exact .inl (comparedStrings?_isPart hp)
  · exact .inr (comparedStrings?_isPart hp)

end Compilation

end LambdaQuery
