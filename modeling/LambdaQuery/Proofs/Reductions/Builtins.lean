import LambdaQuery.Proofs.Reductions.Calls

/-!
# Reductions in operands

A builtin function is built over the operands that it reads: so no operator follows a reduction in a
call of one, if that is so in each operand that has a scalar (`Compilation.gives_builtin`). The
operators that are builtin functions as well follow no reduction.
-/

set_option autoImplicit false

namespace LambdaQuery

namespace Compilation

variable {os : List Operand}

/-- The operators that are builtin functions as well. -/
theorem gives_call_operator {method : Method} (hm : method.isOperator = true)
    {target : Option Operand} : (Builtin.call method target os).Gives fun _ =>
      method.name = "Contains" ∨ method.name = "Concat" ∨
        method.name = "Count" ∧ ∃ o, target.toList ++ os = [o] := by
  have hsequence : (Builtin.sequenceMethod? method.name target os).Gives fun r => r.isSome →
      method.name = "Contains" ∨ method.name = "Concat" ∨
        method.name = "Count" ∧ ∃ o, target.toList ++ os = [o] := by
    unfold Builtin.sequenceMethod?
    split
    · rename_i hname _
      exact fun _ _ _ _ _ => .inl hname
    · rename_i hname _
      exact fun _ _ _ _ _ => .inr (.inl hname)
    · rename_i source hname hos
      exact fun _ _ _ _ _ => .inr (.inr ⟨hname, source, hos⟩)
    · exact .pure fun h => nomatch h
  have hfound : (Builtin.find? method target os).Gives fun r => r.isSome →
      method.name = "Contains" ∨ method.name = "Concat" ∨
        method.name = "Count" ∧ ∃ o, target.toList ++ os = [o] := by
    unfold Builtin.find?
    cases hd : method.declaring with
    | enumerable => exact hsequence
    | queryable => exact .pure fun h => nomatch h
    | _ =>
      rw [Method.isOperator, hd] at hm
      cases hm
  rw [Builtin.call_eq]
  refine hfound.bind fun r hr => ?_
  cases r with
  | none => exact .throw
  | some a => exact .pure (hr rfl)

/-- An operator that a builtin function stands for is applied to no reduction: that would be a
nested query. -/
theorem followsReduction_of_builtin {target : Option Expr} {method : Method} {args : List Expr}
    (ty : HostType) (hnested : ¬isNestedQuery target method args = true)
    (hname : method.name = "Contains" ∨ method.name = "Concat" ∨
      method.name = "Count" ∧ ∃ d, target.toList ++ args = [d]) :
    (Expr.call target method args ty).followsReduction = false := by
  rw [Expr.followsReduction]
  rcases hname with hname | hname | ⟨hname, d, hoperands⟩
  · rw [hname, show queryOperators.contains "Contains" = false by decide, Bool.and_false,
      Bool.false_and]
  · rw [hname, show queryOperators.contains "Concat" = false by decide, Bool.and_false,
      Bool.false_and]
  · cases target with
    | some target =>
      obtain ⟨-, rfl⟩ := List.cons.inj hoperands
      exact Bool.and_false _
    | none =>
      obtain rfl : args = [d] := hoperands
      have hd : d.isReduction = false ∨ method.isOperator = false := by
        cases hm : method.isOperator with
        | false => exact .inr rfl
        | true =>
          refine .inl (Expr.isReduction_eq_false (Bool.eq_false_iff.mpr fun hd => hnested ?_))
          rw [isNestedQuery, hm, hname, List.head?_cons, Option.any_some, hd]
          rfl
      rcases hd with hd | hm
      · rw [List.head?_cons, Option.any_some, hd, Bool.and_false]
      · rw [hm, Bool.false_and, Bool.false_and]

/-- A call that is no nested query. -/
theorem gives_builtin {env : Environment} {target : Option Expr} {method : Method}
    {args : List Expr} (ty : HostType) (hnested : ¬isNestedQuery target method args = true)
    (h : ∀ d ∈ target.toList ++ args, (scalar env d).Gives fun _ => d.ReducesLast) :
    (Builtin.call method (target.map fun d => ⟨d, scalar env d⟩)
      (args.map fun d => Operand.mk d (scalar env d))).Gives
        fun _ => (Expr.call target method args ty).ReducesLast := by
  have hread : (Builtin.call method (target.map fun d => ⟨d, scalar env d⟩)
      (args.map fun d => Operand.mk d (scalar env d))).Gives
        fun _ => ∀ d ∈ Expr.readOperands target method args, d.ReducesLast := by
    refine (givesIn_builtin (P := fun d _ => d.ReducesLast)
      fun d hd => (h d hd).givesIn).gives.imp fun a huses d hd => ?_
    rcases huses d hd with hflag | ⟨_, hlast, -⟩
    · obtain ⟨v, hv⟩ := Option.isSome_iff_exists.mp hflag
      exact Expr.reducesLast_of_asConstant? hv
    · exact hlast
  cases hm : method.isOperator with
  | false => exact hread.imp fun _ => Expr.reducesLast_call hm
  | true =>
    refine (hread.and (gives_call_operator hm)).imp fun _ ⟨hread, hname⟩ =>
      Expr.reducesLast_iff.mpr ⟨followsReduction_of_builtin ty hnested ?_, hread⟩
    refine hname.imp_right (Or.imp_right (And.imp_right ?_))
    rintro ⟨o, ho⟩
    cases target with
    | none =>
      obtain ⟨d, hd, -⟩ := List.map_eq_singleton_iff.mp ho
      exact ⟨d, hd⟩
    | some target =>
      obtain ⟨-, hnil⟩ := List.cons.inj ho
      exact ⟨target, congrArg (target :: ·) (List.map_eq_nil_iff.mp hnil)⟩

end Compilation

end LambdaQuery
