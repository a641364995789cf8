import LambdaQuery.Compiled
import LambdaQuery.Host.Queryable
import LambdaQuery.Proofs.Folding.Induction

/-!
# Compiling what is folded already

An expression that an interpreter has folded compiles to what the expression itself compiles to
(`Expr.compile_fold`). A chain of operators is folded once more, which changes nothing, and raw
query text, of which no fold is made, has its value from an evaluator that does not tell the two
apart (`Compilation.rawText_fold`).
-/

set_option autoImplicit false

namespace LambdaQuery

variable {i : Interpreter} {o : Options} {env : Environment} {e e' : Expr}

namespace Compilation

/-- A chain and its fold are the same query. -/
theorem query_fold {ask : Evaluator} (h : e.fold ask = .ok e') :
    query ⟨o, ask⟩ e' = query ⟨o, ask⟩ e := by
  simp only [query, h, Expr.refold_of_folded h]

/-! ## Raw text -/

theorem rawText_of_not_constant (hc : e.kind ≠ .constant) :
    rawText env e = match e.asLambda? with
      | some ⟨⟨[], body⟩, _⟩ => env.evaluator body
      | _ => env.evaluator e := by
  refine rawText.eq_2 env e ?_
  rintro value ty rfl
  exact hc rfl

/-- Folding keeps the value of raw text, also of text that a lambda without parameters gives. -/
theorem rawText_fold {raw raw' : Expr} (h : raw.fold i.evaluate = .ok raw') :
    rawText ⟨o, i.evaluate⟩ raw' = rawText ⟨o, i.evaluate⟩ raw := by
  have hagree := Interpreter.agrees_of_folded h
  by_cases hc : raw.kind = .constant
  · rw [Expr.fold_constant _ hc] at h
    rw [← Except.ok.inj h]
  rw [rawText_of_not_constant hc]
  have hlambda := Expr.asLambda?_of_folded h
  cases hf : raw.isFoldable with
  | true =>
    obtain ⟨v, hv, rfl⟩ := Expr.value_of_folded h hc hf
    rcases optionRel_cases hlambda with ⟨h₁, -⟩ | ⟨_, _, -, h₂, -⟩
    · rw [h₁]
      exact hv.symm
    · cases h₂
  | false =>
    rw [rawText_of_not_constant (by rwa [Expr.kind_of_folded h hf])]
    rcases optionRel_cases hlambda with ⟨h₁, h₂⟩ | ⟨⟨⟨ps, body⟩, hs⟩, ⟨⟨qs, body'⟩, hs'⟩, h₁, h₂,
      hparams, hbody⟩
    · rw [h₁, h₂]
      exact hagree.1
    · obtain rfl : qs = ps := hparams
      rw [h₁, h₂]
      cases qs with
      | nil => exact (Interpreter.agrees_of_folded hbody).1
      | cons => exact hagree.1

/-- Folding the operands of the escape keeps the query that stands for it, or its error. -/
theorem escaped_fold {method : String} {args args' : List Expr}
    (h : List.Forall₂ (fun d d' => d.fold i.evaluate = .ok d') args args') :
    escaped ⟨o, i.evaluate⟩ method args' = escaped ⟨o, i.evaluate⟩ method args := by
  rcases h with _ | ⟨hsource, _ | ⟨hraw, _ | ⟨hd, hds⟩⟩⟩
  · rfl
  · rfl
  · simp only [escaped, Expr.ty_of_folded hsource, rawText_fold hraw]
  · simp only [escaped, List.length_cons, hds.length_eq]

end Compilation

namespace Expr

theorem compile_of_not_call (hc : e.kind ≠ .constant) (hk : e.kind ≠ .call) :
    e.compile env = .error (.unsupported (.start e.kind)) := by
  cases e <;> first | rfl | exact absurd rfl hc | exact absurd rfl hk

/-- **An expression that is folded first compiles to the same.** The expression is not foldable as a
whole, a constant apart; an expression that is foldable becomes a constant, with which no query
starts. -/
theorem compile_fold (i : Interpreter) (o : Options) (e e' : Expr)
    (hf : e.isFoldable → e.kind = .constant) (h : e.fold i.evaluate = .ok e') :
    e'.compile ⟨o, i.evaluate⟩ = e.compile ⟨o, i.evaluate⟩ := by
  by_cases hc : e.kind = .constant
  · rw [fold_constant _ hc] at h
    rw [← Except.ok.inj h]
  have hf : e.isFoldable = false := Bool.eq_false_iff.mpr fun h => hc (hf h)
  by_cases hk : e.kind = .call
  · obtain ⟨target, method, args, ty, rfl⟩ := exists_call hk
    obtain ⟨target', args', rfl, hargs⟩ := call_of_folded h hf
    by_cases hm : method.declaring = .queryEscape
    · simp only [compile, if_pos hm, Compilation.escaped_fold hargs]
    · simp only [compile, if_neg hm, compileChain, Compilation.query_fold h]
  · have hkind := kind_of_folded h hf
    rw [compile_of_not_call hc hk, compile_of_not_call (by rwa [hkind]) (by rwa [hkind]), hkind]

/-- The text of a query is put together by a lambda, of which folding leaves the text. -/
theorem compile_fold_fromText :
    let text := Expr.binary .add (.string "SELECT * FROM ") (.string "root") .string
    let raw (body : Expr) := ((Queryable.root .object).fromText (.ofLambda ⟨[], body⟩)).expr
    let i := Interpreter.empty
    let o : Options := ⟨⟨.declared, []⟩, [], false⟩
    ((raw text).isFoldable → (raw text).kind = .constant) ∧
      (raw text).fold i.evaluate = .ok (raw (.string "SELECT * FROM root")) ∧
      (raw (.string "SELECT * FROM root")).compile ⟨o, i.evaluate⟩ =
        (raw text).compile ⟨o, i.evaluate⟩ := by
  intro text raw i o
  have hlive : (raw text).isFoldable = false := by cbv
  have hf : (raw text).isFoldable → (raw text).kind = .constant := by simp [hlive]
  have h : (raw text).fold i.evaluate = .ok (raw (.string "SELECT * FROM root")) := by cbv
  exact ⟨hf, h, compile_fold i o _ _ hf h⟩

end Expr

end LambdaQuery
