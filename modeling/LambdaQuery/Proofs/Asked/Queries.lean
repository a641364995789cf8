import LambdaQuery.Compiled
import LambdaQuery.Host.Queryable
import LambdaQuery.Proofs.Asked.Compilations
import LambdaQuery.Proofs.Folding.Compilation
import Mathlib

/-!
# What is handed to the evaluator

The evaluator is asked for the foldable parts of an expression, for the spatial values that are
constructed in it, and for raw query text (`Expr.handsOver_cases`). All of these are closed values
where the expression keeps queries and rows out of what the host evaluates
(`Expr.handsOver_isClosedValue`); an expression that does not keep them out is not refused
(`Expr.handsOver_open`).
-/

set_option autoImplicit false

namespace LambdaQuery

theorem mapM_congr_of_mem {α β : Type} {m : Type → Type} [Monad m] [LawfulMonad m] {f g : α → m β}
    {as : List α} (h : ∀ a ∈ as, f a = g a) : as.mapM f = as.mapM g := by
  induction as with
  | nil => rfl
  | cons a as ih =>
    rw [List.forall_mem_cons] at h
    rw [List.mapM_cons, List.mapM_cons, h.1, ih h.2]

namespace Expr

variable {o : Options} {ev ev' : Evaluator} {e : Expr}

/-! ## Evaluators that answer alike -/

theorem fold_asks {e : Expr} (h : ∀ d : Expr, d.IsPart e → d.kind ≠ .constant → d.isFoldable →
    ev d = ev' d) : e.fold ev = e.fold ev' := by
  by_cases hc : e.kind = .constant
  · rw [fold_constant _ hc, fold_constant _ hc]
  cases hf : e.isFoldable with
  | true => rw [fold_foldable _ hc hf, fold_foldable _ hc hf, h e .self hc hf]
  | false =>
    have hparts : ∀ d ∈ e.children, d.fold ev = d.fold ev' := fun d hd =>
      fold_asks fun c hcd => h c (hcd.trans (.of_child hd))
    rw [fold_parts _ hf, fold_parts _ hf, mapM_congr_of_mem hparts]
termination_by sizeOf e
decreasing_by exact sizeOf_child hd

/-- The expression that raw query text is the value of: the body of a lambda without parameters. -/
def textBody (raw : Expr) : Expr :=
  match raw.asLambda? with
  | some ⟨⟨[], body⟩, _⟩ => body
  | _ => raw

theorem rawText_eq {env : Environment} {raw : Expr} (hc : raw.kind ≠ .constant) :
    Compilation.rawText env raw = env.evaluator raw.textBody := by
  rw [Compilation.rawText_of_not_constant hc, textBody]
  rcases raw.asLambda? with _ | ⟨⟨_ | ⟨p, ps⟩, body⟩, hs⟩ <;> rfl

theorem rawText_asks {raw : Expr} (h : raw.kind ≠ .constant → ev raw.textBody = ev' raw.textBody) :
    Compilation.rawText ⟨o, ev⟩ raw = Compilation.rawText ⟨o, ev'⟩ raw := by
  by_cases hc : raw.kind = .constant
  · cases raw <;> cases hc
    rfl
  · rw [rawText_eq hc, rawText_eq hc]
    exact h hc

/-- Raw query text is evaluated for an expression, with the value of `raw` for the text. -/
def TakesText (e raw : Expr) : Prop :=
  raw.kind ≠ .constant ∧ ∃ target name source ty,
    e = .call target ⟨.queryEscape, name⟩ [source, raw] ty

theorem query_asks (hfold : ∀ d : Expr, d.IsPart e → d.kind ≠ .constant → d.isFoldable →
      ev d = ev' d)
    (hshape : ∀ d d' : Expr, d.IsPart e → d.IsShape → d.fold ev = .ok d' → ev d' = ev' d') :
    Compilation.query ⟨o, ev⟩ e = Compilation.query ⟨o, ev'⟩ e := by
  unfold Compilation.query
  rw [← fold_asks hfold]
  cases hfolded : e.fold ev with
  | error => rfl
  | ok folded =>
    have hsame : folded.SameShapes ev ev' := fun d' hd' hs => by
      obtain ⟨d, hd, hfold⟩ := part_of_folded hfolded hd'
      exact hshape d d' hd (isShape_of_folded hfold hs) hfold
    refine Compilation.ofExcept_bind_congr fun a ha => ?_
    cases ha
    rw [(Compilation.asks hsame).2]

/-- Evaluators that answer alike for what is handed to them give one query. -/
theorem compile_asks (hfold : ∀ d : Expr, d.IsPart e → d.kind ≠ .constant → d.isFoldable →
      ev d = ev' d)
    (hshape : ∀ d d' : Expr, d.IsPart e → d.IsShape → d.fold ev = .ok d' → ev d' = ev' d')
    (htext : ∀ raw, e.TakesText raw → ev raw.textBody = ev' raw.textBody) :
    e.compile ⟨o, ev⟩ = e.compile ⟨o, ev'⟩ := by
  by_cases hc : e.kind = .constant
  · cases e <;> cases hc
    rfl
  by_cases hk : e.kind = .call
  · obtain ⟨target, method, args, ty, rfl⟩ := exists_call hk
    obtain ⟨declaring, name⟩ := method
    by_cases hm : declaring = .queryEscape
    · subst hm
      have hescaped : Compilation.escaped ⟨o, ev⟩ name args =
          Compilation.escaped ⟨o, ev'⟩ name args := by
        rcases args with _ | ⟨source, _ | ⟨raw, _ | ⟨d, ds⟩⟩⟩
        · rfl
        · rfl
        · have hraw := rawText_asks (o := o) fun hc => htext raw ⟨hc, _, _, _, _, rfl⟩
          simp only [Compilation.escaped, hraw]
        · rfl
      simp only [compile, if_true, hescaped]
    · simp only [compile, if_neg hm, compileChain, query_asks hfold hshape]
  · rw [compile_of_not_call hc hk, compile_of_not_call hc hk]

/-! ## What is handed over -/

/-- Compiling `e` hands `x` to the evaluator: an evaluator that differs in its answer for `x` alone
may make another query of `e`. -/
def HandsOver (e : Expr) (o : Options) (ev : Evaluator) (x : Expr) : Prop :=
  ∃ ev' : Evaluator, (∀ d, d ≠ x → ev' d = ev d) ∧ e.compile ⟨o, ev'⟩ ≠ e.compile ⟨o, ev⟩

variable {x : Expr}

/-- What is handed over is a foldable part of the expression, a spatial value of which the parts
are folded, or raw query text. -/
theorem handsOver_cases (h : e.HandsOver o ev x) :
    (x.IsPart e ∧ x.kind ≠ .constant ∧ x.isFoldable) ∨
      (∃ d : Expr, d.IsPart e ∧ d.IsShape ∧ d.fold ev = .ok x) ∨
        ∃ raw, e.TakesText raw ∧ raw.textBody = x := by
  obtain ⟨ev', hoff, hne⟩ := h
  by_contra hnot
  simp only [not_or, not_exists, not_and] at hnot
  obtain ⟨hfold, hshape, htext⟩ := hnot
  refine hne (compile_asks ?_ ?_ ?_).symm
  · exact fun d hd hc hf => (hoff d fun hx => hfold (hx ▸ hd) (hx ▸ hc) (hx ▸ hf)).symm
  · exact fun d d' hd hs hd' => (hoff d' fun hx => hshape d hd hs (hx ▸ hd')).symm
  · exact fun raw hraw => (hoff _ (htext raw hraw)).symm

/-- Queries and rows are kept out of what the host evaluates: foldable parts do not mention the
query over all documents, and spatial values and raw query text are closed. -/
structure KeepsApart (e : Expr) : Prop where
  foldable : ∀ d : Expr, d.IsPart e → d.kind ≠ .constant → d.isFoldable →
    ∀ c : Expr, c.IsPart d → c.isRoot = false
  shape : ∀ d : Expr, d.IsPart e → d.IsShape → d.IsClosedValue
  text : ∀ raw, e.TakesText raw → raw.textBody.IsClosedValue

/-- An answer for `x` alone lets the expression be compiled. -/
theorem handsOver_of_isOk (isX : Expr → Bool) (hX : ∀ d, isX d = true → d = x) (v : Value)
    (hok : (e.compile ⟨o, fun d => if isX d then .ok v else ev d⟩).isOk = true)
    (herror : (e.compile ⟨o, ev⟩).isOk = false) : e.HandsOver o ev x := by
  refine ⟨fun d => if isX d then .ok v else ev d, fun d hd => if_neg fun h => hd (hX d h),
    fun h => ?_⟩
  rw [h, herror] at hok
  cases hok

/-! ### Expressions that are handed over -/

/-- A static member with the greatest price. -/
def priceLimit : Expr := .member none ⟨.model "Prices", "Limit"⟩ .int32

def isPriceLimit : Expr → Bool
  | .member none ⟨.model "Prices", "Limit"⟩ .int32 => true
  | _ => false

theorem eq_of_isPriceLimit {d : Expr} (h : isPriceLimit d = true) : d = priceLimit := by
  unfold isPriceLimit at h
  split at h
  · rfl
  · cases h

/-- A function of the host, called for all documents. -/
def statistic (name : String) (ty : HostType) : Expr :=
  .call none ⟨.host "Stats", name⟩ [(Queryable.root (.model "Row")).expr] ty

def isStatistic (name : String) (ty : HostType) : Expr → Bool
  | .call none ⟨.host "Stats", n⟩ [.constant .null (.documentQuery (.model "Row"))] t =>
    n = name ∧ t = ty
  | _ => false

theorem eq_of_isStatistic {name : String} {ty : HostType} {d : Expr}
    (h : isStatistic name ty d = true) : d = statistic name ty := by
  unfold isStatistic at h
  split at h
  · obtain ⟨rfl, rfl⟩ := of_decide_eq_true h
    rfl
  · cases h

theorem not_isClosedValue_statistic (name : String) (ty : HostType) :
    ¬(statistic name ty).IsClosedValue := fun h =>
  nomatch h.rootless (Queryable.root (.model "Row")).expr (.of_child List.mem_cons_self)

/-- A point at a coordinate of a row. -/
def rowPoint : Expr :=
  .construct [(Expr.parameter "r" (.model "Row")).property "X" .double] none .geometry

def isRowPoint : Expr → Bool
  | .construct [.member (some (.parameter "r" (.model "Row"))) ⟨.model "Row", "X"⟩ .double] none
      .geometry => true
  | _ => false

theorem eq_of_isRowPoint {d : Expr} (h : isRowPoint d = true) : d = rowPoint := by
  unfold isRowPoint at h
  split at h
  · rfl
  · cases h

theorem free_rowPoint : rowPoint.Free "r" :=
  .child List.mem_cons_self List.not_mem_nil
    (.child List.mem_cons_self List.not_mem_nil (.parameter _))

/-! ### What is handed over, and whether it is closed -/

/-- **The evaluator sees closed values**: whatever is handed to it has no free parameter and no
part that is the query over all documents, when the expression keeps these apart. -/
theorem handsOver_isClosedValue (e : Expr) (o : Options) (ev : Evaluator) (x : Expr)
    (he : e.KeepsApart) (hx : e.HandsOver o ev x) : x.IsClosedValue := by
  rcases handsOver_cases hx with ⟨hpart, hc, hf⟩ | ⟨d, hpart, hs, hfold⟩ | ⟨raw, hraw, rfl⟩
  · exact ⟨fun _ => not_free_of_foldable hf, he.foldable x hpart hc hf⟩
  · exact (he.shape d hpart hs).folded hfold
  · exact he.text raw hraw

/-- A limit on prices is handed over, and mentions no query. -/
theorem handsOver_isClosedValue_limit :
    let e := ((Queryable.root (.model "Row")).select (.unary "r" (.model "Row") priceLimit)).expr
    let o : Options := ⟨⟨.declared, []⟩, [], false⟩
    let ev : Evaluator := fun _ => .error .divisionByZero
    e.KeepsApart ∧ e.HandsOver o ev priceLimit ∧ priceLimit.IsClosedValue := by
  intro e o ev
  have hparts : ∀ {P : Expr → Prop}, P e → P (.null (.documentQuery (.model "Row"))) →
      P (.quote (.unary "r" (.model "Row") priceLimit)) →
        P (.ofLambda (.unary "r" (.model "Row") priceLimit)) → P priceLimit →
          ∀ d : Expr, d.IsPart e → P d := fun he hroot hquote hlambda hlimit =>
    forall_isPart.mpr ⟨he, List.forall_mem_cons.mpr
      ⟨forall_isPart.mpr ⟨hroot, List.forall_mem_nil _⟩, List.forall_mem_singleton.mpr
        (forall_isPart.mpr ⟨hquote, List.forall_mem_singleton.mpr
          (forall_isPart.mpr ⟨hlambda, List.forall_mem_singleton.mpr
            (forall_isPart.mpr ⟨hlimit, List.forall_mem_nil _⟩)⟩)⟩)⟩⟩
  have hapart : e.KeepsApart := by
    constructor
    · have hlive : e.isFoldable = false := by cbv
      exact hparts (fun _ h => absurd h (Bool.eq_false_iff.mp hlive)) (fun h => absurd rfl h)
        (fun _ h => absurd h (Bool.eq_false_iff.mp (isFoldable_quote _ _)))
        (fun _ h => absurd h (Bool.eq_false_iff.mp (isFoldable_lambda _ _)))
        fun _ _ => forall_isPart.mpr ⟨rfl, List.forall_mem_nil _⟩
    · have hnot : ∀ {d : Expr}, d.kind ≠ .construct → d.IsShape → d.IsClosedValue :=
        fun hk h => absurd h.1 hk
      exact hparts (hnot (by decide)) (hnot (by decide)) (hnot (by decide)) (hnot (by decide))
        (hnot (by decide))
    · rintro raw ⟨-, target, name, source, ty, h⟩
      change Expr.call none ⟨.queryable, "Select"⟩ _ _ = _ at h
      cases h
  have hx : e.HandsOver o ev priceLimit :=
    handsOver_of_isOk isPriceLimit (fun _ => eq_of_isPriceLimit) (.integer 5) (by cbv) (by cbv)
  exact ⟨hapart, hx, handsOver_isClosedValue e o ev priceLimit hapart hx⟩

/-- A limit and a text that functions of the host make of the query itself, and a point with the
coordinate of a row, are handed over. -/
theorem handsOver_open :
    let rows := Queryable.root (.model "Row")
    let limit := statistic "Limit" .int32
    let text := statistic "Text" .string
    let o : Options := ⟨⟨.declared, []⟩, [], false⟩
    let ev : Evaluator := fun _ => .error .divisionByZero
    ((rows.select (.unary "r" (.model "Row") limit)).expr.HandsOver o ev limit ∧
        ¬limit.IsClosedValue) ∧
      ((rows.fromText text).expr.HandsOver o ev text ∧ ¬text.IsClosedValue) ∧
        (rows.select (.unary "r" (.model "Row") rowPoint)).expr.HandsOver o ev rowPoint ∧
          rowPoint.Free "r" := by
  intro rows limit text o ev
  refine ⟨⟨?_, not_isClosedValue_statistic _ _⟩, ⟨?_, not_isClosedValue_statistic _ _⟩, ?_,
    free_rowPoint⟩
  · exact handsOver_of_isOk (isStatistic "Limit" .int32) (fun _ => eq_of_isStatistic) (.integer 5)
      (by cbv) (by cbv)
  · exact handsOver_of_isOk (isStatistic "Text" .string) (fun _ => eq_of_isStatistic)
      (.string "SELECT 1") (by cbv) (by cbv)
  · exact handsOver_of_isOk isRowPoint (fun _ => eq_of_isRowPoint) (.geometry .null) (by cbv)
      (by cbv)

end Expr

end LambdaQuery
