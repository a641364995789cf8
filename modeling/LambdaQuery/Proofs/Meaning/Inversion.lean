import LambdaQuery.Proofs.Alike.Inlined
import LambdaQuery.Proofs.Meaning.Edits
import LambdaQuery.Proofs.Meaning.Lambdas
import LambdaQuery.Proofs.Scoping

/-!
# What compiled operators have done

When a call of a query operator is compiled, its source is, then a layer is put over the stage where
the operator needs one, and the operator is applied to that (`Scope.Top.operator`).
-/

set_option autoImplicit false

namespace LambdaQuery

open Compilation

variable {V : Type} {env : Environment} {L : Locals V}

/-! ## Shapes -/

theorem RowLambda.IsArg.selector? {l : RowLambda} {arg : Expr} (h : l.IsArg arg)
    (method : String) : ∃ hsize, selector? method arg = .ok ⟨l.param, l.body, hsize⟩ := by
  obtain ⟨ty, h⟩ := h
  obtain ⟨⟨_, hsize⟩, h, rfl⟩ := Option.map_eq_some_iff.mp h
  refine ⟨hsize, ?_⟩
  unfold Compilation.selector?
  rw [h]

theorem Expr.Calls.isGrouping {e : Expr} {name : String} {args : List Expr} (h : e.Calls name args)
    (hname : (name == "GroupBy") = false) : e.isGrouping = false := by
  obtain ⟨target, method, ty, rfl, -, rfl⟩ := h
  rw [Expr.isGrouping, hname, Bool.and_false]

/-- Where a chain starts, nothing is grouped. -/
theorem Operator.AreExpr.isGrouping {start : Expr → Prop} {ops : List Operator} {e : Expr}
    (h : Operator.AreExpr start ops e) (hstart : ∀ e, start e → e.isGrouping = false) :
    e.isGrouping = false := by
  cases h with
  | start h => exact hstart e h
  | orderBy descending h | thenBy descending h => cases descending <;> exact h.isGrouping rfl
  | filter h | select h | selectMany h | distinct h | take h | skip h => exact h.isGrouping rfl

/-! ## Scopes of chains -/

/-- The parameters around a chain stand for themselves. -/
def Locals.frame (L : Locals V) : Frame :=
  ⟨L.params.map fun p => (.parameter p, .parameter p), [], [], .same⟩

/-- Only parameters of the query stand for anything but themselves. -/
theorem Setting.self_likeness_plain (env : Environment) (L : Locals V) (qs : List QueryParameter) :
    ((self env).likeness qs L.frame).Plain where
  leaf := by
    rintro a b (hab | ⟨hab, -⟩)
    · exact hab
    · obtain ⟨p, -, hp⟩ := List.mem_map.mp hab
      cases hp
      exact ⟨p, rfl, rfl⟩
  count _ _ h := h

theorem Setting.self_plain (env : Environment) (L : Locals V) (qs : List QueryParameter)
    (st : Stage) : ((self env).upper qs L.frame st st).Plain where
  leaf := (self_likeness_plain env L qs).leaf
  count := (self_likeness_plain env L qs).count

/-- The scope of a chain, outside of its lambdas. -/
structure Scope.Top (env : Environment) (L : Locals V) (s : Scope) : Prop extends s.Around L where
  scopes : (Setting.self env).Scopes L.frame s s
  rooted : Setting.Rooted L.frame s s

namespace Scope.Top

variable {s t : Scope} (h : s.Top env L)

include h

theorem step (hs : (Setting.self env).Step s s t t) : t.Top env L where
  scopes := h.scopes.step hs
  rooted := fun hd => by
    obtain ⟨hroot, hlive, hnames⟩ := h.rooted (hs.left.depth.symm.trans hd)
    exact ⟨hroot, hs.left.live hlive, hs.right.names hnames⟩
  depth := hs.left.depth.trans h.depth
  group := hs.left.group.trans h.group
  bindings := hs.left.bindings.trans h.bindings
  operation := hs.left.operation h.operation

theorem pushMethod (method : String) : (s.pushMethod method).Top env L :=
  ⟨⟨h.bindings, h.depth, h.group, h.operation⟩, h.scopes.pushMethod method, h.rooted⟩

theorem pushCollection (c : Collection) : (s.pushCollection c).Top env L :=
  ⟨⟨h.bindings, h.depth, h.group, h.operation⟩, h.scopes.pushCollection c c, h.rooted⟩

/-- What is known of the stage of a chain, and of the scope after it. -/
theorem rows {e : Expr} (he : e.isGrouping = false) {st : Stage}
    (hrun : Compilation.rows env e s = (.ok st, t)) :
    t.Top env L ∧ (Setting.self env).Step s s t t ∧
      (Setting.self env).Staged L.frame t t (s.methods = []) st st := by
  have hbound : e.isGrouping = true → Setting.Unbound s s := fun hg => by
    rw [he] at hg
    cases hg
  rcases (Setting.self_sound env).rows e (F := L.frame) (.refl Binders.same_refl _) trivial h.scopes
    rfl h.rooted hbound st t hrun with ⟨st', t', hrun', hstep, hst⟩ | ⟨hlax, -⟩
  · cases hrun.symm.trans hrun'
    exact ⟨h.step hstep, hstep, hst⟩
  · exact hlax.elim

end Scope.Top

/-! ## Operators -/

namespace Compilation

variable {s t : Scope} {st : Stage} {method : String}

/-- What limits an operator may follow. -/
theorem checkOrder_eq_ok {u : Unit} (h : checkOrder st method = .ok u) :
    st.layer.hasGroupBy = false ∧ (allowedAfterTake.contains method = false → st.hasTop = false) ∧
      (allowedAfterSkip.contains method = false → st.hasOffset = false) := by
  unfold checkOrder at h
  cases hg : st.layer.hasGroupBy <;> cases ht : st.hasTop <;> cases ho : st.hasOffset <;>
    cases hta : allowedAfterTake.contains method <;>
      cases hsk : allowedAfterSkip.contains method <;>
    simp_all

/-- A stage as an operator sees it: with a layer of its own where it needs one. -/
inductive Layered (method : String) (argCount : Nat) (st : Stage) : Stage → Prop where
  | same (h : st.needsLayer method argCount = false) : Layered method argCount st st
  | packaged (name : String) (h : st.needsLayer method argCount = true) :
    Layered method argCount st (st.package name)

theorem layered_eq_ok {argCount : Nat} {x : Stage}
    (h : layered st method argCount s = (.ok x, t)) : Layered method argCount st x := by
  unfold layered at h
  by_cases hn : st.needsLayer method argCount = true
  · rw [if_pos hn] at h
    obtain ⟨name, u, -, h⟩ := bind_eq_ok.mp h
    rw [(pure_eq_ok.mp h).1]
    exact .packaged name hn
  · rw [if_neg hn] at h
    rw [(pure_eq_ok.mp h).1]
    exact .same (by simpa using hn)

end Compilation

namespace Scope.Top

variable {s t : Scope} {st : Stage} {method : String} {source : Expr} {rest : List Expr}

/-- An operator is applied to the stage of its source. -/
theorem operator (h : s.Top env L) (hm : s.methods ≠ []) (hsource : source.isGrouping = false)
    (hrun : Compilation.operator env method (source :: rest) s = (.ok st, t)) :
    ∃ input x u v w, Compilation.rows env source s = (.ok input, u) ∧
      Compilation.checkOrder input method = .ok () ∧
        Layered method (rest.length + 1) input x ∧ v.Top env L ∧
          (∃ name cs, v.collections = .outer name :: cs) ∧
            (Setting.self env).Open L.frame v v x x ∧
              Compilation.apply env method rest x v = (.ok st, w) := by
  rw [Compilation.operator] at hrun
  obtain ⟨input, u, hrows, hchecked⟩ := Compilation.bind_eq_ok.mp hrun
  obtain ⟨_, u', hordered, hrest⟩ := Compilation.bind_eq_ok.mp hchecked
  obtain ⟨hcheck, rfl⟩ := ofExcept_eq_ok.mp hordered
  obtain ⟨x, v, hlayered, hwithin⟩ := Compilation.bind_eq_ok.mp hrest
  obtain ⟨w, happly, -⟩ := within_eq_ok hwithin
  obtain ⟨htop, hstep, hst⟩ := h.rows hsource hrows
  have hopen : (Setting.self env).Open L.frame u' u' input input :=
    ⟨hst.imp hm, (Compilation.checkOrder_eq_ok hcheck).1⟩
  rcases Setting.Runs.layered htop.scopes hopen method _ x v hlayered with
    ⟨x', v', hlayered', hstep', hx⟩ | ⟨hlax, -⟩
  · cases hlayered.symm.trans hlayered'
    exact ⟨input, x, u', v.pushCollection (.outer x.layer.name), w, hrows, hcheck,
      layered_eq_ok hlayered, (htop.step hstep').pushCollection _, ⟨_, _, rfl⟩,
      hx.beside ⟨rfl, rfl, rfl, rfl⟩, happly⟩
  · exact hlax.elim

end Scope.Top

end LambdaQuery
