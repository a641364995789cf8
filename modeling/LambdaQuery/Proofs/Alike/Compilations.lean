import LambdaQuery.Proofs.Alike.Operators
import LambdaQuery.Proofs.Computations

/-!
# Two runs of the compilation of queries

Chains of operators come out alike when their operators and the scalars in them do. With the lemmas
about scalars this gives, by induction on the size of expressions, that whole compilations come out
alike (`Sound.scalar`, `Sound.rows`).
-/

set_option autoImplicit false

namespace LambdaQuery.Setting

open Compilation

variable (κ : Setting)

/-- The stage of a chain of operators comes out alike that of every renamed one. -/
def RowsRun (e : Expr) : Prop :=
  ∀ {F s s' e'}, e.Renamed κ.exact F.binders e' → κ.admits e → κ.Scopes F s s' →
    s.methods = s'.methods → Rooted F s s' → (e.isGrouping = true → Unbound s s') →
      κ.Runs s s' (rows κ.left e) (rows κ.right e') fun t t' => κ.Staged F t t' (s'.methods = [])

variable {κ} {F : Frame} {s s' t t' : Scope} {st st' : Stage} {final : Prop}

theorem Staged.checkOrder (h : κ.Staged F t t' final st st') (method : String) :
    checkOrder st method = checkOrder st' method := by
  unfold Compilation.checkOrder
  rw [h.hasGroupBy, h.hasTop, h.hasOffset]

theorem checkOrder_ungrouped {method : String} {u : Unit} (h : checkOrder st method = .ok u) :
    st.layer.hasGroupBy = false := by
  unfold Compilation.checkOrder at h
  cases hg : st.layer.hasGroupBy with
  | false => rfl
  | true =>
    rw [hg] at h
    cases h

namespace Runs

theorem layered (hs : κ.Scopes F s s') (hst : κ.Open F s s' st st') (method : String) (n : Nat) :
    κ.Runs s s' (layered st method n) (layered st' method n) (κ.Open F) := by
  unfold Compilation.layered
  rw [hst.toStaged.needsLayer]
  by_cases hn : st'.needsLayer method n = true
  · rw [if_pos hn, if_pos hn]
    refine .bind (.fresh hs "r") fun t t' n m hsu hfresh => .pure ?_
    exact ⟨hst.toStaged.package hsu hfresh hs.within, rfl⟩
  · rw [if_neg hn, if_neg hn]
    exact .pure hst

end Runs

/-- No operator may follow one that groups. -/
theorem afterGrouping {α β : Type} {x : Compilation α} {source : Expr} {method : String}
    {f : Stage → Compilation β} {P : Scope → Scope → α → β → Prop}
    (h : source.isGrouping = true) :
    κ.Runs s s' x (do
      let input ← rows κ.right source
      ofExcept (checkOrder input method)
      f input) P := by
  intro b t' hy
  obtain ⟨input, u, hrows, hrest⟩ := Compilation.bind_eq_ok.mp hy
  obtain ⟨_, v, hcheck, -⟩ := Compilation.bind_eq_ok.mp hrest
  have hg := checkOrder_ungrouped (ofExcept_eq_ok.mp hcheck).1
  rw [hasGroupBy_of_rows h hrows] at hg
  cases hg

theorem OperatorRuns.of_parts (hκ : κ.Sound) {method : String} {args : List Expr}
    (h : ∀ d, sizeOf d < sizeOf args → κ.ScalarRuns d)
    (hrows : ∀ d, sizeOf d < sizeOf args → κ.RowsRun d) : κ.OperatorRuns method args := by
  intro F s s' args' hr hes hs hms hne hroot hbound
  cases hr with
  | nil =>
    rw [Compilation.operator, Compilation.operator]
    exact .throw _ _
  | @cons source source' rest rest' hrsource hrrest =>
    rw [Compilation.operator, Compilation.operator]
    have hsource : κ.RowsRun source := hrows source (List.sizeOf_lt_of_mem List.mem_cons_self)
    by_cases hgrouping : source.isGrouping = true
    · exact afterGrouping (hrsource.isGrouping ▸ hgrouping)
    refine .bind (hsource hrsource (hes _ List.mem_cons_self) hs hms hroot
      fun hg => absurd hg hgrouping) fun t t' st st' hsu hst => ?_
    rw [hst.checkOrder, List.length_cons, List.length_cons, hrrest.length_eq]
    refine .bind (.same _) fun u u' _ _ hsv hcheck => ?_
    have hopen : κ.Open F u u' st st' :=
      ⟨(hst.imp hne).step hsv, checkOrder_ungrouped hcheck.2⟩
    refine .bind (.layered (hs.step (hsu.trans hsv)) hopen method _) fun v v' x x' hsw hx => ?_
    have hstep := (hsu.trans hsv).trans hsw
    replace hs := hs.step hstep
    have hmethods : v.methods = v'.methods := by
      rw [hstep.left.methods, hstep.right.methods, hms]
    have hlast : v'.methods = s'.methods := hstep.right.methods
    have happly : κ.Runs (v.pushCollection (.outer x.layer.name))
        (v'.pushCollection (.outer x'.layer.name)) (Compilation.apply κ.left method rest x)
        (Compilation.apply κ.right method rest' x')
        fun w w' => κ.Staged F w w' (v'.methods.length = 1) :=
      Runs.apply (fun d hd => h d (by simp only [List.cons.sizeOf_spec]; omega)) hrrest
        (fun e he => hes e (List.mem_cons_of_mem _ he)) (hs.pushCollection _ _) hmethods
        ⟨⟨_, _, rfl⟩, _, _, rfl⟩ (hx.beside ⟨rfl, rfl, rfl, rfl⟩) hκ method
        fun hm => ⟨((hbound hm).step hstep).left, ((hbound hm).step hstep).right⟩
    refine .withCollection _ _ happly fun w w' y y' hy => ?_
    rw [← hlast]
    exact hy.beside ⟨rfl, rfl, rfl, rfl⟩

/-- The items of the array that a nested query starts from. -/
theorem Runs.items {e e' : Expr} (he : κ.ScalarRuns e) (hr : e.Renamed κ.exact F.binders e')
    (hadm : κ.admits e) (hs : κ.Scopes F s s') :
    κ.Runs s s'
      (do
        let path ← scalar κ.left e
        return Stage.overItems (← Compilation.fresh "v") path)
      (do
        let path ← scalar κ.right e'
        return Stage.overItems (← Compilation.fresh "v") path)
      fun t t' => κ.Staged F t t' False := by
  refine .bind (he hr hadm hs) fun t t' a b hsu hab => ?_
  refine .bind (.fresh (hs.step hsu) "v") fun u u' n m hsv hfresh => .pure ?_
  exact .overItems (hab.step hsv) hfresh (within_step hs.within hsu)

theorem RowsRun.of_parts {e : Expr} (he : κ.ScalarRuns e)
    (hop : ∀ method args, sizeOf args < sizeOf e → κ.OperatorRuns method args) : κ.RowsRun e := by
  intro F s s' e' hr hadm hs hms hroot hbound
  have hdepth : s.inSubquery = s'.inSubquery := by
    rw [Scope.inSubquery, Scope.inSubquery, hs.depth]
  by_cases hcall : ∃ target method args ty, e = .call target method args ty
  · obtain ⟨target, method, args, ty, rfl⟩ := hcall
    obtain ⟨target', args', rfl, -, hrargs⟩ := hr.call
    rw [Compilation.rows.eq_1, Compilation.rows.eq_1]
    split
    · rename_i hop'
      have hgroupBy : method.name = "GroupBy" →
          Unbound (s.pushMethod method.name) (s'.pushMethod method.name) := fun hname =>
        have h := hbound (Bool.and_eq_true_iff.mpr ⟨hop', beq_iff_eq.mpr hname⟩)
        ⟨h.left, h.right⟩
      have hargs : ∀ e ∈ args, κ.admits e := fun e hmem =>
        κ.admits_child hadm (List.mem_append_right _ hmem)
      have hsize : sizeOf args < sizeOf (Expr.call target method args ty) := by
        simp only [Expr.call.sizeOf_spec]
        omega
      refine .withMethod _ (hop method.name args hsize hrargs hargs (hs.pushMethod method.name)
        (congrArg (method.name :: ·) hms) (List.cons_ne_nil _ _) hroot hgroupBy)
        fun t t' st st' hst => ?_
      refine (hst.imp fun hl => ?_).beside ⟨rfl, rfl, rfl, rfl⟩
      exact List.length_eq_zero_iff.mp (Nat.succ.inj hl)
    · refine .get_bind ?_
      rw [hdepth]
      split
      · exact (Runs.items he hr hadm hs).imp fun _ _ _ _ _ hst => hst.imp False.elim
      · exact .throw _ _
  · have hcall' : ∀ target method args ty, e' ≠ .call target method args ty := by
      rintro target method args ty rfl
      have hk := hr.kind
      cases e <;> cases hk
      exact hcall ⟨_, _, _, _, rfl⟩
    rw [Compilation.rows.eq_2 _ _ fun target method args ty he => hcall ⟨target, method, args, ty,
      he⟩,
      Compilation.rows.eq_2 _ _ hcall', ← hr.isRoot]
    refine .get_bind ?_
    rw [hdepth]
    split
    · exact (Runs.items he hr hadm hs).imp fun _ _ _ _ _ hst => hst.imp False.elim
    · rename_i hin
      split
      · have hd : s'.depth = 0 := by
          simpa [Scope.inSubquery] using hin
        obtain ⟨⟨hl, hr⟩, hmem, hmem'⟩ := hroot hd
        exact .pure ((Staged.root hl hr hmem hmem').imp False.elim)
      · exact .throw _ _

/-- **Scalars and chains come out alike**: the parts of an expression are smaller, and so are the
chains in it. -/
theorem Sound.runs (hκ : κ.Sound) (e : Expr) : κ.ScalarRuns e ∧ κ.RowsRun e := by
  induction hn : sizeOf e using Nat.strongRecOn generalizing e with
  | ind n ih =>
    subst hn
    have hop : ∀ method args, sizeOf args < sizeOf e → κ.OperatorRuns method args :=
      fun method args hargs => OperatorRuns.of_parts hκ (fun d hd =>
        (ih _ (Nat.lt_trans hd hargs) d rfl).1)
        fun d hd => (ih _ (Nat.lt_trans hd hargs) d rfl).2
    have he : κ.ScalarRuns e := ScalarRuns.of_parts hκ e (fun d hd => (ih _ hd d rfl).1) hop
    exact ⟨he, RowsRun.of_parts he hop⟩

theorem Sound.scalar (hκ : κ.Sound) (e : Expr) : κ.ScalarRuns e := (hκ.runs e).1

theorem Sound.rows (hκ : κ.Sound) (e : Expr) : κ.RowsRun e := (hκ.runs e).2

end LambdaQuery.Setting
