import LambdaQuery.Proofs.Kept.Expressions
import LambdaQuery.Proofs.Operators

/-!
# Invariants of chains

Every operator builds what `Stage.Built` and `Stage.Ended` list (`Invariant.apply`), from scalars
that satisfy the invariant. With the lemmas about scalars this gives, by induction on the size of
expressions, that all scalars do (`Invariant.scalar`) and all chains are built so
(`Invariant.rows`).
-/

set_option autoImplicit false

namespace LambdaQuery.Invariant

open Compilation Stage
open ScalarInvariant (holds_same)

variable (I : Invariant) (env : Environment)

/-- The stage of a chain is one that operators build. Only the outermost operator may end it. -/
def RowsKeeps (e : Expr) : Prop :=
  ∀ s, I.Scopes s → (Compilation.rows env e).Ensures s (I.Ended (s.methods = []))

/-- Lambdas range over the rows of the stage. -/
def Outer (s : Scope) : Prop := ∃ name cs, s.collections = .outer name :: cs

variable {I env} {s t : Scope} {st : Stage}

theorem Outer.grows (h : Outer s) (hg : s.Grows t) : Outer t := by
  unfold Outer
  rw [hg.collections]
  exact h

theorem built_same (h : I.Built s st) (hn : t.names = s.names)
    (hp : t.parameters = s.parameters) (hg : t.group = s.group) : I.Built t st :=
  built_knows (.same hn hp hg) h

theorem built_row (h : I.Built s st) : I.holds s st.layer.row := h.row I.ref

/-! ## Lambdas -/

/-- A lambda over the rows of a stage. -/
theorem overRows {body : Expr} (name : String) (hs : I.Scopes s) (ho : Outer s)
    (hst : I.Built s st) (hbody : I.ScalarKeeps env body) :
    (withRow name st fun stage => return (← Compilation.scalar env body, stage)).Ensures s
      fun t p => I.holds t p.1 ∧ p.2 = st := by
  obtain ⟨n, cs, hc⟩ := ho
  refine .withRow_outer hc (.bind (hbody _ (hs.bindTo (built_row hst) name)) fun t a _ ha =>
    .pure (Q := fun t (p : Scalar × Stage) => I.holds t p.1 ∧ p.2 = st) ⟨ha, rfl⟩) ?_
  rintro t p - ⟨ha, hp⟩
  exact ⟨holds_same ha rfl rfl rfl, hp⟩

/-- A lambda over the items of an array, which each row is joined with. -/
theorem overItems {body : Expr} (name : String) {path : Scalar} {cs : List Collection}
    (hc : s.collections = .inner path :: cs) (hs : I.Scopes s) (hst : I.Built s st)
    (hu : st.Unbounded) (hsel : st.layer.selection = none) (hpath : I.holds s path)
    (hbody : I.ScalarKeeps env body) :
    (withRow name st fun stage => return (← Compilation.scalar env body, stage)).Ensures s
      fun t p => I.holds t p.1 ∧ I.Built t p.2 ∧ p.2.Unbounded := by
  have hgrows := Scope.grows_fresh s name
  have hin := (hs.grows hgrows).bindTo (I.ref (s.fresh name).1) name
  have hjoin : I.Built s (st.addJoin (s.fresh name).1 path) := .join _ hst hu hsel hpath
  refine .withRow_inner hc (.bind (hbody _ hin) fun t a ht ha =>
    .pure (Q := fun t (p : Scalar × Stage) => I.holds t p.1 ∧ I.Built t p.2 ∧ p.2.Unbounded)
      ⟨ha, ?_, hu.top, hu.offset⟩) ?_
  · refine built_knows ?_ hjoin
    exact ⟨List.Subset.trans hgrows.names ht.names, hgrows.parameters.trans ht.parameters,
      ht.group.trans hgrows.group⟩
  · rintro t p - ⟨ha, hp, hu⟩
    exact ⟨holds_same ha rfl rfl rfl, built_same hp rfl rfl rfl, hu⟩

theorem selected {method : String} {rest : List Expr}
    (h : ∀ d, sizeOf d < sizeOf rest → I.ScalarKeeps env d) (hs : I.Scopes s) (ho : Outer s)
    (hst : I.Built s st) :
    (Compilation.selected env method rest st).Ensures s fun t p => I.holds t p.1 ∧ p.2 = st := by
  rcases rest with _ | ⟨arg, _ | ⟨extra, rest⟩⟩
  · rw [Compilation.selected]
    · exact .throw rfl
    · rintro _ ⟨⟩
  · rw [Compilation.selected]
    refine .bind (.ofExcept (Q := fun _ _ => True) (fun _ _ => trivial)
      fun _ => selector?_external) fun t l ht _ => ?_
    exact overRows l.param (hs.grows ht) (ho.grows ht) (built_knows ht.knows hst)
      (h l.body (Nat.lt_trans l.smaller (List.sizeOf_lt_of_mem (List.mem_singleton_self _))))
  · rw [Compilation.selected]
    · exact .throw rfl
    · rintro _ ⟨⟩

/-! ## Joining arrays -/

/-- What joining arrays leaves: nothing is bounded. -/
structure Joined (I : Invariant) (t : Scope) (st : Stage) : Prop where
  built : I.Built t st
  unbounded : st.Unbounded

theorem joinedPath {e : Expr} (he : I.ScalarKeeps env e) (hs : I.Scopes s) (hst : I.Built s st)
    (hu : st.Unbounded) (hsel : st.layer.selection = none) :
    (do
      let path ← Compilation.scalar env e
      return st.addJoin (← Compilation.fresh "v") path : Compilation Stage).Ensures s
        (Joined I) := by
  refine .bind (he s hs) fun t path ht hpath => ?_
  refine .bind (.fresh (Q := fun _ _ => True) trivial) fun u n hu' _ =>
    .pure ⟨?_, hu.top, hu.offset⟩
  exact .join n (built_knows (ht.trans hu').knows hst) hu hsel (I.mono hu'.knows hpath)

/-- The chain of operators over an array that each row is joined with. -/
theorem joined {size : Nat} (h : ∀ d, sizeOf d < size → I.ScalarKeeps env d) (e : Expr)
    (hsize : sizeOf e < size) {s : Scope} (hs : I.Scopes s) (ho : Outer s) (hst : I.Built s st)
    (hu : st.Unbounded) (hsel : st.layer.selection = none) :
    (Compilation.joined env e st).Ensures s (Joined I) := by
  rw [Compilation.joined.eq_def]
  split
  · rename_i target method args ty
    split
    · split
      · split
        · rename_i source arg
          have hsizes : sizeOf source < sizeOf (Expr.call target method [source, arg] ty) ∧
              sizeOf arg < sizeOf (Expr.call target method [source, arg] ty) := by
            simp only [Expr.call.sizeOf_spec, List.cons.sizeOf_spec]
            omega
          refine .bind (.ofExcept (Q := fun _ _ => True) (fun _ _ => trivial)
            fun _ => selector?_external) fun t l ht _ => ?_
          have hlt := l.smaller
          have hbody : I.ScalarKeeps env l.body := h l.body (by omega)
          replace hs := hs.grows ht
          replace ho := ho.grows ht
          replace hst := built_knows ht.knows hst
          -- What both branches give is filtered or projected in the same way.
          have hfinish : ∀ {u : Scope} {p : Scalar × Stage}, I.holds u p.1 → I.Built u p.2 →
              p.2.Unbounded → (if (method.name == "Where") = true then pure (p.2.addWhere p.1)
                else pure (p.2.replaceSelect p.1) : Compilation Stage).Ensures u (Joined I) := by
            intro u p ha hp hu
            split
            · exact .pure ⟨.filter hp hu ha, hu.top, hu.offset⟩
            · exact .pure ⟨.replaceSelect hp hu ha, hu.top, hu.offset⟩
          dsimp only
          by_cases hop : isOperatorCall source = true
          · rw [if_pos hop]
            refine .bind (joined h source (by omega) hs ho hst hu hsel) fun u x hux hx => ?_
            refine .bind (overRows l.param (hs.grows hux) (ho.grows hux) hx.built hbody)
              fun v p huv hp => ?_
            obtain ⟨a, x⟩ := p
            obtain ⟨ha, rfl⟩ := hp
            exact hfinish ha (built_knows huv.knows hx.built) hx.unbounded
          · rw [if_neg hop]
            refine .bind (h source (by omega) t hs) fun u path hup hpath => ?_
            have hin : I.Scopes (u.pushCollection (.inner path)) :=
              (hs.grows hup).knows (.same rfl rfl rfl) rfl
            refine .bind (.withCollection (overItems l.param rfl hin
              (built_same (built_knows hup.knows hst) rfl rfl rfl) hu hsel
                (holds_same hpath rfl rfl rfl) hbody)
              (Q := fun t p => I.holds t p.1 ∧ I.Built t p.2 ∧ p.2.Unbounded) ?_)
                fun v p _ hp => hfinish hp.1 hp.2.1 hp.2.2
            rintro v p - ⟨ha, hp, hu⟩
            exact ⟨holds_same ha rfl rfl rfl, built_same hp rfl rfl rfl, hu⟩
        · exact .throw rfl
      · exact .throw rfl
    · exact joinedPath (h _ hsize) hs hst hu hsel
  · exact joinedPath (h _ hsize) hs hst hu hsel
termination_by sizeOf e

/-! ## Groups -/

theorem resultSelector?_external {arg : Expr} {e : CompileError}
    (h : resultSelector? arg = .error e) : e.isInternal = false := by
  unfold resultSelector? at h
  split at h <;> cases h
  rfl

theorem groupedBy {rest : List Expr} (h : ∀ d, sizeOf d < sizeOf rest → I.ScalarKeeps env d)
    (hs : I.Scopes s) (ho : Outer s) (hst : I.Built s st) {n : Nat} (hr : st.Ready "GroupBy" n)
    {last : Prop} : (Compilation.grouped env rest st).Ensures s (I.Ended last) := by
  rcases rest with _ | ⟨keyArg, _ | ⟨resultArg, _ | ⟨extra, rest⟩⟩⟩
  · rw [Compilation.grouped.eq_def]
    exact .throw rfl
  · rw [Compilation.grouped.eq_def]
    exact .throw rfl
  · rw [Compilation.grouped.eq_def]
    dsimp only
    refine .bind (.ofExcept (Q := fun _ _ => True) (fun _ _ => trivial)
      fun _ => selector?_external) fun t l ht _ => ?_
    refine .bind (.ofExcept (Q := fun _ _ => True) (fun _ _ => trivial)
      fun _ => resultSelector?_external) fun u r hu _ => ?_
    have hlt := l.smaller
    have hrt := r.smaller
    have hkey : I.ScalarKeeps env l.body := h l.body (by simp only [List.cons.sizeOf_spec]; omega)
    have hresult : I.ScalarKeeps env r.body :=
      h r.body (by simp only [List.cons.sizeOf_spec]; omega)
    replace hu := ht.trans hu
    replace hs := hs.grows hu
    replace hst := built_knows hu.knows hst
    refine .bind (overRows l.param hs (ho.grows hu) hst hkey) fun v p huv hp => ?_
    obtain ⟨key, st⟩ := p
    obtain ⟨hk, rfl⟩ := hp
    dsimp only at hk ⊢
    replace hs := hs.grows huv
    replace hst := built_knows huv.knows hst
    split
    · exact .throw rfl
    -- The result sees the key and the rows of its group.
    have hin := hs.bindTo hk r.key
    have hrow : I.holds (v.bindTo r.key key) st.layer.row :=
      holds_same (built_row hst) rfl rfl rfl
    have hvalue : (Compilation.withParameter r.key key (Compilation.withGroup
        ⟨r.group, st.layer.row⟩ (Compilation.scalar env r.body))).Ensures v
          fun w a => ∃ g, I.holds (w.setGroup (some g)) a := by
      refine .withParameter (.withGroup (hresult _ (hin.setGroup hrow))
        (Q := fun w a => ∃ g, I.holds (w.setGroup (some g)) a) ?_) ?_
      · exact fun w a hw ha => ⟨⟨r.group, st.layer.row⟩, holds_same ha rfl rfl hw.group.symm⟩
      · exact fun w a _ ⟨g, ha⟩ => ⟨g, holds_same ha rfl rfl rfl⟩
    refine .bind hvalue fun w a hvw ha => ?_
    have hunbounded := hr.unbounded (by decide)
    have hsel := hr.selection (by decide)
    refine .bind (.edit (Q := fun _ u => u = st.mapLayer fun l => { l with groupBy := [key] })
      (fun u hu => (addGroupBy_eq_ok.mp hu).2) fun e u he => ?_) fun x u hwx hu => ?_
    · rw [addGroupBy_eq, hr.ungrouped] at he
      cases he
    · subst hu
      have hend : I.Ended last x (st.mapLayer ({ · with
          groupBy := [key], selection := some (.ofValue a) })) := by
        obtain ⟨g, ha⟩ := ha
        refine .grouped (built_knows (hvw.trans hwx).knows hst) hunbounded hsel hr.orderBy
          (I.mono (hvw.trans hwx).knows hk) ⟨g, ?_⟩
        exact I.mono (s := w.setGroup (some g)) ⟨hwx.names, hwx.parameters, rfl⟩ ha
      refine .edit (fun u hu => ?_) fun e u he => ?_
      · obtain ⟨-, rfl⟩ := addSelect_eq_ok.mp hu
        exact hend
      · rw [addSelect_eq,
          show (st.mapLayer fun l => { l with groupBy := [key] }).layer.selection = none
          from hsel] at he
        cases he
  · rw [Compilation.grouped.eq_def]
    exact .throw rfl

/-! ## Operators -/

section

variable {method : String} {rest : List Expr} {n : Nat} {last : Prop}

/-- The selection of a value on a layer without one. -/
theorem editSelect {value : Scalar} {Q : Scope → Stage → Prop} (hsel : st.layer.selection = none)
    (h : Q s (st.mapLayer ({ · with selection := some (.ofValue value) }))) :
    (Compilation.edit st (Stage.addSelect (.ofValue value))).Ensures s Q := by
  refine .edit (fun u hu => ?_) fun e u he => ?_
  · obtain ⟨-, rfl⟩ := addSelect_eq_ok.mp hu
    exact h
  · rw [addSelect_eq, hsel] at he
    cases he

/-- The stage of an aggregate. -/
theorem editAggregate {value : Scalar} (hst : I.Built s st) (hu : st.Unbounded)
    (hsel : st.layer.selection = none) (hlast : last) (hv : Aggregates (I.holds s) value) :
    (do
      let stage ← Compilation.edit st (Stage.addSelect (.ofValue value))
      Compilation.setOperation .firstOrDefault
      return stage : Compilation Stage).Ensures s (I.Ended last) := by
  have hend : I.Ended last s (st.mapLayer ({ · with selection := some (.ofValue value) })) :=
    .aggregate hlast hst hu hsel hv
  refine .bind (editSelect (Q := I.Ended last) hsel hend) fun t u _ hu => ?_
  refine .bind (.setOperation (Q := fun t _ => I.Ended last t u) fun t ht =>
    ended_knows ht.knows hu) fun v _ _ hv => .pure hv

theorem thenBy_external {key : SortKey} {e : CompileError} {u : Stage}
    (h : Stage.thenBy key st = (.error e, u)) : e.isInternal = false := by
  rw [thenBy_eq] at h
  split at h <;> cases h
  rfl

theorem addLimit_external {c : Count} {e : CompileError} {u : Stage}
    (h : Stage.addLimit c st = (.error e, u)) : e.isInternal = false := by
  rw [addLimit_eq] at h
  split at h
  · cases h
  · rename_i he
    cases h
    obtain ⟨rfl, -⟩ := Count.min?_combines.eq_error he
    rfl

theorem addTop_external {c : Count} {e : CompileError} {u : Stage}
    (h : Stage.addTop c st = (.error e, u)) : e.isInternal = false := by
  rw [addTop_eq] at h
  split at h
  · exact addLimit_external h
  split at h
  · cases h
  · rename_i he
    cases h
    obtain ⟨rfl, -⟩ := Count.min?_combines.eq_error he
    rfl

theorem addOffset_external {c : Count} {e : CompileError} {u : Stage}
    (h : Stage.addOffset c st = (.error e, u)) : e.isInternal = false := by
  rw [addOffset_eq] at h
  split at h
  · cases h
  · rename_i he
    cases h
    obtain ⟨rfl, -⟩ := Count.sum?_combines.eq_error he
    rfl

variable (h : ∀ d, sizeOf d < sizeOf rest → I.ScalarKeeps env d) (hs : I.Scopes s) (ho : Outer s)
  (hst : I.Built s st) (hr : st.Ready method n)

include h hs ho hst

/-- Filters by the lambda of an operator, if it has one. -/
theorem filtered {α : Type} {f : Stage → Compilation α} {Q : Scope → α → Prop} (hu : st.Unbounded)
    (hf : ∀ t u, s.Grows t → I.Built t u → u.Unbounded →
      u.layer.selection = st.layer.selection → (f u).Ensures t Q) :
    (if rest.isEmpty = true then do
        let stage ← pure st
        f stage
      else do
        let (filter, stage) ← Compilation.selected env method rest st
        let stage ← pure (stage.addWhere filter)
        f stage : Compilation α).Ensures s Q := by
  split
  · exact hf s st (.refl s) hst hu rfl
  · refine .bind (selected h hs ho hst) fun t p ht hp => ?_
    obtain ⟨test, st⟩ := p
    obtain ⟨htest, rfl⟩ := hp
    exact hf t _ ht (.filter (built_knows ht.knows hst) hu htest) ⟨hu.top, hu.offset⟩ rfl

include hr

theorem counted (hm : method = "Count" ∨ method = "Any") :
    (Compilation.apply env method rest st).Ensures s (I.Ended (s.methods.length = 1)) := by
  have hu : st.Unbounded := hr.unbounded (by rcases hm with rfl | rfl <;> decide)
  have hsel : st.layer.selection = none :=
    hr.selection (by rcases hm with rfl | rfl <;> decide)
  rw [apply_counted _ _ hm]
  split
  · exact .throw rfl
  refine .bind (.requireLast (Q := fun t _ => s.methods.length = 1) id) fun t _ ht hlast => ?_
  refine filtered h (hs.grows ht) (ho.grows ht) (built_knows ht.knows hst) hu
    fun u x _ hx hu hsame => .get_bind ?_
  rw [hsel] at hsame
  split
  · exact .pure (.middle hx)
  dsimp only
  split
  · exact editAggregate hx hu hsame hlast .any
  · exact editAggregate hx hu hsame hlast .count

theorem aggregated (hm : method ∉ plainOperators) :
    (Compilation.apply env method rest st).Ensures s (I.Ended (s.methods.length = 1)) := by
  rw [apply_aggregate _ _ hm]
  split
  · exact .throw rfl
  rename_i function hf
  have hmem : method ∈ ["Sum", "Min", "Max", "Average"] := by
    unfold aggregate? at hf
    split at hf <;> first | decide | cases hf
  have hu : st.Unbounded := hr.unbounded (by
    rintro hskip
    revert hmem hskip
    simp only [List.mem_cons, allowedAfterSkip, List.not_mem_nil, or_false]
    rintro (rfl | rfl | rfl | rfl) <;> decide)
  have hsel : st.layer.selection = none := hr.selection (by
    revert hmem
    simp only [List.mem_cons, List.not_mem_nil, or_false]
    rintro (rfl | rfl | rfl | rfl) <;> decide)
  by_cases hl : 1 < rest.length
  · rw [if_pos hl]
    exact .throw rfl
  rw [if_neg hl]
  refine .bind (.requireLast (Q := fun t _ => s.methods.length = 1) id) fun t _ ht hlast => ?_
  replace hst := built_knows ht.knows hst
  split
  · exact editAggregate hst hu hsel hlast (.of hf (built_row hst))
  · refine .bind (selected h (hs.grows ht) (ho.grows ht) hst) fun u p htu hp => ?_
    obtain ⟨operand, st⟩ := p
    obtain ⟨hop, rfl⟩ := hp
    exact editAggregate (built_knows htu.knows hst) hu hsel hlast (.of hf hop)

omit hr

/-- Joining an array of each row. -/
theorem joinedBy (hu : st.Unbounded) (hsel : st.layer.selection = none) :
    (Compilation.apply env "SelectMany" rest st).Ensures s I.Built := by
  by_cases hrest : ∃ arg, rest = [arg]
  · obtain ⟨arg, rfl⟩ := hrest
    rw [Compilation.apply.eq_3]
    refine .bind (.ofExcept (Q := fun _ _ => True) (fun _ _ => trivial)
      fun _ => selector?_external) fun t l ht _ => ?_
    have hlt := l.smaller
    replace hst := built_knows ht.knows hst
    obtain ⟨name, cs, hc⟩ := ho.grows ht
    refine .withRow_outer hc (joined h l.body ?_
      ((hs.grows ht).bindTo (built_row hst) l.param) ⟨name, cs, hc⟩ (built_same hst rfl rfl rfl)
        hu hsel) fun u x _ hx => built_same hx.built rfl rfl rfl
    simp only [List.cons.sizeOf_spec]
    omega
  · rw [Compilation.apply.eq_4 _ _ _ fun arg ha => hrest ⟨arg, ha⟩]
    exact .throw rfl

include hr

/-- **Every operator builds stages from stages.** -/
theorem apply : (Compilation.apply env method rest st).Ensures s
    (I.Ended (s.methods.length = 1)) := by
  have hsel : ∀ m, (Compilation.selected env m rest st).Ensures s
      fun t p => I.holds t p.1 ∧ p.2 = st := fun m => selected h hs ho hst
  by_cases hw : method = "Where"
  · subst hw
    rw [Compilation.apply.eq_1]
    refine .bind (hsel _) fun t p ht hp => .pure (.middle ?_)
    obtain ⟨a, st⟩ := p
    obtain ⟨ha, rfl⟩ := hp
    exact .filter (built_knows ht.knows hst) (hr.unbounded (by decide)) ha
  by_cases hse : method = "Select"
  · subst hse
    rw [Compilation.apply.eq_2]
    refine .bind (hsel _) fun t p ht hp => ?_
    obtain ⟨a, st⟩ := p
    obtain ⟨ha, rfl⟩ := hp
    have hnone := hr.selection (by decide)
    exact editSelect hnone (.middle (.select (built_knows ht.knows hst) hnone ha))
  by_cases hsm : method = "SelectMany"
  · subst hsm
    exact (joinedBy h hs ho hst (hr.unbounded (by decide)) (hr.selection (by decide))).imp
      fun _ _ _ hu => .middle hu
  by_cases hob : method = "OrderBy"
  · subst hob
    rw [Compilation.apply.eq_5]
    refine .bind (hsel _) fun t p ht hp => .pure (.middle ?_)
    obtain ⟨a, st⟩ := p
    obtain ⟨ha, rfl⟩ := hp
    exact .orderBy (built_knows ht.knows hst) (hr.unbounded (by decide)) ha
  by_cases hod : method = "OrderByDescending"
  · subst hod
    rw [Compilation.apply.eq_6]
    refine .bind (hsel _) fun t p ht hp => .pure (.middle ?_)
    obtain ⟨a, st⟩ := p
    obtain ⟨ha, rfl⟩ := hp
    exact .orderBy (built_knows ht.knows hst) (hr.unbounded (by decide)) ha
  by_cases htb : method = "ThenBy"
  · subst htb
    rw [Compilation.apply.eq_7]
    refine .bind (hsel _) fun t p ht hp => ?_
    obtain ⟨a, st⟩ := p
    obtain ⟨ha, rfl⟩ := hp
    exact .edit (fun u hu => .middle (.thenBy (built_knows ht.knows hst)
      (hr.unbounded (by decide)) ha hu)) fun e u he => thenBy_external he
  by_cases htd : method = "ThenByDescending"
  · subst htd
    rw [Compilation.apply.eq_8]
    refine .bind (hsel _) fun t p ht hp => ?_
    obtain ⟨a, st⟩ := p
    obtain ⟨ha, rfl⟩ := hp
    exact .edit (fun u hu => .middle (.thenBy (built_knows ht.knows hst)
      (hr.unbounded (by decide)) ha hu)) fun e u he => thenBy_external he
  by_cases hta : method = "Take"
  · subst hta
    by_cases hrest : ∃ arg, rest = [arg]
    · obtain ⟨arg, rfl⟩ := hrest
      rw [Compilation.apply.eq_9]
      exact .bind (I.counts _ _ _ s) fun t c ht hc => .edit
        (fun u hu => .middle (.top (built_knows ht.knows hst) hc hu)) fun e u he =>
          addTop_external he
    · rw [Compilation.apply.eq_10 _ _ _ fun arg ha => hrest ⟨arg, ha⟩]
      exact .throw rfl
  by_cases hsk : method = "Skip"
  · subst hsk
    by_cases hrest : ∃ arg, rest = [arg]
    · obtain ⟨arg, rfl⟩ := hrest
      rw [Compilation.apply.eq_11]
      exact .bind (I.counts _ _ _ s) fun t c ht hc => .edit
        (fun u hu => .middle (.offset (built_knows ht.knows hst) (hr.hasTop (by decide)) hc hu))
          fun e u he => addOffset_external he
    · rw [Compilation.apply.eq_12 _ _ _ fun arg ha => hrest ⟨arg, ha⟩]
      exact .throw rfl
  by_cases hdi : method = "Distinct"
  · subst hdi
    rw [Compilation.apply.eq_13]
    split
    · exact .pure (.middle (.distinct hst (hr.unbounded (by decide))))
    · exact .throw rfl
  by_cases hca : method = "Count" ∨ method = "Any"
  · exact counted h hs ho hst hr hca
  by_cases hf : method = "FirstOrDefault"
  · subst hf
    rw [apply_first]
    split
    · refine .bind (.requireLast (Q := fun _ _ => True) fun _ => trivial) fun t _ ht _ => ?_
      refine .bind (.edit (Q := I.Ended (s.methods.length = 1)) (fun u hu => .middle (.top
        (built_knows ht.knows hst) (I.literal_count (by decide)) hu)) fun e u he =>
          addTop_external he) fun u x _ hx => ?_
      exact .bind (.setOperation (Q := fun t _ => I.Ended (s.methods.length = 1) t x) fun t ht =>
        ended_knows ht.knows hx) fun v _ _ hv => .pure hv
    · exact .throw rfl
  by_cases hg : method = "GroupBy"
  · subst hg
    rw [Compilation.apply.eq_17]
    exact groupedBy h hs ho hst hr
  refine aggregated h hs ho hst hr fun hmem => ?_
  simp_all [plainOperators]

end

/-! ## Chains -/

/-- A layer for an operator that needs one. -/
theorem layered {method : String} {n : Nat} (hst : I.Built s st)
    (hc : checkOrder st method = .ok ()) : (Compilation.layered st method n).Ensures s
      fun t u => I.Built t u ∧ u.Ready method n := by
  unfold Compilation.layered
  split
  · refine .bind (.fresh (Q := fun _ _ => True) trivial) fun t name ht _ => ?_
    exact .pure ⟨.package name (built_knows ht.knows hst), .package hc name⟩
  · rename_i hl
    exact .pure ⟨hst, .of_checkOrder hc (Bool.eq_false_iff.mpr hl)⟩

theorem checkOrder_external {method : String} {e : CompileError}
    (h : checkOrder st method = .error e) : e.isInternal = false := by
  unfold checkOrder at h
  split at h
  · cases h
    rfl
  split at h
  · cases h
    rfl
  split at h <;> cases h
  rfl

theorem OperatorKeeps.of_parts {method : String} {args : List Expr}
    (h : ∀ d, sizeOf d < sizeOf args → I.ScalarKeeps env d)
    (hrows : ∀ d, sizeOf d < sizeOf args → I.RowsKeeps env d) :
    I.OperatorKeeps env method args := by
  intro s hs hne
  cases args with
  | nil =>
    rw [Compilation.operator]
    exact .throw rfl
  | cons source rest =>
    rw [Compilation.operator]
    refine .bind (hrows source (List.sizeOf_lt_of_mem List.mem_cons_self) s hs)
      fun t st ht hst => ?_
    refine .bind (.ofExcept (Q := fun _ _ => checkOrder st method = .ok ())
      (fun a ha => ha) fun e he => checkOrder_external he) fun u _ htu hcheck => ?_
    have hbuilt : I.Built u st := built_knows htu.knows
      (hst.built hne (checkOrder_eq_ok.mp hcheck).1)
    refine .bind (layered hbuilt hcheck) fun v x huv hx => ?_
    replace ht := (ht.trans htu).trans huv
    have hin : I.Scopes (v.pushCollection (.outer x.layer.name)) :=
      (hs.grows ht).knows (.same rfl rfl rfl) rfl
    refine .withCollection (apply (fun d hd => h d (by simp only [List.cons.sizeOf_spec]; omega))
      hin
      ⟨_, _, rfl⟩ (built_same hx.1 rfl rfl rfl) hx.2) fun w y _ hy => ?_
    rw [← ht.methods]
    exact ended_same hy id rfl rfl rfl

/-- The items of the array that a nested query starts from. -/
theorem items {e : Expr} {last : Prop} (he : I.ScalarKeeps env e) (hs : I.Scopes s) :
    (do
      let path ← Compilation.scalar env e
      return Stage.overItems (← Compilation.fresh "v") path : Compilation Stage).Ensures s
        (I.Ended last) := by
  refine .bind (he s hs) fun t path _ hpath => ?_
  refine .bind (.fresh (Q := fun _ _ => True) trivial) fun u n hu _ => .pure (.middle ?_)
  exact .overItems n (I.mono hu.knows hpath)

theorem RowsKeeps.of_parts {e : Expr} (he : I.ScalarKeeps env e)
    (hop : ∀ method args, sizeOf args < sizeOf e → I.OperatorKeeps env method args) :
    I.RowsKeeps env e := by
  intro s hs
  rw [Compilation.rows.eq_def]
  split
  · rename_i target method args ty
    split
    · have hsize : sizeOf args < sizeOf (Expr.call target method args ty) := by
        simp only [Expr.call.sizeOf_spec]
        omega
      refine .withMethod (hop method.name args hsize _ (hs.knows (.same rfl rfl rfl) rfl)
        (List.cons_ne_nil _ _)) fun t st _ hst => ended_same hst (fun hl => ?_) rfl rfl rfl
      exact List.length_eq_zero_iff.mp (Nat.succ.inj hl)
    · refine .get_bind ?_
      split
      · exact items he hs
      · exact .throw rfl
  · refine .get_bind ?_
    split
    · exact items he hs
    · split
      · exact .pure (.middle .root)
      · exact .throw rfl

/-- **Scalars and chains keep every invariant**: the parts of an expression are smaller, and so are
the chains in it. -/
theorem keeps (e : Expr) : I.ScalarKeeps env e ∧ I.RowsKeeps env e := by
  induction hn : sizeOf e using Nat.strongRecOn generalizing e with
  | ind n ih =>
    subst hn
    have hop : ∀ method args, sizeOf args < sizeOf e → I.OperatorKeeps env method args :=
      fun method args hargs => .of_parts (fun d hd => (ih _ (Nat.lt_trans hd hargs) d rfl).1)
        fun d hd => (ih _ (Nat.lt_trans hd hargs) d rfl).2
    have he : I.ScalarKeeps env e := .of_parts e (fun d hd => (ih _ hd d rfl).1) hop
    exact ⟨he, .of_parts he hop⟩

theorem scalar (e : Expr) (hs : I.Scopes s) : (Compilation.scalar env e).Ensures s I.holds :=
  (keeps e).1 s hs

theorem rows (e : Expr) (hs : I.Scopes s) :
    (Compilation.rows env e).Ensures s (I.Ended (s.methods = [])) := (keeps e).2 s hs

theorem nestedRows (method : String) (args : List Expr) (hs : I.Scopes s) :
    (Compilation.nested (Compilation.withMethod method
      (Compilation.operator env method args))).Ensures s (I.Ended True) :=
  nestedStage (.of_parts (fun d _ => (keeps d).1) fun d _ => (keeps d).2) hs

end LambdaQuery.Invariant
