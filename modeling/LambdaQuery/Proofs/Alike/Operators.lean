import LambdaQuery.Proofs.Alike.Expressions
import LambdaQuery.Proofs.Operators

/-!
# Two runs of operators

Lambdas range over the rows of a stage (`Runs.overRows`) or over the items of an array, which the
stage then iterates (`Runs.overItems`). With them every operator changes alike stages into alike
stages (`Runs.apply`).
-/

set_option autoImplicit false

namespace LambdaQuery.Setting

open Compilation

/-- Lambdas range over the rows of the stage. -/
def Outer (s s' : Scope) : Prop :=
  (∃ name cs, s.collections = .outer name :: cs) ∧ ∃ name cs, s'.collections = .outer name :: cs

variable {κ : Setting} {F G : Frame} {s s' t t' : Scope} {st st' : Stage} {final : Prop}

theorem Staged.imp {final' : Prop} (h : κ.Staged F t t' final st st') (hf : final → final') :
    κ.Staged F t t' final' st st' :=
  ⟨h.alike, h.left, h.right, h.row, fun hg hn hgb => h.single hg (fun hf' => hn (hf hf')) hgb⟩

/-! ## Parameters of lambdas -/

namespace Runs

variable {α β : Type} {act : Stage → Compilation α} {act' : Stage → Compilation β}
  {P Q : Scope → Scope → α → β → Prop}

/-- A parameter that stands for the rows. -/
theorem withRow_outer {name name' : String} (ho : Outer s s')
    (h : κ.Runs (s.bindTo name st.layer.row) (s'.bindTo name' st'.layer.row) (act st) (act' st') P)
    (hp : ∀ t t' a b, P t t' a b →
      Q { t with bindings := s.bindings } { t' with bindings := s'.bindings } a b) :
    κ.Runs s s' (withRow name st act) (withRow name' st' act') Q := by
  obtain ⟨⟨n, cs, hc⟩, m, cs', hc'⟩ := ho
  have hbind : ∀ {s : Scope} {n cs} (name : String) (st : Stage), s.collections = .outer n :: cs →
      s.bind name st = (st.layer.row, s.bindTo name st.layer.row, st) := by
    intro s n cs name st hc
    unfold Scope.bind
    rw [hc]
  have hrow : ∀ {α : Type} {s : Scope} {n cs} (name : String) (st : Stage)
      (act : Stage → Compilation α), s.collections = .outer n :: cs →
        withRow name st act s = Compilation.withParameter name st.layer.row (act st) s := by
    intro α s n cs name st act hc
    unfold withRow
    rw [hbind name st hc]
    rfl
  exact (Runs.withParameter _ _ h hp).congr (hrow name st act hc) (hrow name' st' act' hc')

/-- A parameter that stands for the items of an array. -/
theorem withRow_inner {name name' : String} (hn : κ.named → name = name') {a a' : Scalar}
    {cs cs' : List Collection} (hc : s.collections = .inner a :: cs)
    (hc' : s'.collections = .inner a' :: cs')
    (h : κ.Runs ((s.fresh name).2.bindTo name (.ref (s.fresh name).1))
      ((s'.fresh name').2.bindTo name' (.ref (s'.fresh name').1))
      (act (st.addJoin (s.fresh name).1 a)) (act' (st'.addJoin (s'.fresh name').1 a')) P)
    (hp : ∀ t t' a b, P t t' a b →
      Q { t with bindings := s.bindings } { t' with bindings := s'.bindings } a b) :
    κ.Runs s s' (withRow name st act) (withRow name' st' act') Q := by
  have hbind : ∀ {s : Scope} {a cs} (name : String) (st : Stage), s.collections = .inner a :: cs →
      s.bind name st = (.ref (s.fresh name).1, (s.fresh name).2.bindTo name (.ref (s.fresh name).1),
        st.addJoin (s.fresh name).1 a) := by
    intro s a cs name st hc
    unfold Scope.bind
    rw [hc]
  have hrow : ∀ {α : Type} {s : Scope} {a cs} (name : String) (st : Stage)
      (act : Stage → Compilation α), s.collections = .inner a :: cs →
        withRow name st act s =
          Compilation.within (fun s => (s.fresh name).2.bindTo name (.ref (s.fresh name).1))
            (fun _ t => t.unbind) (act (st.addJoin (s.fresh name).1 a)) s := by
    intro α s a cs name st act hc
    unfold withRow
    rw [hbind name st hc]
    rfl
  refine (Runs.within h fun t t' hs => ?_).congr (hrow name st act hc) (hrow name' st' act' hc')
  have hf : κ.Step s s' (s.fresh name).2 (s'.fresh name').2 := κ.step_fresh hn
  rw [hs.left.unbind, hs.right.unbind, hf.left.bindings, hf.right.bindings]
  exact ⟨hf.trans ⟨{ hs.left with bindings := hf.left.bindings.symm },
    { hs.right with bindings := hf.right.bindings.symm }, hs.named, hs.reported⟩, hp t t'⟩

end Runs

/-! ## Lambdas over stages -/

variable (κ) in
/-- Stages that lambdas may range over: no aggregate is selected, and nothing is grouped. -/
structure Open (F : Frame) (t t' : Scope) (st st' : Stage) : Prop
    extends κ.Staged F t t' False st st' where
  ungrouped : st'.layer.hasGroupBy = false

theorem Open.step (h : κ.Open F s s' st st') (hs : κ.Step s s' t t') : κ.Open F t t' st st' :=
  ⟨h.toStaged.step hs, h.ungrouped⟩

theorem Open.row_single (h : κ.Open F t t' st st') :
    t'.group = none → st'.layer.row.isAggregate = false :=
  fun hg => h.single hg id h.ungrouped

/-- A clause that is no aggregate outside of groups, and the stage that it may enter. -/
structure Produced (κ : Setting) (F G : Frame) (t t' : Scope) (p q : Scalar × Stage) : Prop where
  clause : κ.Clause F t t' p.2 q.2 p.1 q.1
  single : t'.group = none → q.1.isAggregate = false
  stage : κ.Open F t t' p.2 q.2
  sees : κ.Sees F G t t' p.2 q.2

theorem Unbound.step (h : Unbound s s') (hs : κ.Step s s' t t') : Unbound t t' :=
  ⟨hs.left.bindings.trans h.left, hs.right.bindings.trans h.right⟩

theorem Outer.step (h : Outer s s') (hs : κ.Step s s' t t') : Outer t t' := by
  unfold Outer
  rw [hs.left.collections, hs.right.collections]
  exact h

namespace Runs

variable {body body' : Expr} {name name' : String}

/-- A lambda over the rows of a stage. -/
theorem overRows (hn : κ.exact → name = name') (hF : F.Within s s') (hs : κ.Scopes G s s')
    (hsees : κ.Sees F G s s' st st') (ho : Outer s s') (hst : κ.Open F s s' st st')
    (hbody : κ.ScalarRuns body) (hr : body.Renamed κ.exact (G.binders.bind name name') body')
    (hadm : κ.admits body) :
    κ.Runs s s' (withRow name st fun stage => return (← scalar κ.left body, stage))
      (withRow name' st' fun stage => return (← scalar κ.right body', stage))
        fun t t' p q => p.2 = st ∧ q.2 = st' ∧ Produced κ F G t t' p q := by
  have hrow := hst.rowClause
  have hin := hs.bindTo hrow.toSeen hst.row_single hn
  let H := (G.bind st.layer.row st'.layer.row).reserved s s'
  have hrun : κ.Runs s s' (withRow name st fun stage => return (← scalar κ.left body, stage))
      (withRow name' st' fun stage => return (← scalar κ.right body', stage))
        fun t t' p q => p.2 = st ∧ q.2 = st' ∧ κ.Outcome H t t' p.1 q.1 := by
    refine withRow_outer ho (.bind (hbody hr hadm hin) fun t t' a b _ hab =>
      .pure (P := fun t t' (p q : Scalar × Stage) => p.2 = st ∧ q.2 = st' ∧
        κ.Outcome H t t' p.1 q.1) ⟨rfl, rfl, hab.leave⟩) ?_
    rintro t t' p q ⟨hp, hq, hab⟩
    exact ⟨hp, hq, ⟨hab.facts, hab.left, hab.right⟩, hab.single, hab.alike⟩
  refine hrun.imp ?_
  rintro t t' ⟨a, st⟩ ⟨b, st'⟩ hstep ⟨rfl, rfl, hab⟩
  exact ⟨rfl, rfl, hab.clause hF hst.toStaged (hsees.bind hrow) hstep, hab.single, hst.step hstep,
    hsees.step hstep⟩

/-- A lambda over the items of an array, which the stage then iterates. -/
theorem overItems (hn : κ.exact → name = name') {a a' : Scalar} {cs cs' : List Collection}
    (hc : s.collections = .inner a :: cs) (hc' : s'.collections = .inner a' :: cs')
    (hF : F.Within s s') (hs : κ.Scopes G s s') (hsees : κ.Sees F G s s' st st')
    (hst : κ.Open F s s' st st') (hpath : κ.Clause F s s' st st' a a') (hbody : κ.ScalarRuns body)
    (hr : body.Renamed κ.exact (G.binders.bind name name') body') (hadm : κ.admits body) :
    κ.Runs s s' (withRow name st fun stage => return (← scalar κ.left body, stage))
      (withRow name' st' fun stage => return (← scalar κ.right body', stage))
        (Produced κ F G) := by
  have hbase : κ.named → name = name' := fun h => hn (κ.named_exact h)
  have hstep : κ.Step s s' (s.fresh name).2 (s'.fresh name').2 := κ.step_fresh hbase
  have hfresh := fresh_fresh hs hbase
  have hjoined : κ.Open F (s.fresh name).2 (s'.fresh name').2 (st.addJoin (s.fresh name).1 a)
      (st'.addJoin (s'.fresh name').1 a') :=
    ⟨hst.toStaged.addJoin hstep hpath hfresh hF, hst.ungrouped⟩
  have hitem : κ.Clause F (s.fresh name).2 (s'.fresh name').2 (st.addJoin (s.fresh name).1 a)
      (st'.addJoin (s'.fresh name').1 a') (.ref (s.fresh name).1) (.ref (s'.fresh name').1) :=
    .item hst.toStaged hfresh
  have hsees' : κ.Sees F G (s.fresh name).2 (s'.fresh name').2 (st.addJoin (s.fresh name).1 a)
      (st'.addJoin (s'.fresh name').1 a') := hsees.addJoin hst.toStaged hstep hfresh
  have hin := (hs.step hstep).bindTo hitem.toSeen (fun _ => rfl) hn
  let H := (G.bind (.ref (s.fresh name).1) (.ref (s'.fresh name').1)).reserved (s.fresh name).2
    (s'.fresh name').2
  -- The step from the fresh names on is what `Outcome.clause` asks for.
  have hrun : κ.Runs s s' (withRow name st fun stage => return (← scalar κ.left body, stage))
      (withRow name' st' fun stage => return (← scalar κ.right body', stage))
        fun t t' p q => p.2 = st.addJoin (s.fresh name).1 a ∧
          q.2 = st'.addJoin (s'.fresh name').1 a' ∧ κ.Outcome H t t' p.1 q.1 ∧
            κ.Step (s.fresh name).2 (s'.fresh name').2 t t' := by
    refine withRow_inner hbase hc hc' (.bind (hbody hr hadm hin) fun t t' a b hst hab =>
      .pure (P := fun t t' (p q : Scalar × Stage) => p.2 = _ ∧ q.2 = _ ∧
        κ.Outcome H t t' p.1 q.1 ∧ κ.Step
        ((s.fresh name).2.bindTo name (.ref (s.fresh name).1))
        ((s'.fresh name').2.bindTo name' (.ref (s'.fresh name').1)) t t') ⟨rfl, rfl, hab.leave,
          hst⟩) ?_
    rintro t t' p q ⟨hp, hq, hab, hst⟩
    refine ⟨hp, hq, ⟨⟨hab.facts, hab.left, hab.right⟩, hab.single, hab.alike⟩, ?_⟩
    exact ⟨{ hst.left with bindings := by rw [Scope.fresh_eq] },
      { hst.right with bindings := by rw [Scope.fresh_eq] }, hst.named, hst.reported⟩
  refine hrun.imp ?_
  rintro t t' ⟨b, stage⟩ ⟨b', stage'⟩ - ⟨rfl, rfl, hab, hst⟩
  exact ⟨hab.clause (within_step hF hstep) hjoined.toStaged (hsees'.bind hitem) hst, hab.single,
    hjoined.step hst, hsees'.step hst⟩

end Runs

/-! ## Operators -/

variable (κ) in
/-- Stages that lambdas may range over and that the frame may enter. -/
structure Reached (F G : Frame) (t t' : Scope) (st st' : Stage) : Prop
    extends κ.Open F t t' st st' where
  sees : κ.Sees F G t t' st st'

theorem Reached.step (h : κ.Reached F G s s' st st') (hs : κ.Step s s' t t') :
    κ.Reached F G t t' st st' := ⟨h.toOpen.step hs, h.sees.step hs⟩

/-- A frame still sees into stages of which neither the sources nor the layers below have
changed. -/
theorem Sees.mapLayer {f f' : Layer → Layer} (h : κ.Sees F G t t' st st')
    (hc : (f st.layer).context (f' st'.layer) = st.layer.context st'.layer) :
    κ.Sees F G t t' (st.mapLayer f) (st'.mapLayer f') :=
  fun p hp => (h p hp).imp_right fun hclause => hclause.mapLayer hc

theorem Produced.addWhere {p q : Scalar × Stage} (h : Produced κ F G t t' p q) :
    κ.Reached F G t t' (p.2.addWhere p.1) (q.2.addWhere q.1) :=
  ⟨⟨h.stage.addWhere h.clause, h.stage.ungrouped⟩, h.sees.mapLayer rfl⟩

theorem Produced.replaceSelect {p q : Scalar × Stage} (h : Produced κ F G t t' p q) :
    κ.Reached F G t t' (p.2.replaceSelect p.1) (q.2.replaceSelect q.1) :=
  ⟨⟨h.stage.replaceSelect h.clause h.single, h.stage.ungrouped⟩, h.sees.mapLayer rfl⟩

/-- Scopes that differ from `t` and `t'` only in what is around the point. -/
structure Beside (t t' u u' : Scope) : Prop where
  left : u.live = t.live
  right : u'.names = t'.names
  parameters : u'.parameters = t'.parameters
  group : u'.group = t'.group

section

variable {u u' : Scope}

theorem Clause.beside {a b : Scalar} (h : κ.Clause F t t' st st' a b) (hu : Beside t t' u u') :
    κ.Clause F u u' st st' a b where
  facts := h.facts
  left := by
    rw [hu.left]
    exact h.left
  right := by
    rw [hu.right]
    exact h.right
  alike := by
    rw [hu.parameters]
    exact h.alike

theorem Staged.beside (h : κ.Staged F t t' final st st') (hu : Beside t t' u u') :
    κ.Staged F u u' final st st' where
  alike := by
    rw [hu.parameters]
    exact h.alike
  left := by
    rw [hu.left]
    exact h.left
  right := by
    rw [hu.right]
    exact h.right
  row := h.row
  single := by
    rw [hu.group]
    exact h.single

theorem Open.beside (h : κ.Open F t t' st st') (hu : Beside t t' u u') :
    κ.Open F u u' st st' :=
  ⟨h.toStaged.beside hu, h.ungrouped⟩

theorem Sees.beside (h : κ.Sees F G t t' st st') (hu : Beside t t' u u') :
    κ.Sees F G u u' st st' :=
  fun p hp => (h p hp).imp_right fun hc => hc.beside hu

theorem Reached.beside (h : κ.Reached F G t t' st st') (hu : Beside t t' u u') :
    κ.Reached F G u u' st st' :=
  ⟨h.toOpen.beside hu, h.sees.beside hu⟩

theorem Produced.beside {p q : Scalar × Stage} (h : Produced κ F G t t' p q)
    (hu : Beside t t' u u') : Produced κ F G u u' p q where
  clause := h.clause.beside hu
  single := by
    rw [hu.group]
    exact h.single
  stage := h.stage.beside hu
  sees := h.sees.beside hu

end

namespace Runs

theorem selected {method : String} {rest rest' : List Expr}
    (h : ∀ d, sizeOf d < sizeOf rest → κ.ScalarRuns d)
    (hr : List.Forall₂ (Expr.Renamed κ.exact F.binders) rest rest') (hes : ∀ e ∈ rest, κ.admits e)
    (hs : κ.Scopes F s s') (ho : Outer s s') (hst : κ.Open F s s' st st') :
    κ.Runs s s' (selected κ.left method rest st) (selected κ.right method rest' st')
      fun t t' p q => p.2 = st ∧ q.2 = st' ∧ Produced κ F F t t' p q := by
  rcases hr with _ | @⟨arg, arg', _, _, ha, _ | _⟩
  · rw [Compilation.selected, Compilation.selected]
    · exact .throw _ _
    · rintro _ ⟨⟩
    · rintro _ ⟨⟩
  · rw [Compilation.selected, Compilation.selected]
    refine .bind (.selector ha method) fun t t' l l' hstep hlambda => ?_
    obtain ⟨hname, hbody, hl⟩ := hlambda
    have hs := hs.step hstep
    exact overRows hname hs.within hs (.refl F t t' st st') (ho.step hstep) (hst.step hstep)
      (h l.body (Nat.lt_trans l.smaller (List.sizeOf_lt_of_mem (List.mem_singleton_self _)))) hbody
      (admits_selector (hes _ (List.mem_singleton_self _)) hl)
  · rw [Compilation.selected, Compilation.selected]
    · exact .throw _ _
    · rintro _ ⟨⟩
    · rintro _ ⟨⟩

/-- Joining the array of an expression. -/
theorem joinedPath {e e' : Expr} (hF : F.Within s s') (hs : κ.Scopes G s s')
    (hst : κ.Reached F G s s' st st') (he : κ.ScalarRuns e)
    (hr : e.Renamed κ.exact G.binders e') (hadm : κ.admits e) :
    κ.Runs s s'
      (do
        let path ← scalar κ.left e
        return st.addJoin (← Compilation.fresh "v") path)
      (do
        let path ← scalar κ.right e'
        return st'.addJoin (← Compilation.fresh "v") path) (κ.Reached F G) := by
  refine .bind (he (F := G.reserved s s') hr hadm hs.reserved) fun t t' a a' hstep hab => ?_
  have hclause := hab.clause hF hst.toStaged hst.sees hstep
  have hst := hst.step hstep
  refine .bind (.fresh (hs.step hstep) "v") fun u u' n m hsu hfresh => ?_
  exact .pure ⟨⟨hst.toStaged.addJoin hsu hclause hfresh (within_step hF hstep), hst.ungrouped⟩,
    hst.sees.addJoin hst.toStaged hsu hfresh⟩

/-- The chain of operators over an array that each row is joined with. -/
theorem joined {size : Nat} (h : ∀ d, sizeOf d < size → κ.ScalarRuns d) (e : Expr) {e' : Expr}
    (hsize : sizeOf e < size) (hr : e.Renamed κ.exact G.binders e') (hadm : κ.admits e)
    {s s' : Scope} {st st' : Stage} (hF : F.Within s s') (hs : κ.Scopes G s s') (ho : Outer s s')
    (hst : κ.Reached F G s s' st st') :
    κ.Runs s s' (joined κ.left e st) (joined κ.right e' st') (κ.Reached F G) := by
  by_cases hcall : ∃ target method args ty, e = .call target method args ty
  · obtain ⟨target, method, args, ty, rfl⟩ := hcall
    obtain ⟨target', args', rfl, -, hrargs⟩ := hr.call
    rw [Compilation.joined.eq_def, Compilation.joined.eq_def]
    dsimp only
    split
    · split
      · rcases hrargs with _ |
          @⟨source, source', _, _, hrsource, _ | @⟨arg, arg', _, _, hrarg, _ | _⟩⟩
        · exact .throw _ _
        · exact .throw _ _
        · have hsource : κ.admits source :=
            κ.admits_child hadm (List.mem_append_right _ List.mem_cons_self)
          have harg : κ.admits arg := κ.admits_child hadm
            (List.mem_append_right _ (List.mem_cons_of_mem _ List.mem_cons_self))
          have hsizes : sizeOf source < sizeOf (Expr.call target method [source, arg] ty) ∧
              sizeOf arg < sizeOf (Expr.call target method [source, arg] ty) := by
            simp only [Expr.call.sizeOf_spec, List.cons.sizeOf_spec]
            omega
          refine .bind (.selector hrarg _) fun t t' l l' hstep ⟨hname, hrbody, hl⟩ => ?_
          have hlt := l.smaller
          have hbody : κ.ScalarRuns l.body := h l.body (by omega)
          have hbodyAdm := admits_selector harg hl
          replace hF := within_step hF hstep
          replace hs := hs.step hstep
          replace ho := ho.step hstep
          replace hst := hst.step hstep
          -- What both branches give is filtered or projected in the same way.
          have hfinish : ∀ {u u' : Scope} {p q : Scalar × Stage}, Produced κ F G u u' p q →
              κ.Runs u u'
                (if (method.name == "Where") = true then pure (p.2.addWhere p.1)
                  else pure (p.2.replaceSelect p.1))
                (if (method.name == "Where") = true then pure (q.2.addWhere q.1)
                  else pure (q.2.replaceSelect q.1)) (κ.Reached F G) := by
            intro u u' p q hpq
            split
            · exact .pure hpq.addWhere
            · exact .pure hpq.replaceSelect
          rw [← hrsource.isOperatorCall]
          by_cases hop : isOperatorCall source = true
          · rw [if_pos hop, if_pos hop]
            refine .bind (joined h source (by omega) hrsource hsource hF hs ho hst)
              fun u u' v v' hsu hv => ?_
            refine .bind (overRows hname (within_step hF hsu) (hs.step hsu) hv.sees (ho.step hsu)
              hv.toOpen hbody hrbody hbodyAdm) fun w w' p q _ hpq => ?_
            exact hfinish hpq.2.2
          · rw [if_neg hop, if_neg hop]
            refine .bind (h source (by omega) (F := G.reserved t t') hrsource hsource hs.reserved)
              fun u u' a b hsu hab => ?_
            have hpath := hab.clause hF hst.toStaged hst.sees hsu
            replace hF := within_step hF hsu
            replace hs := hs.step hsu
            replace hst := hst.step hsu
            have hitems : κ.Runs (u.pushCollection (.inner a)) (u'.pushCollection (.inner b))
                (withRow l.param st fun stage => return (← scalar κ.left l.body, stage))
                (withRow l'.param st' fun stage => return (← scalar κ.right l'.body, stage))
                  (Produced κ F G) :=
              overItems hname rfl rfl ⟨hF.names, hF.left, hF.right⟩ (hs.pushCollection _ _)
                (hst.sees.beside ⟨rfl, rfl, rfl, rfl⟩) (hst.toOpen.beside ⟨rfl, rfl, rfl, rfl⟩)
                (hpath.beside ⟨rfl, rfl, rfl, rfl⟩) hbody hrbody hbodyAdm
            exact .bind (.withCollection _ _ hitems fun w w' p q hpq =>
              hpq.beside ⟨rfl, rfl, rfl, rfl⟩) fun w w' p q _ hpq => hfinish hpq
        · exact .throw _ _
      · exact .throw _ _
    · exact joinedPath hF hs hst (h _ hsize) hr hadm
  · have hcall' : ∀ target method args ty, e' ≠ .call target method args ty := by
      rintro target method args ty rfl
      have hk := hr.kind
      cases e <;> cases hk
      exact hcall ⟨_, _, _, _, rfl⟩
    have hpath : ∀ env {d : Expr} st, (∀ target method args ty, d ≠ .call target method args ty) →
        Compilation.joined env d st = (do
          let path ← scalar env d
          return st.addJoin (← Compilation.fresh "v") path) := by
      intro env d st hd
      rw [Compilation.joined.eq_def]
      cases d <;> first | rfl | exact absurd rfl (hd _ _ _ _)
    rw [hpath κ.left st fun target method args ty he => hcall ⟨target, method, args, ty, he⟩,
      hpath κ.right st' hcall']
    exact joinedPath hF hs hst (h _ hsize) hr hadm
termination_by sizeOf e

/-- Where the left side refuses an object and the right one does not, it may fail. -/
theorem refuseObject {a b : Scalar} {act act' : Compilation Stage} {e : CompileError}
    {P : Scope → Scope → Stage → Stage → Prop} (hab : κ.Facts a b) (h : κ.Runs s s' act act' P) :
    κ.Runs s s' (if isObject a = true then throw e else act)
      (if isObject b = true then throw e else act') P := by
  by_cases hb : isObject b = true
  · rw [if_pos hb]
    exact .throw _ _
  rw [if_neg hb]
  by_cases ha : isObject a = true
  · rw [if_pos ha]
    exact fun _ _ _ => .inr ⟨(hab.object ha).resolve_left hb, e, s, rfl⟩
  · rw [if_neg ha]
    exact h

theorem grouped {rest rest' : List Expr} (hbound : Unbound s s')
    (h : ∀ d, sizeOf d < sizeOf rest → κ.ScalarRuns d)
    (hren : List.Forall₂ (Expr.Renamed κ.exact F.binders) rest rest')
    (hes : ∀ e ∈ rest, κ.admits e) (hs : κ.Scopes F s s') (ho : Outer s s')
    (hst : κ.Open F s s' st st') :
    κ.Runs s s' (grouped κ.left rest st) (grouped κ.right rest' st')
      fun t t' => κ.Staged F t t' final := by
  rw [Compilation.grouped.eq_def, Compilation.grouped.eq_def]
  rcases hren with
    _ | @⟨keyArg, keyArg', _, _, hrkey, _ | @⟨resultArg, resultArg', _, _, hrresult, _ | _⟩⟩
  · exact .throw _ _
  · exact .throw _ _
  · dsimp only
    refine .bind (.selector hrkey _) fun t t' l l' hstep ⟨hname, hrbody, hl⟩ => ?_
    refine .bind (.resultSelector hrresult) fun u u' r r' hsu ⟨hnames, hrvalue, hr⟩ => ?_
    have hlt := l.smaller
    have hrt := r.smaller
    have hkey : κ.ScalarRuns l.body := h l.body (by simp only [List.cons.sizeOf_spec]; omega)
    have hresult : κ.ScalarRuns r.body := h r.body (by simp only [List.cons.sizeOf_spec]; omega)
    have hkeyAdm := admits_selector (hes _ List.mem_cons_self) hl
    have hresultAdm :=
      admits_resultSelector (hes _ (List.mem_cons_of_mem _ List.mem_cons_self)) hr
    replace hsu := hstep.trans hsu
    replace hs := hs.step hsu
    refine .bind (overRows hname hs.within hs (.refl F u u' st st') (ho.step hsu)
      (hst.step hsu) hkey hrbody hkeyAdm) fun v v' p q hsv hpq => ?_
    obtain ⟨a, st⟩ := p
    obtain ⟨b, st'⟩ := q
    obtain ⟨rfl, rfl, hpq⟩ := hpq
    replace hs := hs.step hsv
    refine refuseObject hpq.clause.facts ?_
    -- The rows and the key are what the result may be made of.
    have hrow := hpq.stage.rowClause
    replace hbound := hbound.step (hsu.trans hsv)
    let G := (F.bind st.layer.row st'.layer.row).bind a b
    have hsees : κ.Sees F G v v' st st' := ((Sees.refl F v v' st st').bind hrow).bind hpq.clause
    have hrows := hs.addPair hrow.toSeen hpq.stage.row_single
    have hin := (hrows.unbound hbound.left hbound.right fun he => (hnames he).2).bindTo
      hpq.clause.toSeen hpq.single fun he => (hnames he).1
    have hgroup := hin.setGroup (List.mem_cons_of_mem _ List.mem_cons_self) r.group r'.group
    have hvalue : κ.Runs v v'
        (Compilation.withParameter r.key a
          (Compilation.withGroup ⟨r.group, st.layer.row⟩ (scalar κ.left r.body)))
        (Compilation.withParameter r'.key b
          (Compilation.withGroup ⟨r'.group, st'.layer.row⟩ (scalar κ.right r'.body)))
        fun w w' c d => κ.Seen w w' c d ∧
          Scalar.Alike (κ.likeness w'.parameters (G.reserved v v')) [] c d :=
      .withParameter _ _ (.withGroup _ _ (hresult hrvalue hresultAdm hgroup)
        (Q := fun w w' c d => κ.Seen w w' c d ∧
          Scalar.Alike (κ.likeness w'.parameters (G.reserved v v')) [] c d)
        fun w w' c d hcd => ⟨⟨hcd.facts, hcd.left, hcd.right⟩, hcd.alike⟩)
        fun w w' c d hcd => ⟨⟨hcd.1.facts, hcd.1.left, hcd.1.right⟩, hcd.2⟩
    refine .bind hvalue fun w w' c d hsw hcd => ?_
    have hclause := hcd.1.clause hcd.2 hs.within hpq.stage.toStaged hsees hsw
    have hstaged := hpq.stage.toStaged.step hsw
    refine .bind (.edit (P := fun _ _ u u' => κ.Clause F w w' u u' c d ∧
      κ.Staged F w w' False u u' ∧ u'.layer.hasGroupBy = true) fun u' hu => ?_)
        fun x x' u u' hsx hu => ?_
    · obtain ⟨u, hleft, rfl, rfl, hstaged⟩ := hstaged.addGroupBy (hpq.clause.step hsw) hu
      exact ⟨_, hleft, hclause.mapLayer rfl, hstaged, rfl⟩
    · refine .edit fun x hx => (hu.2.1.step hsx).addSelect (hu.1.step hsx) (fun _ _ hgb => ?_) hx
      rw [hu.2.2] at hgb
      cases hgb
  · exact .throw _ _

end Runs

/-! ## Values that end a query -/

theorem Facts.refl {a : Scalar} (h : a.isLiteral = false) : κ.Facts a a :=
  .of_form rfl h h rfl rfl rfl

/-- A clause without names. -/
theorem Clause.closed {a : Scalar} (hn : a.names = []) (hl : a.isLiteral = false)
    (h : ∀ c Γ, Scalar.Alike c Γ a a) : κ.Clause F t t' st st' a a where
  facts := .refl hl
  left := by
    rw [hn]
    exact List.nil_subset _
  right := by
    rw [hn]
    exact List.nil_subset _
  alike := h _ _

theorem Clause.countAll : κ.Clause F t t' st st' countAll countAll :=
  .closed rfl rfl fun _ _ => .call _ _ (.cons (.literal _) .nil)

theorem Clause.anyRow :
    κ.Clause F t t' st st' (.binary .greaterThan Compilation.countAll (.integer 0))
      (.binary .greaterThan Compilation.countAll (.integer 0)) :=
  .closed rfl rfl fun _ _ => .binary _ (.call _ _ (.cons (.literal _) .nil)) (.literal _)

theorem Clause.builtin {a b : Scalar} (name : String) (h : κ.Clause F t t' st st' a b) :
    κ.Clause F t t' st st' (.builtin name [a]) (.builtin name [b]) where
  facts := .of_form rfl rfl rfl rfl rfl rfl
  left := List.append_subset.mpr ⟨h.left, List.nil_subset _⟩
  right := List.append_subset.mpr ⟨h.right, List.nil_subset _⟩
  alike := .call _ _ (.cons h.alike .nil)

namespace Runs

theorem isEmpty_eq {α : Type} {R : α → α → Prop} {as bs : List α} (h : List.Forall₂ R as bs) :
    as.isEmpty = bs.isEmpty := by
  cases h <;> rfl

/-- A change of the stage that ends the query. -/
theorem editLast {change change' : Stage.Edit Unit} (hs : κ.Scopes F s s')
    (h : ∀ u', change' st' = (.ok (), u') →
      ∃ u, change st = (.ok (), u) ∧ κ.Staged F s s' final u u') :
    κ.Runs s s'
      (do
        let stage ← Compilation.edit st change
        Compilation.setOperation .firstOrDefault
        return stage)
      (do
        let stage ← Compilation.edit st' change'
        Compilation.setOperation .firstOrDefault
        return stage)
      fun t t' => κ.Staged F t t' final := by
  refine .bind (.edit (P := fun _ _ => κ.Staged F s s' final) h) fun t t' u u' hst hu => ?_
  refine .bind (.setOperation (hs.step hst)) fun v v' _ _ hsv _ => ?_
  exact .pure (hu.step (hst.trans hsv))

section

variable {method : String} {rest rest' : List Expr}
  (h : ∀ d, sizeOf d < sizeOf rest → κ.ScalarRuns d)
  (hr : List.Forall₂ (Expr.Renamed κ.exact F.binders) rest rest') (hes : ∀ e ∈ rest, κ.admits e)
  (hs : κ.Scopes F s s') (hms : s.methods = s'.methods) (ho : Outer s s')
  (hst : κ.Open F s s' st st')

include h hr hes hs ho hst

/-- Filters by the lambda of an operator, if it has one. -/
theorem filtered {α β : Type} {f : Stage → Compilation α} {g : Stage → Compilation β}
    {P : Scope → Scope → α → β → Prop}
    (hf : ∀ t t' u u', κ.Step s s' t t' → κ.Open F t t' u u' → κ.Runs t t' (f u) (g u') P) :
    κ.Runs s s'
      (if rest.isEmpty = true then do
        let stage ← pure st
        f stage
      else do
        let (filter, stage) ← Compilation.selected κ.left method rest st
        let stage ← pure (stage.addWhere filter)
        f stage)
      (if rest'.isEmpty = true then do
        let stage ← pure st'
        g stage
      else do
        let (filter, stage) ← Compilation.selected κ.right method rest' st'
        let stage ← pure (stage.addWhere filter)
        g stage) P := by
  rw [← isEmpty_eq hr]
  by_cases hempty : rest.isEmpty = true
  · rw [if_pos hempty, if_pos hempty]
    exact hf s s' st st' (.refl κ s s') hst
  · rw [if_neg hempty, if_neg hempty]
    refine .bind (selected h hr hes hs ho hst) fun t t' p q hsu hpq => ?_
    exact hf t t' _ _ hsu hpq.2.2.addWhere.toOpen

include hms

theorem counted (hm : method = "Count" ∨ method = "Any") :
    κ.Runs s s' (apply κ.left method rest st) (apply κ.right method rest' st')
      fun t t' => κ.Staged F t t' (s'.methods.length = 1) := by
  rw [apply_counted _ _ hm, apply_counted κ.right _ hm, ← hr.length_eq]
  split
  · exact .throw _ _
  refine .bind (.requireLast hms method) fun t t' _ _ hsu hlast => ?_
  refine filtered h hr hes (hs.step hsu) (ho.step hsu) (hst.step hsu) fun u u' x x' hsv hx => ?_
  refine .get_bind ?_
  have hscopes := hs.step (hsu.trans hsv)
  have hdepth : u.inSubquery = u'.inSubquery := by
    rw [Scope.inSubquery, Scope.inSubquery, hscopes.depth]
  rw [hdepth]
  by_cases hany : (method == "Any" && u'.inSubquery) = true
  · rw [if_pos hany, if_pos hany]
    exact .pure (hx.toStaged.imp fun h => h.elim)
  rw [if_neg hany, if_neg hany]
  dsimp only
  split
  · exact editLast hscopes fun w hw =>
      hx.toStaged.addSelect .anyRow (fun _ hn => absurd hlast hn) hw
  · exact editLast hscopes fun w hw =>
      hx.toStaged.addSelect .countAll (fun _ hn => absurd hlast hn) hw

theorem aggregated (hm : method ∉ plainOperators) :
    κ.Runs s s' (apply κ.left method rest st) (apply κ.right method rest' st')
      fun t t' => κ.Staged F t t' (s'.methods.length = 1) := by
  rw [apply_aggregate _ _ hm, apply_aggregate _ _ hm]
  split
  · exact .throw _ _
  rename_i function _
  rw [← hr.length_eq, ← isEmpty_eq hr]
  by_cases hl : 1 < rest.length
  · rw [if_pos hl, if_pos hl]
    exact .throw _ _
  rw [if_neg hl, if_neg hl]
  refine .bind (.requireLast hms method) fun t t' _ _ hsu hlast => ?_
  replace hs := hs.step hsu
  replace hst := hst.step hsu
  have hselect : ∀ {u u' : Scope} {p q : Scalar × Stage}, κ.Scopes F u u' →
      Produced κ F F u u' p q →
        κ.Runs u u'
          (do
            let stage ← Compilation.edit p.2 (Stage.addSelect (.ofValue (.builtin function [p.1])))
            Compilation.setOperation .firstOrDefault
            return stage)
          (do
            let stage ← Compilation.edit q.2 (Stage.addSelect (.ofValue (.builtin function [q.1])))
            Compilation.setOperation .firstOrDefault
            return stage)
          fun v v' => κ.Staged F v v' (s'.methods.length = 1) := fun hscopes hpq =>
    editLast hscopes fun w hw =>
      hpq.stage.toStaged.addSelect (.builtin function hpq.clause) (fun _ hn => absurd hlast hn) hw
  by_cases hempty : rest.isEmpty = true
  · rw [if_pos hempty, if_pos hempty]
    exact hselect (p := (st.layer.row, st)) (q := (st'.layer.row, st')) hs
      ⟨hst.rowClause, hst.row_single, hst, .refl F t t' st st'⟩
  · rw [if_neg hempty, if_neg hempty]
    refine .bind (selected h hr hes hs (ho.step hsu) hst) fun u u' p q hsv hpq => ?_
    exact hselect (hs.step hsv) hpq.2.2

omit hms

/-- Joining an array of each row. -/
theorem joinedBy :
    κ.Runs s s' (apply κ.left "SelectMany" rest st) (apply κ.right "SelectMany" rest' st')
      (κ.Open F) := by
  by_cases hone : ∃ arg', rest' = [arg']
  · obtain ⟨arg', rfl⟩ := hone
    obtain ⟨arg, _, ha, hnil, rfl⟩ := List.forall₂_cons_right_iff.mp hr
    cases hnil
    rw [Compilation.apply.eq_3, Compilation.apply.eq_3]
    refine .bind (.selector ha _) fun t t' l l' hstep hlambda => ?_
    obtain ⟨hname, hbody, hl⟩ := hlambda
    replace hs := hs.step hstep
    replace hst := hst.step hstep
    have hlt := l.smaller
    have hin := hs.bindTo hst.rowClause.toSeen hst.row_single hname
    let G := ((F.bind st.layer.row st'.layer.row).reserved t t').enter
      (F.binders.bind l.param l'.param)
    have hsees : κ.Sees F G t t' st st' := (Sees.refl F t t' st st').bind hst.rowClause
    have hreached : κ.Reached F G (t.bindTo l.param st.layer.row)
        (t'.bindTo l'.param st'.layer.row) st st' :=
      (Reached.mk hst hsees).beside ⟨rfl, rfl, rfl, rfl⟩
    have hout : Outer t t' := ho.step hstep
    refine withRow_outer hout (joined h l.body ?_ hbody
      (admits_selector (hes _ List.mem_cons_self) hl) ⟨hs.names, hs.left, hs.right⟩ hin
      hout hreached) fun u u' x x' hx => hx.toOpen.beside ⟨rfl, rfl, rfl, rfl⟩
    simp only [List.cons.sizeOf_spec]
    omega
  · rw [Compilation.apply.eq_4 κ.right _ _ fun arg ha => hone ⟨arg, ha⟩]
    exact .throw _ _

include hms

/-- **Every operator changes alike stages into alike stages.** -/
theorem apply (hκ : κ.Sound) (method : String) (hbound : method = "GroupBy" → Unbound s s') :
    κ.Runs s s' (Compilation.apply κ.left method rest st)
      (Compilation.apply κ.right method rest' st')
      fun t t' => κ.Staged F t t' (s'.methods.length = 1) := by
  have hsel : ∀ m, κ.Runs s s' (Compilation.selected κ.left m rest st)
      (Compilation.selected κ.right m rest' st')
        fun t t' p q => Produced κ F F t t' p q := fun m =>
    (selected h hr hes hs ho hst).imp fun _ _ _ _ _ hpq => hpq.2.2
  have hgeneral : ∀ {t t' : Scope} {u u' : Stage}, κ.Staged F t t' False u u' →
      κ.Staged F t t' (s'.methods.length = 1) u u' := fun hu => hu.imp False.elim
  by_cases hw : method = "Where"
  · subst hw
    rw [Compilation.apply.eq_1, Compilation.apply.eq_1]
    exact .bind (hsel _) fun t t' p q _ hpq => .pure (hgeneral hpq.addWhere.toStaged)
  by_cases hse : method = "Select"
  · subst hse
    rw [Compilation.apply.eq_2, Compilation.apply.eq_2]
    refine .bind (hsel _) fun t t' p q _ hpq => .edit fun u hu => ?_
    exact hpq.stage.toStaged.addSelect hpq.clause (fun hg _ _ => hpq.single hg) hu
  by_cases hsm : method = "SelectMany"
  · subst hsm
    exact (joinedBy h hr hes hs ho hst).imp fun _ _ _ _ _ hu => hgeneral hu.toStaged
  by_cases hob : method = "OrderBy"
  · subst hob
    rw [Compilation.apply.eq_5, Compilation.apply.eq_5]
    exact .bind (hsel _) fun t t' p q _ hpq =>
      .pure (hgeneral (hpq.stage.toStaged.addOrderBy hpq.clause false))
  by_cases hod : method = "OrderByDescending"
  · subst hod
    rw [Compilation.apply.eq_6, Compilation.apply.eq_6]
    exact .bind (hsel _) fun t t' p q _ hpq =>
      .pure (hgeneral (hpq.stage.toStaged.addOrderBy hpq.clause true))
  by_cases htb : method = "ThenBy"
  · subst htb
    rw [Compilation.apply.eq_7, Compilation.apply.eq_7]
    exact .bind (hsel _) fun t t' p q _ hpq => .edit fun u hu =>
      (hgeneral hpq.stage.toStaged).thenBy hpq.clause false hu
  by_cases htd : method = "ThenByDescending"
  · subst htd
    rw [Compilation.apply.eq_8, Compilation.apply.eq_8]
    exact .bind (hsel _) fun t t' p q _ hpq => .edit fun u hu =>
      (hgeneral hpq.stage.toStaged).thenBy hpq.clause true hu
  by_cases hta : method = "Take"
  · subst hta
    by_cases hone : ∃ arg', rest' = [arg']
    · obtain ⟨arg', rfl⟩ := hone
      obtain ⟨arg, _, ha, hnil, rfl⟩ := List.forall₂_cons_right_iff.mp hr
      cases hnil
      rw [Compilation.apply.eq_9, Compilation.apply.eq_9, ← ha.count_eq]
      exact .bind (hκ.count _ hs (hes _ List.mem_cons_self)) fun t t' n m hsu hn =>
        .edit fun u hu => ((hgeneral hst.toStaged).step hsu).addTop hn hu
    · rw [Compilation.apply.eq_10 κ.right _ _ fun arg ha => hone ⟨arg, ha⟩]
      exact .throw _ _
  by_cases hsk : method = "Skip"
  · subst hsk
    by_cases hone : ∃ arg', rest' = [arg']
    · obtain ⟨arg', rfl⟩ := hone
      obtain ⟨arg, _, ha, hnil, rfl⟩ := List.forall₂_cons_right_iff.mp hr
      cases hnil
      rw [Compilation.apply.eq_11, Compilation.apply.eq_11, ← ha.count_eq]
      exact .bind (hκ.count _ hs (hes _ List.mem_cons_self)) fun t t' n m hsu hn =>
        .edit fun u hu => ((hgeneral hst.toStaged).step hsu).addOffset hn hu
    · rw [Compilation.apply.eq_12 κ.right _ _ fun arg ha => hone ⟨arg, ha⟩]
      exact .throw _ _
  by_cases hdi : method = "Distinct"
  · subst hdi
    rw [Compilation.apply.eq_13, Compilation.apply.eq_13, ← isEmpty_eq hr]
    split
    · exact .pure (hgeneral hst.toStaged).setDistinct
    · exact .throw _ _
  by_cases hca : method = "Count" ∨ method = "Any"
  · exact counted h hr hes hs hms ho hst hca
  by_cases hf : method = "FirstOrDefault"
  · subst hf
    rw [apply_first, apply_first, ← isEmpty_eq hr]
    split
    · refine .bind (.requireLast hms _) fun t t' _ _ hsu _ => ?_
      exact editLast (hs.step hsu) fun u hu =>
        ((hgeneral hst.toStaged).step hsu).addTop ((κ.count_literal _ _ _).mpr rfl) hu
    · exact .throw _ _
  by_cases hg : method = "GroupBy"
  · subst hg
    rw [Compilation.apply.eq_17, Compilation.apply.eq_17]
    exact grouped (hbound rfl) h hr hes hs ho hst
  refine aggregated h hr hes hs hms ho hst fun hmem => ?_
  simp_all [plainOperators]

end

end Runs

end LambdaQuery.Setting
