import LambdaQuery.Proofs.Renaming.Basic

/-!
# Folding renamed expressions

What can be evaluated has no parameters, so that renaming leaves it as it is
(`Expr.Renamed.eq_of_foldable`): expressions that are renamed are folded alike
(`Expr.Renamed.fold`).
-/

set_option autoImplicit false

namespace LambdaQuery.Expr

variable {exact : Prop} {ask : Evaluator}

theorem hasParams_of_foldable {e : Expr} (h : e.isFoldable) : e.hasParams = false := by
  cases e with
  | lambda params body => simp [isFoldable_lambda] at h
  | parameter x ty => simp [isFoldable_parameter] at h
  | _ => rfl

/-- No part of a foldable expression is renamed. -/
theorem Renamed.eq_of_foldable {B : Binders} {e e' : Expr} (h : Renamed exact B e e')
    (hf : e.isFoldable) : e = e' := by
  induction h with
  | parameter => cases hasParams_of_foldable hf
  | lambda => cases hasParams_of_foldable hf
  | @node B e ds _ _ hlength _ ih =>
    rw [isFoldable_eq, Bool.and_eq_true, List.all_eq_true] at hf
    have hsame : List.Forall₂ Eq e.children ds := List.forall₂_iff_zip.mpr
      ⟨hlength, fun hp => ih _ hp (hf.1 _ (List.of_mem_zip hp).1)⟩
    rw [← (List.forall₂_eq_eq_eq ▸ hsame : e.children = ds), rebuild_children]

/-- Folding makes no parameters. -/
theorem eq_of_fold_parameter {e : Expr} {x : String} {ty : HostType}
    (h : e.fold ask = .ok (.parameter x ty)) : e = .parameter x ty := by
  by_cases hc : e.kind = .constant
  · rw [fold_constant _ hc] at h
    exact Except.ok.inj h
  cases hf : e.isFoldable with
  | true =>
    rw [fold_foldable _ hc hf] at h
    cases hv : ask e <;> rw [hv] at h <;> cases h
  | false =>
    obtain ⟨ds, hrebuild, -⟩ := parts_of_folded h hf
    have hk : e.kind = .parameter := by rw [← kind_rebuild e ds, ← hrebuild]; rfl
    cases e <;> cases hk
    exact hrebuild.symm

theorem source?_eq_none {e : Expr} (h : e.kind ≠ .call) : e.source? = none := by
  cases e <;> first | rfl | exact absurd rfl h

/-- Operators keep the parameters that are their sources. -/
theorem source?_of_folded {e : Expr} {ds : List Expr}
    (h : List.Forall₂ (fun d d' => d.fold ask = .ok d') e.children ds) :
    (e.rebuild ds).source? = e.source? := by
  have hargs : ∀ {target target' : Option Expr} {method : Method} {args args' : List Expr}
      {ty : HostType}, List.Forall₂ (fun d d' => d.fold ask = .ok d') args args' →
        (Expr.call target' method args' ty).source? =
          (Expr.call target method args ty).source? := by
    intro target target' method args args' ty hargs
    cases hargs with
    | nil => rfl
    | @cons d d' _ _ hd _ =>
      by_cases hp : ∃ x ty, d' = .parameter x ty
      · obtain ⟨x, ty, rfl⟩ := hp
        rw [eq_of_fold_parameter hd]
        rfl
      · have hp' : ¬∃ x ty, d = .parameter x ty := by
          rintro ⟨x, ty, rfl⟩
          rw [fold_parameter] at hd
          exact hp ⟨x, ty, (Except.ok.inj hd).symm⟩
        have hnone : ∀ {target d args}, (¬∃ x ty, d = Expr.parameter x ty) →
            (Expr.call target method (d :: args) ty).source? = none := by
          intro target d args hd
          refine source?.eq_2 _ ?_
          rintro target method x ty args ty' he
          cases he
          exact hd ⟨x, ty, rfl⟩
        rw [hnone hp, hnone hp']
  by_cases hk : e.kind = .call
  · cases e <;> cases hk
    rename_i target method args ty
    cases target with
    | none => exact hargs h
    | some target =>
      obtain ⟨d, ds, -, hds, rfl⟩ := List.forall₂_cons_left_iff.mp h
      exact hargs hds
  · rw [source?_eq_none hk, source?_eq_none (by rwa [kind_rebuild])]

theorem fold_of_parts {e : Expr} {ds : List Expr} (hf : e.isFoldable = false)
    (h : List.Forall₂ (fun d d' => d.fold ask = .ok d') e.children ds) :
    e.fold ask = .ok (e.rebuild ds) := by
  rw [fold_parts _ hf, mapM_eq_ok.mpr h]
  rfl

/-- What folding makes of something foldable is renamed to itself. -/
theorem Renamed.of_foldable {B : Binders} {e f : Expr} (hf : e.isFoldable)
    (h : e.fold ask = .ok f) : Renamed exact B f f := by
  have hconstant : f.kind = .constant := by
    by_cases hc : e.kind = .constant
    · rw [fold_constant _ hc] at h
      rwa [← Except.ok.inj h]
    · rw [fold_foldable _ hc hf] at h
      cases hv : ask e <;> rw [hv] at h <;> cases h
      rfl
  cases f <;> cases hconstant
  exact .node rfl .none (List.length_nil : [].length = 0).symm fun _ hp => nomatch hp

theorem Renamed.fold {B : Binders} {e e' f' : Expr} (h : Renamed exact B e e')
    (hf' : e'.fold ask = .ok f') : ∃ f, e.fold ask = .ok f ∧ Renamed exact B f f' := by
  induction h generalizing f' with
  | parameter ty hxy =>
    rw [fold_parameter] at hf'
    cases hf'
    exact ⟨_, fold_parameter _ _ _, .parameter ty hxy⟩
  | @lambda B ps qs body body' hps _ ih =>
    obtain ⟨ds, rfl, -, hds⟩ := parts_of_folded hf' (isFoldable_lambda qs body')
    obtain ⟨d, _, hd, hnil, rfl⟩ := List.forall₂_cons_left_iff.mp hds
    obtain ⟨f, hf, hren⟩ := ih hd
    exact ⟨.lambda ps f, fold_of_parts (isFoldable_lambda ps body) (.cons hf .nil),
      .lambda hps hren⟩
  | @node B e ds hp hs hlength hparts ih =>
    have hnode : Renamed exact B e (e.rebuild ds) := .node hp hs hlength hparts
    cases hf : e.isFoldable with
    | true =>
      rw [← hnode.eq_of_foldable hf] at hf'
      exact ⟨f', hf', .of_foldable hf hf'⟩
    | false =>
      have hfold : (e.rebuild ds).isFoldable = false := by
        refine Bool.eq_false_iff.mpr fun hne => ?_
        rw [hnode.symm.eq_of_foldable hne, hf] at hne
        cases hne
      obtain ⟨fs', rfl, -, hfs'⟩ := parts_of_folded hf' hfold
      rw [children_rebuild hlength.symm] at hfs'
      have hfolded : ∀ {as bs cs : List Expr}, List.Forall₂ (fun d d' => ∀ {f'},
          d'.fold ask = .ok f' → ∃ f, d.fold ask = .ok f ∧ Renamed exact B f f') as bs →
            List.Forall₂ (fun d d' => d.fold ask = .ok d') bs cs →
              ∃ fs, List.Forall₂ (fun d d' => d.fold ask = .ok d') as fs ∧
                List.Forall₂ (Renamed exact B) fs cs := by
        intro as bs cs h h'
        induction h generalizing cs with
        | nil =>
          cases h'
          exact ⟨[], .nil, .nil⟩
        | cons hd _ ih =>
          obtain ⟨c, cs, hc, hcs, rfl⟩ := List.forall₂_cons_left_iff.mp h'
          obtain ⟨f, hf, hren⟩ := hd hc
          obtain ⟨fs, hfs, hrens⟩ := ih hcs
          exact ⟨f :: fs, .cons hf hfs, .cons hren hrens⟩
      obtain ⟨fs, hfs, hrens⟩ := hfolded
        (List.forall₂_iff_zip.mpr ⟨hlength, fun h => ih _ h⟩) hfs'
      refine ⟨e.rebuild fs, fold_of_parts hf hfs, ?_⟩
      have hfl := hfs.length_eq
      have hrebuild : (e.rebuild ds).rebuild fs' = (e.rebuild fs).rebuild fs' := by
        rw [rebuild_rebuild hlength (hlength.trans hfs'.length_eq),
          rebuild_rebuild hfl (hlength.trans hfs'.length_eq)]
      rw [hrebuild]
      refine .rebuild ((hasParams_rebuild e fs).trans hp) ?_ ?_
      · rw [← hrebuild, source?_of_folded hfs, source?_of_folded]
        · exact hs
        · rwa [children_rebuild hlength.symm]
      · rwa [children_rebuild hfl.symm]

end LambdaQuery.Expr
