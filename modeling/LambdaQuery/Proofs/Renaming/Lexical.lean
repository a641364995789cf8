import LambdaQuery.Proofs.Renaming.Basic

/-!
# Lexical scopes

`Expr.Alpha`: expressions that differ by a consistent renaming of the parameters of lambdas. The
compilation tells the group in scope by the name of its parameter alone. Where no lambda hides this
parameter (`Expr.Unshadowed`), the name means the group exactly where the parameter does, and
equivalent expressions are renamed as the compilation sees them (`Expr.Renamed.unshadowed`).
-/

set_option autoImplicit false

namespace LambdaQuery

namespace Expr

/-- Expressions that differ by a consistent renaming of the parameters of lambdas. -/
def Alpha (e e' : Expr) : Prop := Renamed False (.lexical Eq) e e'

/-- Within the results of groups no other parameter has the name of the group's. -/
inductive Unshadowed : Option String → Expr → Prop
  | parameter {γ : Option String} (x : String) (ty : HostType) : Unshadowed γ (.parameter x ty)
  | result {γ : Option String} {k g : Param} {body : Expr} : k.name ≠ g.name →
      Unshadowed (some g.name) body → Unshadowed γ (.lambda [k, g] body)
  | lambda {γ : Option String} {ps : List Param} {body : Expr} : ps.length ≠ 2 →
      (∀ p ∈ ps, γ ≠ some p.name) → Unshadowed γ body → Unshadowed γ (.lambda ps body)
  | node {γ : Option String} {e : Expr} : e.hasParams = false →
      (∀ d ∈ e.children, Unshadowed γ d) → Unshadowed γ e

theorem Unshadowed.children {γ : Option String} {e : Expr} (h : e.Unshadowed γ)
    (he : e.hasParams = false) : ∀ d ∈ e.children, d.Unshadowed γ := by
  cases h with
  | node _ hchildren => exact hchildren
  | _ => cases he

/-- The parameters that are the sources of renamed operators. -/
theorem Renamed.source {exact : Prop} {B : Binders} {e e' : Expr} {x y : String}
    (h : Renamed exact B e e') (hx : e.source? = some x) (hy : e'.source? = some y) :
    B.names x y := by
  cases e with
  | call target method args ty =>
    obtain ⟨target', args', rfl, -, hargs⟩ := h.call
    have hhead : ∀ {target args} {x : String}, (Expr.call target method args ty).source? = some x →
        ∃ ty' rest, args = .parameter x ty' :: rest := by
      intro target args x hx
      unfold source? at hx
      split at hx
      · rename_i heq
        cases heq
        split at hx
        · cases hx
          exact ⟨_, _, rfl⟩
        · cases hx
      · cases hx
    obtain ⟨_, _, rfl⟩ := hhead hx
    obtain ⟨_, _, rfl⟩ := hhead hy
    obtain _ | ⟨hd, _⟩ := hargs
    cases hd with
    | parameter _ hxy => exact hxy
    | node hp => cases hp
  | _ => cases hx

end Expr

/-! ## The group in scope -/

namespace Binders

/-- Names that are bound by one lambda, or that are not those of the groups' parameters, are told
apart alike. -/
structure Sees (B : Binders) (γ γ' : Option String) : Prop where
  names : ∀ x y, B.names x y → B.sources x y
  others : ∀ x y, γ ≠ some x → γ' ≠ some y → B.sources x y

variable {B : Binders} {γ γ' : Option String}

theorem Sees.bindAll (h : B.Sees γ γ') {R : Param → Param → Prop} {ps qs : List Param}
    (hps : List.Forall₂ R ps qs) (hγ : ∀ p ∈ ps, γ ≠ some p.name)
    (hγ' : ∀ q ∈ qs, γ' ≠ some q.name) : (B.bindAll ps qs).Sees γ γ' := by
  induction hps with
  | nil => exact h
  | @cons p q ps qs _ _ ih =>
    have ih := ih (fun p hp => hγ p (List.mem_cons_of_mem _ hp))
      fun q hq => hγ' q (List.mem_cons_of_mem _ hq)
    refine ⟨?_, ih.others⟩
    rintro x y (⟨rfl, rfl⟩ | ⟨-, -, hxy⟩)
    · exact ih.others _ _ (hγ p List.mem_cons_self) (hγ' q List.mem_cons_self)
    · exact ih.names x y hxy

/-- The parameter of a group is told apart from the key's. -/
theorem Sees.group {k g k' g' : Param} (hk : k.name ≠ g.name) (hk' : k'.name ≠ g'.name) :
    (B.enter [k, g] [k', g']).Sees (some g.name) (some g'.name) where
  names := by
    rintro x y (⟨rfl, rfl⟩ | ⟨-, -, ⟨rfl, rfl⟩ | ⟨hx, hy, -⟩⟩) -
    · exact ⟨fun h => absurd h hk, fun h => absurd h hk'⟩
    · exact ⟨fun _ => rfl, fun _ => rfl⟩
    · exact ⟨fun h => absurd h hx, fun h => absurd h hy⟩
  others x y hx hy _ := ⟨fun h => absurd (congrArg some h.symm) hx,
    fun h => absurd (congrArg some h.symm) hy⟩

/-- Names that correspond inside of lambdas do so however groups are told apart. -/
theorem enter_names {C : Binders} (h : B.names = C.names) (ps qs : List Param) :
    (B.enter ps qs).names = (C.enter ps qs).names := by
  have hall : ∀ ps qs, (B.bindAll ps qs).names = (C.bindAll ps qs).names := fun ps => by
    induction ps with
    | nil => exact fun _ => h
    | cons p ps ih =>
      rintro (_ | ⟨q, qs⟩)
      · exact h
      · unfold bindAll bind
        rw [ih]
  unfold enter
  split
  · exact hall _ _
  · exact hall ps qs

end Binders

/-- **Where no lambda hides the group in scope**, expressions that are renamed consistently are so
for the compilation. -/
theorem Expr.Renamed.unshadowed {exact : Prop} {B C : Binders} {γ γ' : Option String} {e e' : Expr}
    (h : Renamed exact B e e') (hnames : B.names = C.names) (hC : C.Sees γ γ')
    (he : e.Unshadowed γ) (he' : e'.Unshadowed γ') : Renamed exact C e e' := by
  induction h generalizing C γ γ' with
  | @parameter B x y ty hxy => exact .parameter ty (hnames ▸ hxy)
  | @lambda B ps qs body body' hps hbody ih =>
    refine .lambda hps ?_
    have henter := Binders.enter_names hnames ps qs
    cases he with
    | node hp => cases hp
    | result hk hb =>
      cases he' with
      | node hp => cases hp
      | result hk' hb' => exact ih henter (.group hk hk') hb hb'
      | lambda hlength => exact absurd hps.length_eq.symm hlength
    | lambda hlength hγ hb =>
      cases he' with
      | node hp => cases hp
      | result => exact absurd hps.length_eq hlength
      | lambda _ hγ' hb' =>
        refine ih henter ?_ hb hb'
        rw [Binders.enter_eq_bindAll _ hlength]
        exact hC.bindAll hps hγ hγ'
  | @node B e ds hp hsource hlength hds ih =>
    have hpairs : List.Forall₂ (Renamed exact C) e.children ds := by
      have hchildren := he'.children ((hasParams_rebuild e ds).trans hp)
      rw [children_rebuild hlength.symm] at hchildren
      exact List.forall₂_iff_zip.mpr ⟨hlength, fun hmem => ih _ hmem hnames hC
        (he.children hp _ (List.of_mem_zip hmem).1) (hchildren _ (List.of_mem_zip hmem).2)⟩
    refine .rebuild hp ?_ hpairs
    have hren : Renamed exact B e (e.rebuild ds) := .node hp hsource hlength hds
    rcases optionRel_cases hsource with ⟨h₁, h₂⟩ | ⟨x, y, h₁, h₂, -⟩
    · rw [h₁, h₂]
      exact .none
    · rw [h₁, h₂]
      exact .some (hC.names x y (hnames ▸ hren.source h₁ h₂))

/-- Equivalent queries are renamed as the compilation sees them. -/
theorem Expr.Alpha.renamed {e e' : Expr} (h : e.Alpha e') (he : e.Unshadowed none)
    (he' : e'.Unshadowed none) : Renamed False ⟨Eq, fun _ _ => True, True⟩ e e' :=
  Renamed.unshadowed h rfl ⟨fun _ _ _ => trivial, fun _ _ _ _ => trivial⟩ he he'

end LambdaQuery
