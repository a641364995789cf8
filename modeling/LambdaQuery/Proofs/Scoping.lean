import LambdaQuery.Proofs.Alike.Queries
import LambdaQuery.Proofs.Alike.Constants
import LambdaQuery.Proofs.WellScoped
import LambdaQuery.Host.Interpreter
import LambdaQuery.Host.Queryable
import Mathlib

/-!
# Scopes of queries

A query is `WellScoped` when every reference in it is to a name that is bound where it stands and no
source binds a name that is bound already. Every query that a compilation gives is, and no name of a
layer that was merged on the way occurs in it (`Compilation.query_wellScoped`): a run of the
compilation is alike to itself.
-/

set_option autoImplicit false

namespace LambdaQuery

/-! ## Alike queries are well-scoped -/

theorem Likeness.Fresh.notMem_left {c : Likeness} {Γ : Context} {n m : String}
    (h : c.Fresh Γ n m) : n ∉ Γ.map (·.1) := fun hn => by
  obtain ⟨p, hp, he⟩ := List.mem_map.mp hn
  exact (h.unbound p hp).1 he

variable {c : Likeness}

/-- What stands for itself has no references. -/
abbrev Likeness.Closed (c : Likeness) : Prop := ∀ a b, c.leaf a b → ∀ bound, a.WellScoped bound

mutual

theorem Scalar.Alike.wellScoped (hc : c.Closed) : ∀ {Γ : Context} {a b : Scalar},
    Scalar.Alike c Γ a b →
    a.WellScoped (Γ.map (·.1))
  | _, _, _, .leaf h => hc _ _ h _
  | _, _, _, .literal value => trivial
  | _, _, _, .ref h => List.mem_map_of_mem h
  | _, _, _, .index h hk => ⟨h.wellScoped hc, hk.wellScoped hc⟩
  | _, _, _, .binary op h h' => ⟨h.wellScoped hc, h'.wellScoped hc⟩
  | _, _, _, .unary op h => h.wellScoped hc
  | _, _, _, .notIn _ h => h.wellScoped hc
  | _, _, _, .negated h => h.wellScoped hc
  | _, _, _, .call name udf h => h.wellScoped hc
  | _, _, _, .array h => h.wellScoped hc
  | _, _, _, .object h => h.wellScoped hc
  | _, _, _, .conditional h h₁ h₂ => ⟨h.wellScoped hc, h₁.wellScoped hc, h₂.wellScoped hc⟩
  | _, _, _, .isIn negated h hs => ⟨h.wellScoped hc, hs.wellScoped hc⟩
  | _, _, _, .exists h => h.wellScoped hc
  | _, _, _, .arrayOf h => h.wellScoped hc
  | _, _, _, .subquery h => h.wellScoped hc

theorem Scalar.AllAlike.wellScoped (hc : c.Closed) : ∀ {Γ : Context} {as bs : List Scalar},
    Scalar.AllAlike c Γ as bs → Scalar.AllWellScoped (Γ.map (·.1)) as
  | _, _, _, .nil => trivial
  | _, _, _, .cons h hs => ⟨h.wellScoped hc, hs.wellScoped hc⟩

theorem Scalar.PropertiesAlike.wellScoped (hc : c.Closed) : ∀ {Γ : Context}
    {ps qs : List (String × Scalar)},
    Scalar.PropertiesAlike c Γ ps qs → Scalar.PropertiesWellScoped (Γ.map (·.1)) ps
  | _, _, _, .nil => trivial
  | _, _, _, .cons name h hs => ⟨h.wellScoped hc, hs.wellScoped hc⟩

theorem Source.AllAlike.wellScoped (hc : c.Closed) : ∀ {Γ Δ : Context} {ss ts : List Source},
    Source.AllAlike c Γ ss ts Δ → Source.AllWellScoped (Γ.map (·.1)) ss ∧
      Source.bound (Γ.map (·.1)) ss = Δ.map (·.1)
  | _, _, _, _, .nil => ⟨trivial, rfl⟩
  | _, _, _, _, .container hn h => ⟨⟨hn.notMem_left, (h.wellScoped hc).1⟩, (h.wellScoped hc).2⟩
  | _, _, _, _, .items hp hn h =>
    ⟨⟨⟨hp.wellScoped hc, hn.notMem_left⟩, (h.wellScoped hc).1⟩, (h.wellScoped hc).2⟩
  | _, _, _, _, .subquery hq hn h =>
    ⟨⟨⟨hq.wellScoped hc, hn.notMem_left⟩, (h.wellScoped hc).1⟩, (h.wellScoped hc).2⟩

theorem Query.Alike.wellScoped (hc : c.Closed) : ∀ {Γ : Context} {q r : Query},
    Query.Alike c Γ q r →
    q.WellScoped (Γ.map (·.1))
  | _, ⟨selection, sources, filter, groupBy, orderBy, offset, limit⟩, _,
    .mk hsources value _ hfilter hgroupBy horderBy _ _ _ _ => by
    obtain ⟨hss, hbound⟩ := hsources.wellScoped hc
    refine ⟨hss, ?_⟩
    rw [hbound]
    exact ⟨Selection.wellScoped_iff.mpr (value.wellScoped hc),
      Scalar.optionWellScoped_iff.mpr (hfilter.wellScoped hc), hgroupBy.wellScoped hc,
      SortKey.allWellScoped_iff.mpr (horderBy.wellScoped hc)⟩

end

/-! ## A compilation beside itself -/

namespace Setting

section

variable (env : Environment) {exact : Prop} {h : exact ∨ env.evaluator.Nameless}

theorem beside_same (F : Frame) :
    (beside env exact h).Same ((beside env exact h).Outcome F) where
  options := rfl
  parameter := .inr fun _ _ name => .leaf ⟨name, rfl, rfl⟩
  reports _ := trivial

theorem beside_sound : (beside env exact h).Sound where
  constant _ _ := (beside_same env _).constant (Outcome.congruence _ _) _ _
  listed _ _ := (beside_same env _).listed (Outcome.congruence _ _) _ _
  arguments _ _ := (beside_same env _).constants (Outcome.congruence _ _) _ _
  count {F} _ _ _ method _ _ := (beside_same env F).counts (fun _ _ => rfl) method _
  matched _ hl hr _ ha hb _ _ := by
    rw [← hl.matched_eq hr]
    exact .matched _ _ _ ha hb ha.facts.shape hb.facts.shape

end

theorem self_sound (env : Environment) : (self env).Sound := beside_sound env

end Setting

/-- **Compiled queries are well-scoped**, and no name of a merged layer occurs in them. -/
theorem Compilation.query_wellScoped (env : Environment) (e : Expr) (q : Query) (t : Scope)
    (h : Compilation.query env e .initial = (.ok q, t)) :
    q.WellScoped [] ∧ ∀ n ∈ t.merged, n ∉ q.names := by
  obtain ⟨folded, hfold⟩ := Setting.exists_fold_of_query h
  rcases (Setting.self_sound env).query hfold trivial h with
    ⟨q', t', h', halike, hmerged, -⟩ | ⟨hlax, -⟩
  · cases h.symm.trans h'
    have hclosed : ((Setting.self env).likeness t.parameters .empty).Closed := by
      intro a b hab bound
      rcases hab with ⟨name, rfl, -⟩ | ⟨hab, -⟩
      · trivial
      · cases hab
    exact ⟨halike.wellScoped hclosed, hmerged⟩
  · exact hlax.elim

/-- Sizes of rows that have a tag for their unit: the layer `r0` over them is merged. -/
theorem Compilation.query_wellScoped_sizes :
    let env : Environment := ⟨.default, Interpreter.empty.evaluate⟩
    let size := (Expr.parameter "r" (.model "Row")).property "Size" (.model "Size")
    let s := Expr.parameter "s" (.model "Size")
    let test := Expr.compare .equal (.parameter "t" .string) (s.property "Unit" .string)
    let tags := s.property "Tags" (.array .string)
    let tagged := Expr.staticCall ⟨.enumerable, "Any"⟩
      [tags, .ofLambda (.unary "t" .string test)] .boolean
    let sizes := (Queryable.root (.model "Row")).select (.unary "r" (.model "Row") size)
    let e := (sizes.filter (.unary "s" (.model "Size") tagged)).expr
    ∃ q t, Compilation.query env e .initial = (.ok q, t) ∧ t.merged = ["r0"] ∧
      q.WellScoped [] ∧ ∀ n ∈ t.merged, n ∉ q.names := by
  intro env size s test tags tagged sizes e
  have hok : (Compilation.query env e .initial).1.isOk = true := by cbv
  have hmerged : (Compilation.query env e .initial).2.merged = ["r0"] := by cbv
  rcases h : Compilation.query env e .initial with ⟨_ | q, t⟩
  · rw [h] at hok
    cases hok
  · rw [h] at hmerged
    exact ⟨q, t, rfl, hmerged, query_wellScoped env e q t h⟩

end LambdaQuery
