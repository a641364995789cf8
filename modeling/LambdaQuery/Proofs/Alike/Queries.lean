import LambdaQuery.Proofs.Alike.Compilations
import LambdaQuery.Compiled

/-!
# Two runs of the compilation of whole queries

Where constants and counts come out alike, so does the query of every expression, and no name of a
merged layer occurs in it (`Setting.Sound.query`).
-/

set_option autoImplicit false

namespace LambdaQuery

/-- A frame of nothing. -/
def Frame.empty : Frame := ⟨[], [], [], .same⟩

/-! ## The scope of a whole query -/

/-- Names in use are only added. -/
theorem Scope.addNames_eq (s : Scope) (ns : List String) :
    ∃ names, s.addNames ns = { s with names := names } ∧ s.names ⊆ names := by
  induction ns generalizing s with
  | nil => exact ⟨s.names, rfl, List.Subset.refl _⟩
  | cons n ns ih =>
    have hadd : ∃ names, s.addName n = { s with names := names } ∧ s.names ⊆ names := by
      unfold addName
      split
      · exact ⟨s.names, rfl, List.Subset.refl _⟩
      · exact ⟨n :: s.names, rfl, List.subset_cons_self ..⟩
    obtain ⟨names, hs, hsub⟩ := hadd
    obtain ⟨names', hs', hsub'⟩ := ih (s.addName n)
    refine ⟨names', ?_, ?_⟩
    · rw [show s.addNames (n :: ns) = (s.addName n).addNames ns from rfl, hs', hs]
    · rw [hs] at hsub'
      exact List.Subset.trans hsub hsub'

/-- Before anything is compiled, names are in use, and that is all. -/
theorem Scope.declare_eq (e : Expr) :
    ∃ names, Scope.initial.declare e = { Scope.initial with names := names } ∧
      Scope.initial.names ⊆ names :=
  Scope.addNames_eq .initial e.parameterNames

namespace Setting

variable {κ : Setting}

/-- Before anything is compiled, nothing is bound on either side. -/
theorem Scopes.declare {B : Binders} (hstrict : B.strict)
    (hB : κ.exact → ∀ x y, B.names x y → x = y) {e e' : Expr}
    (he : κ.named → e = e') :
    κ.Scopes (Frame.empty.enter B) (Scope.initial.declare e) (Scope.initial.declare e') := by
  obtain ⟨names, hs, -⟩ := Scope.declare_eq e
  obtain ⟨names', hs', -⟩ := Scope.declare_eq e'
  have hnames : κ.named → names = names' := by
    intro hn
    obtain rfl := he hn
    exact congrArg Scope.names (hs.symm.trans hs')
  rw [hs, hs']
  exact {
    lookup? := fun _ => .none
    groupRow? := fun _ => .none
    exact := hB
    strict := hstrict
    facts := fun p hp => nomatch hp
    single := fun _ p hp => nomatch hp
    names := fun p hp => nomatch hp
    live := fun p hp => nomatch hp
    left := List.nil_subset _
    right := List.nil_subset _
    depth := rfl
    named := hnames
    operation := fun h => nomatch h
    operation' := fun h => nomatch h
    merged := List.nil_subset _ }

theorem Rooted.declare {B : Binders} (e e' : Expr) :
    Rooted (Frame.empty.enter B) (Scope.initial.declare e) (Scope.initial.declare e') := by
  intro _
  obtain ⟨names, hs, hsub⟩ := Scope.declare_eq e
  obtain ⟨names', hs', hsub'⟩ := Scope.declare_eq e'
  rw [hs, hs']
  exact ⟨⟨List.not_mem_nil, List.not_mem_nil⟩,
    Scope.mem_live.mpr ⟨hsub List.mem_cons_self, List.not_mem_nil⟩, hsub' List.mem_cons_self⟩

theorem declare_parameters (e : Expr) : (Scope.initial.declare e).parameters = [] := by
  obtain ⟨names, hs, -⟩ := Scope.declare_eq e
  rw [hs]
  rfl

theorem declare_bindings (e : Expr) : (Scope.initial.declare e).bindings = [] := by
  obtain ⟨names, hs, -⟩ := Scope.declare_eq e
  rw [hs]
  rfl

theorem declare_methods (e : Expr) : (Scope.initial.declare e).methods = [] := by
  obtain ⟨names, hs, -⟩ := Scope.declare_eq e
  rw [hs]
  rfl

/-! ## Queries -/

theorem query_eq (env : Environment) {e folded : Expr} (hfold : e.fold env.evaluator = .ok folded) :
    Compilation.query env e .initial =
      (Compilation.rows env folded >>= Compilation.flattened) (Scope.initial.declare folded) := by
  unfold Compilation.query
  rw [hfold]
  rfl

theorem exists_fold_of_query {env : Environment} {e : Expr} {q : Query} {t : Scope}
    (h : Compilation.query env e .initial = (.ok q, t)) :
    ∃ folded, e.fold env.evaluator = .ok folded := by
  cases hf : e.fold env.evaluator with
  | ok folded => exact ⟨folded, rfl⟩
  | error error =>
    unfold Compilation.query at h
    rw [hf] at h
    cases h

/-- The names of merged layers do not occur in the query of a stage. -/
theorem Staged.notMem_merged {F : Frame} {t t' : Scope} {final : Prop} {st st' : Stage}
    (h : κ.Staged F t t' final st st') {q : Query} (hq : st.toQuery = .ok q) :
    ∀ n ∈ st.merged ++ t.merged, n ∉ q.names := by
  intro n hn
  rcases List.mem_append.mp hn with hn | hn
  · exact (h.alike.notMem_merged hq hn).1
  · exact fun hq' => (Scope.mem_live.mp (h.left (Stage.names_toQuery hq hq'))).2 hn

/-- **The queries of renamed expressions come out alike**, and without the names of merged layers.
What the right side knows of its parameters holds of all of them. -/
theorem Sound.renamed (hκ : κ.Sound) {B : Binders} (hstrict : B.strict)
    (hB : κ.exact → ∀ x y, B.names x y → x = y)
    {e e' folded folded' : Expr} (hfold : e.fold κ.left.evaluator = .ok folded)
    (hfold' : e'.fold κ.right.evaluator = .ok folded') (hren : folded.Renamed κ.exact B folded')
    (hadm : κ.admits folded) {r : Query} {t' : Scope}
    (h : Compilation.query κ.right e' .initial = (.ok r, t')) :
    (∃ q t, Compilation.query κ.left e .initial = (.ok q, t) ∧
      Query.Alike (κ.likeness t'.parameters .empty) [] q r ∧ (∀ n ∈ t.merged, n ∉ q.names) ∧
        ∀ p ∈ t'.parameters, κ.reports p) ∨
      κ.lax ∧ ∃ error t, Compilation.query κ.left e .initial = (.error error, t) := by
  rw [query_eq _ hfold', Compilation.run_bind] at h
  rw [query_eq _ hfold, Compilation.run_bind]
  have hscopes : κ.Scopes (Frame.empty.enter B) (Scope.initial.declare folded)
      (Scope.initial.declare folded') :=
    .declare hstrict hB fun hn => hren.eq_of_exact (κ.named_exact hn) (hB (κ.named_exact hn))
  rcases hrows : Compilation.rows κ.right folded' (Scope.initial.declare folded') with
    ⟨error | st', u'⟩
  · rw [hrows] at h
    cases h
  rw [hrows] at h
  dsimp only at h
  rw [flattened_eq] at h
  cases hr : st'.toQuery with
  | error error =>
    rw [hr] at h
    cases h
  | ok r' =>
    rw [hr] at h
    cases h
    have hmethods : (Scope.initial.declare folded).methods =
        (Scope.initial.declare folded').methods := by
      rw [declare_methods, declare_methods]
    rcases hκ.rows folded (F := Frame.empty.enter B) hren hadm hscopes hmethods (.declare _ _)
      (fun _ => ⟨declare_bindings _, declare_bindings _⟩) st' u' hrows with ⟨st, u, hleft, hstep,
        hstaged⟩ | ⟨hlax, error, u, hleft⟩
    · obtain ⟨q, hq, halike⟩ := hstaged.alike.toQuery hr
      have hreported := hstep.reported fun p hp => by
        rw [declare_parameters] at hp
        cases hp
      refine .inl ⟨q, { u with merged := st.merged ++ u.merged }, ?_, halike,
        hstaged.notMem_merged hq, hreported⟩
      rw [hleft]
      dsimp only
      rw [flattened_eq, hq]
    · exact .inr ⟨hlax, error, u, by rw [hleft]⟩

/-- **The queries of an expression come out alike.** -/
theorem Sound.query (hκ : κ.Sound) {e folded : Expr} (hfold : e.fold κ.right.evaluator = .ok folded)
    (hadm : κ.admits folded) {r : Query} {t' : Scope}
    (h : Compilation.query κ.right e .initial = (.ok r, t')) :
    (∃ q t, Compilation.query κ.left e .initial = (.ok q, t) ∧
      Query.Alike (κ.likeness t'.parameters .empty) [] q r ∧ (∀ n ∈ t.merged, n ∉ q.names) ∧
        ∀ p ∈ t'.parameters, κ.reports p) ∨
      κ.lax ∧ ∃ error t, Compilation.query κ.left e .initial = (.error error, t) :=
  hκ.renamed (B := .same) trivial (fun _ _ _ => id) (κ.evaluator ▸ hfold) hfold
    (.refl Binders.same_refl _)
    hadm h

end Setting

end LambdaQuery
