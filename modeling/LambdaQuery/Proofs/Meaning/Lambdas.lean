import LambdaQuery.Proofs.Alike.Compilations
import LambdaQuery.Proofs.Alike.Constants
import LambdaQuery.Proofs.Json.Equality
import LambdaQuery.Proofs.Meaning.Chains
import LambdaQuery.Proofs.Meaning.Layers
import LambdaQuery.Proofs.Meaning.Names

/-!
# Lambdas over rows

A lambda of an operator is compiled with its parameters bound to scalars of rows. Its value is then
what the lambda by itself makes of the values of these scalars (`Scope.Valid.meaning`): the two
compilations are alike up to what the parameters stand for (`Setting.reading`).
-/

set_option autoImplicit false

namespace LambdaQuery

/-- Constants are literals, as they are written. -/
structure Environment.Plain (env : Environment) : Prop where
  parameters : env.options.parameters = []
  converters : ∀ m, env.options.naming.converter? m = none

/-- No converters are known unless a schema is given. -/
theorem Environment.plain_default (evaluator : Evaluator) :
    Environment.Plain ⟨.default, evaluator⟩ where
  parameters := rfl
  converters m := by
    show (Naming.info? ⟨.declared, []⟩ m).bind _ = none
    unfold Naming.info?
    cases m.owner.modelName? <;> rfl

theorem Environment.Plain.matched_eq {env : Environment} (h : env.Plain) (left right : Expr)
    (a b : Scalar) : Compilation.matched env.options.naming left right a b = pure (a, b) := by
  have hencoded : ∀ (e : Expr) (s : Scalar),
      Compilation.encoded env.options.naming e s = pure s := by
    intro e s
    have hnone : (Compilation.accessed? e).bind env.options.naming.converter? = none := by
      cases Compilation.accessed? e with
      | none => rfl
      | some m => exact h.converters m
    unfold Compilation.encoded
    rw [hnone]
  unfold Compilation.matched
  split
  · rw [hencoded]
    rfl
  split
  · rw [hencoded]
    rfl
  · rfl

/-! ## A compilation by itself beside one in a chain -/

namespace Setting

theorem reading_sound {env : Environment} (h : env.Plain) : (reading env).Sound := by
  have hsame : ∀ F, (reading env).Same ((reading env).Outcome F) := fun _ =>
    ⟨rfl, .inl h.parameters, fun _ => trivial⟩
  have hQ := Outcome.congruence (reading env)
  refine ⟨fun _ _ => (hsame _).constant (hQ _) _ _, fun _ _ => (hsame _).listed (hQ _) _ _,
    fun _ _ => (hsame _).constants (hQ _) _ _,
    fun {F} _ _ _ method _ _ => (hsame F).counts (fun _ _ => rfl) method _, ?_⟩
  intro F s s' left left' right right' a a' b b' _ _ _ _ ha hb _ _
  show (reading env).Runs s s' (Compilation.matched env.options.naming left right a b)
    (Compilation.matched env.options.naming left' right' a' b') _
  rw [h.matched_eq, h.matched_eq]
  exact .pure ⟨ha, hb⟩

end Setting

variable {V : Type} [DecidableEq V] {D : Database V}

/-! ## Parameters that stand for rows -/

/-- A scalar of names in use that parameters may stand for. -/
structure Scalar.IsRow (t : Scope) (s : Scalar) : Prop where
  names : s.names ⊆ t.names
  single : s.isAggregate = false

theorem Scalar.IsRow.mono {t t' : Scope} {s : Scalar} (h : s.IsRow t) (ht : t.names ⊆ t'.names) :
    s.IsRow t' :=
  ⟨List.Subset.trans h.names ht, h.single⟩

/-- Names that are not in use do not matter. -/
theorem Scalar.IsRow.eval_update {t : Scope} {s : Scalar} (h : s.IsRow t) {n : String}
    (hn : n ∉ t.names) (ρ : Valuation V) (v : V) :
    s.eval D (Function.update ρ n v) none = s.eval D ρ none := by
  refine Scalar.eval_congr s h.names (fun k hk => ?_) .none
  rw [Function.update_of_ne]
  rintro rfl
  exact hn hk

namespace Scope

/-- The parameters in scope, innermost first. -/
def params (t : Scope) : List String := t.bindings.map (·.1)

/-- Parameters stand for values made of names in use. -/
structure Valid (t : Scope) : Prop where
  names : ∀ b ∈ t.bindings, b.2.names ⊆ t.names
  single : ∀ b ∈ t.bindings, b.2.isAggregate = false
  operation : t.operation ≠ some .none

/-- The values are those of what the parameters stand for. -/
def Values (D : Database V) (t : Scope) (ρ values : Valuation V) : Prop :=
  ∀ x row, t.lookup? x = some row → values x = row.eval D ρ none

/-- Equal names correspond, and no operator has the group in scope for its source. -/
def outside (t : Scope) : Binders := ⟨Eq, fun x y => x = y ∧ t.groupRow? x = none, True⟩

/-- What the parameters stand for by themselves and in the scope. -/
def locals (t : Scope) : Frame :=
  ⟨t.bindings.map fun b => (.parameter b.1, (t.lookup? b.1).getD b.2), [], t.names, t.outside⟩

theorem lookup?_reading (t : Scope) (x : String) :
    Option.Rel (fun a row => a = .parameter x ∧ (x, row) ∈ t.bindings)
      ((Scope.reading t.depth t.params).lookup? x) (t.lookup? x) := by
  show Option.Rel _ (Record.get? ((t.bindings.map (·.1)).map fun p => (p, Scalar.parameter p)) x)
    (Record.get? t.bindings x)
  induction t.bindings with
  | nil => exact .none
  | cons b bs ih =>
    obtain ⟨y, row⟩ := b
    rw [List.map_cons, List.map_cons, Record.get?, Record.get?]
    split
    · rename_i he
      exact .some ⟨congrArg Scalar.parameter he, he ▸ List.mem_cons_self⟩
    · exact optionRel_mono (fun _ _ h => h.imp_right (List.mem_cons_of_mem _)) ih

/-- Parameters in scope stand for something. -/
theorem exists_lookup? {t : Scope} {b : String × Scalar} (hb : b ∈ t.bindings) :
    ∃ row, t.lookup? b.1 = some row ∧ (b.1, row) ∈ t.bindings := by
  cases h : t.lookup? b.1 with
  | some row => exact ⟨row, rfl, Record.mem_of_get? h⟩
  | none =>
    have hnone : ∀ {r : Record Scalar}, Record.get? r b.1 = none → b ∉ r := by
      intro r
      induction r with
      | nil => exact fun _ => List.not_mem_nil
      | cons c r ih =>
        intro hr hmem
        rw [Record.get?] at hr
        split at hr
        · cases hr
        · rename_i hne
          rcases List.mem_cons.mp hmem with rfl | hmem
          · exact hne rfl
          · exact ih hr hmem
    exact absurd hb (hnone h)

theorem mem_locals {t : Scope} {p : Scalar × Scalar} (hp : p ∈ t.locals.pairs) :
    ∃ x row, p = (.parameter x, row) ∧ t.lookup? x = some row ∧ (x, row) ∈ t.bindings := by
  obtain ⟨b, hb, rfl⟩ := List.mem_map.mp hp
  obtain ⟨row, hrow, hmem⟩ := exists_lookup? hb
  exact ⟨b.1, row, by rw [hrow]; rfl, hrow, hmem⟩

namespace Valid

variable {env : Environment} {t t' : Scope} (h : t.Valid)

include h

theorem scopes :
    (Setting.reading env).Scopes t.locals (.reading t.depth t.params) t := by
  constructor
  case lookup? =>
    rintro x _ rfl
    rcases optionRel_cases (t.lookup?_reading x) with ⟨h₁, h₂⟩ | ⟨a, row, h₁, h₂, rfl, hmem⟩
    · rw [h₁, h₂]
      exact .none
    · rw [h₁, h₂]
      exact .some (List.mem_map.mpr ⟨_, hmem, by rw [h₂]; rfl⟩)
  case groupRow? =>
    rintro x _ ⟨rfl, hx⟩
    rw [hx]
    exact .none
  case exact => exact fun _ _ _ => id
  case strict => trivial
  case facts =>
    intro p hp
    obtain ⟨x, row, rfl, -, hmem⟩ := mem_locals hp
    exact ⟨trivial, (h.single _ hmem).symm, fun h => (nomatch h), fun h => (nomatch h),
      fun _ => .inr trivial⟩
  case single =>
    intro _ p hp
    obtain ⟨x, row, rfl, -, hmem⟩ := mem_locals hp
    exact h.single _ hmem
  case names =>
    intro p hp
    obtain ⟨x, row, rfl, -, hmem⟩ := mem_locals hp
    exact ⟨List.nil_subset _, h.names _ hmem⟩
  case live =>
    intro p hp
    obtain ⟨x, row, rfl, -⟩ := mem_locals hp
    exact List.nil_subset _
  case left => exact List.nil_subset _
  case right => exact List.Subset.refl _
  case depth => rfl
  case named => exact False.elim
  case operation => exact fun h => nomatch h
  case operation' => exact h.operation
  case merged => exact List.nil_subset _

theorem reads (qs : List QueryParameter) (values : Valuation V) :
    ((Setting.reading env).likeness qs t.locals).Reads (D.withParameters values) D.parameter
      fun _ ρ => t.Values D ρ values where
  count _ _ h := congrArg D.size h
  single := by
    rintro a b (hab | ⟨hab, -⟩)
    · exact hab.elim
    · obtain ⟨x, row, he, -, hmem⟩ := mem_locals hab
      cases he
      exact ⟨rfl, h.single _ hmem⟩
  leaf := by
    rintro σ ρ a b g g' (hab | ⟨hab, -⟩) hρ
    · exact hab.elim
    · obtain ⟨x, row, he, hrow, hmem⟩ := mem_locals hab
      cases he
      exact (hρ x b hrow).trans (Scalar.eval_single ρ g' (h.single _ hmem)).symm
  bind := by
    intro σ ρ n m v hρ _ hm x row hrow
    have hmem := Record.mem_of_get? hrow
    rw [Scalar.IsRow.eval_update ⟨h.names _ hmem, h.single _ hmem⟩ hm]
    exact hρ x row hrow

/-- **An expression by itself has the value that it has in scope**, where its parameters have the
values that they stand for. -/
theorem meaning (hD : D.Lawful) (henv : env.Plain) {e : Expr} (he : e.Renamed True t.outside e)
    {b : Scalar} (hrun : Compilation.scalar env e t = (.ok b, t')) :
    ∃ f, e.meaning env D t.depth t.params = .ok f ∧
      (∀ ρ values, t.Values D ρ values → b.eval D ρ none = f values) ∧ t.Grows t' ∧
        b.names ⊆ t'.names ∧ (t.group = none → b.isAggregate = false) := by
  rcases (Setting.reading_sound henv).scalar e (F := t.locals) he trivial h.scopes b t' hrun with
    ⟨a, u, hleft, hstep, hab⟩ | ⟨hlax, -⟩
  · have hscalar : (Compilation.scalar env e (.reading t.depth t.params)).1 = .ok a :=
      congrArg Prod.fst hleft
    refine ⟨fun values => a.eval (D.withParameters values) D.nothing none,
      by rw [Expr.meaning, hscalar]; rfl, fun ρ values hρ => ?_, hstep.right, hab.right,
      fun hg => hab.single (hstep.right.group.trans hg)⟩
    exact (hab.alike.eval_eq (hD.withParameters values) (h.reads t'.parameters values)
      (fun p hp => nomatch hp) hρ).symm
  · exact hlax.elim

end Valid

end Scope

/-! ## Lambdas of chains -/

namespace Scope

/-- Outside of the lambdas of a chain, the parameters in scope are parameters of the query. -/
structure Around (L : Locals V) (t : Scope) : Prop where
  bindings : t.bindings = L.params.map fun p => (p, .parameter p)
  depth : t.depth = L.depth
  group : t.group = none
  operation : t.operation ≠ some .none

/-- Where no group is in scope, all operators are outside of one. -/
theorem outside_refl {t : Scope} (h : t.group = none) : t.outside.Refl :=
  ⟨fun _ => rfl, fun _ => ⟨rfl, by rw [groupRow?, h]⟩⟩

namespace Around

variable {env : Environment} {L : Locals V} {t t' : Scope} (h : t.Around L)

include h

omit [DecidableEq V] in
theorem params : t.params = L.params := by
  rw [Scope.params, h.bindings, List.map_map]
  exact List.map_id _

theorem values (hL : D.parameter = L.values) (ρ : Valuation V) : t.Values D ρ L.values := by
  intro x row hrow
  have hmem : (x, row) ∈ t.bindings := Record.mem_of_get? hrow
  rw [h.bindings] at hmem
  obtain ⟨p, -, hp⟩ := List.mem_map.mp hmem
  cases hp
  exact (congrFun hL x).symm

omit [DecidableEq V] in
theorem valid : t.Valid where
  names b hb := by
    rw [h.bindings] at hb
    obtain ⟨p, -, rfl⟩ := List.mem_map.mp hb
    exact List.nil_subset _
  single b hb := by
    rw [h.bindings] at hb
    obtain ⟨p, -, rfl⟩ := List.mem_map.mp hb
    rfl
  operation := h.operation

end Around

/-- Another parameter may stand for a row. -/
theorem Valid.bindTo {t : Scope} (h : t.Valid) {row : Scalar} (hrow : row.IsRow t) (x : String) :
    (t.bindTo x row).Valid where
  names := List.forall_mem_cons.mpr ⟨hrow.names, h.names⟩
  single := List.forall_mem_cons.mpr ⟨hrow.single, h.single⟩
  operation := h.operation

theorem Values.bindTo {t : Scope} {ρ values : Valuation V} (h : t.Values D ρ values) (x : String)
    (row : Scalar) :
    (t.bindTo x row).Values D ρ (Function.update values x (row.eval D ρ none)) := by
  intro y row' hy
  have hy : (if x = y then some row else t.lookup? y) = some row' := hy
  split at hy
  · rename_i he
    rw [← he, Function.update_self, ← Option.some.inj hy]
  · rename_i he
    rw [Function.update_of_ne (Ne.symm he)]
    exact h y row' hy

namespace Around

variable {env : Environment} {L : Locals V} {t t' : Scope} (h : t.Around L) (hD : D.Lawful)
  (henv : env.Plain) (hL : D.parameter = L.values) {l : RowLambda} {row b : Scalar}
  (hrow : row.IsRow t)

include h hD henv hL hrow

/-- What a lambda makes of rows, when its parameter stands for them. -/
theorem ofRow (hrun : Compilation.scalar env l.body (t.bindTo l.param row) = (.ok b, t')) :
    ∃ f, l.ofRow env D L = .ok f ∧ (∀ ρ, b.eval D ρ none = f (row.eval D ρ none)) ∧
      (t.bindTo l.param row).Grows t' ∧ b.IsRow t' := by
  have hgroup : (t.bindTo l.param row).group = none := h.group
  obtain ⟨f, hf, hvalue, hgrows, hnames, hsingle⟩ := (h.valid.bindTo hrow l.param).meaning hD henv
    (.refl (outside_refl hgroup) _) hrun
  have hmeaning : l.body.meaning env D L.depth (l.param :: L.params) = .ok f := by
    rw [← h.depth, ← h.params]
    exact hf
  exact ⟨fun v => f (Function.update L.values l.param v), by rw [RowLambda.ofRow, hmeaning]; rfl,
    fun ρ => hvalue ρ _ ((h.values hL ρ).bindTo l.param row), hgrows, hnames, hsingle hgroup⟩

/-- What a lambda makes of rows and items of them, when its parameters stand for both. -/
theorem ofItem {param : String} {item : Scalar} (hitem : item.IsRow t)
    (hrun : Compilation.scalar env l.body ((t.bindTo param row).bindTo l.param item) =
      (.ok b, t')) :
    ∃ f, l.ofItem env D L param = .ok f ∧
      (∀ ρ, b.eval D ρ none = f (row.eval D ρ none) (item.eval D ρ none)) ∧
        ((t.bindTo param row).bindTo l.param item).Grows t' ∧ b.IsRow t' := by
  have hgroup : ((t.bindTo param row).bindTo l.param item).group = none := h.group
  have hvalid := (h.valid.bindTo hrow param).bindTo
    (⟨hitem.names, hitem.single⟩ : item.IsRow (t.bindTo param row)) l.param
  obtain ⟨f, hf, hvalue, hgrows, hnames, hsingle⟩ := hvalid.meaning hD henv
    (.refl (outside_refl hgroup) _) hrun
  have hmeaning : l.body.meaning env D L.depth (l.param :: param :: L.params) = .ok f := by
    rw [← h.depth, ← h.params]
    exact hf
  exact ⟨fun v w => f (Function.update (Function.update L.values param v) l.param w),
    by rw [RowLambda.ofItem, hmeaning]; rfl,
    fun ρ => hvalue ρ _ (((h.values hL ρ).bindTo param row).bindTo l.param item), hgrows, hnames,
    hsingle hgroup⟩

end Around

end Scope

end LambdaQuery
