import LambdaQuery.Proofs.Fresh
import LambdaQuery.Proofs.Operators
import Mathlib.Order.Defs.Unbundled

/-!
# Surroundings of compilations

The stacks of a scope are pushed and popped around the parts of a computation. However a compilation
ends, it leaves them as it found them; names and parameters are only added (`Scope.Grows`). The
scalar of an expression asks nothing of the caller either (`Scope.Extends`): an operator that does
is nested there. `Compilation.Leaves` says this of all runs of a computation, with one rule for each
way in which computations are put together; the induction is that of the compilation itself.
-/

set_option autoImplicit false

namespace LambdaQuery

/-! ## Scopes -/

/-- Parameters are in use once each, under names that a query may have for them. -/
structure Reportable (ps : List QueryParameter) : Prop where
  once : (ps.map (·.name)).Nodup
  named : ∀ p ∈ ps, isParameterName p.name = true

/-- What no computation takes back. -/
structure Scope.Grows (s t : Scope) : Prop where
  names : s.names ⊆ t.names
  parameters : s.parameters <+: t.parameters
  bindings : t.bindings = s.bindings
  methods : t.methods = s.methods
  collections : t.collections = s.collections
  depth : t.depth = s.depth
  group : t.group = s.group
  operation : s.operation ≠ some .none → t.operation ≠ some .none
  /-- A nested query asks nothing of the caller. -/
  silent : s.depth ≠ 0 → t.operation = s.operation
  reports : Reportable s.parameters → Reportable t.parameters

/-- Besides, nothing is asked of the caller. -/
structure Scope.Extends (s t : Scope) : Prop extends s.Grows t where
  asked : t.operation = s.operation

namespace Scope

variable {s t u : Scope}

theorem Grows.refl (s : Scope) : s.Grows s :=
  ⟨List.Subset.refl _, List.prefix_rfl, rfl, rfl, rfl, rfl, rfl, id, fun _ => rfl, id⟩

theorem Grows.trans (h : s.Grows t) (h' : t.Grows u) : s.Grows u where
  names := List.Subset.trans h.names h'.names
  parameters := h.parameters.trans h'.parameters
  bindings := h'.bindings.trans h.bindings
  methods := h'.methods.trans h.methods
  collections := h'.collections.trans h.collections
  depth := h'.depth.trans h.depth
  group := h'.group.trans h.group
  operation hs := h'.operation (h.operation hs)
  silent hs := (h'.silent (h.depth.symm ▸ hs)).trans (h.silent hs)
  reports := h'.reports ∘ h.reports

instance : IsPreorder Scope Grows where
  refl := .refl
  trans _ _ _ := .trans

theorem Extends.refl (s : Scope) : s.Extends s := ⟨.refl s, rfl⟩

instance : IsPreorder Scope Extends where
  refl := .refl
  trans _ _ _ h h' := ⟨h.toGrows.trans h'.toGrows, h'.asked.trans h.asked⟩

/-! ### What is popped is what was pushed -/

theorem Grows.popMethod {method : String} (h : (s.pushMethod method).Grows t) :
    t.popMethod = { t with methods := s.methods } := by
  rw [Scope.popMethod, h.methods]
  rfl

theorem Grows.popCollection {c : Collection} (h : (s.pushCollection c).Grows t) :
    t.popCollection = { t with collections := s.collections } := by
  rw [Scope.popCollection, h.collections]
  rfl

theorem Grows.unbind {name : String} {target : Scalar} (h : (s.bindTo name target).Grows t) :
    t.unbind = { t with bindings := s.bindings } := by
  rw [Scope.unbind, h.bindings]
  rfl

theorem Grows.exitSubquery (h : s.enterSubquery.Grows t) :
    t.exitSubquery s.methods = { t with depth := s.depth, methods := s.methods } := by
  rw [Scope.exitSubquery, h.depth]
  rfl

/-! ### Scopes after what was pushed is popped -/

theorem Grows.afterMethod {method : String} (h : (s.pushMethod method).Grows t) :
    s.Grows t.popMethod := by
  rw [h.popMethod]
  exact { h with methods := rfl }

theorem Grows.afterCollection {c : Collection} (h : (s.pushCollection c).Grows t) :
    s.Grows t.popCollection := by
  rw [h.popCollection]
  exact { h with collections := rfl }

theorem Grows.afterLambda {name : String} {target : Scalar} (h : (s.bindTo name target).Grows t) :
    s.Grows t.unbind := by
  rw [h.unbind]
  exact { h with bindings := rfl }

theorem extends_fresh (s : Scope) (base : String) : s.Extends (s.fresh base).2 := by
  rw [s.fresh_eq]
  exact { Extends.refl s with names := List.subset_cons_self .. }

theorem grows_fresh (s : Scope) (base : String) : s.Grows (s.fresh base).2 :=
  (s.extends_fresh base).toGrows

/-- A relation on scopes that lasts while surroundings are pushed and popped. -/
class Restoring (R : Scope → Scope → Prop) : Prop extends IsPreorder Scope R where
  of_extends {s t : Scope} : s.Extends t → R s t
  afterMethod {s t : Scope} {method : String} : R (s.pushMethod method) t → R s t.popMethod
  afterCollection {s t : Scope} {c : Collection} : R (s.pushCollection c) t → R s t.popCollection
  afterLambda {s t : Scope} {name : String} {target : Scalar} :
    R (s.bindTo name target) t → R s t.unbind

instance : Restoring Grows where
  of_extends h := h.toGrows
  afterMethod h := h.afterMethod
  afterCollection h := h.afterCollection
  afterLambda h := h.afterLambda

instance : Restoring Extends where
  of_extends := id
  afterMethod h := { h.toGrows.afterMethod with asked := h.asked }
  afterCollection h := { h.toGrows.afterCollection with asked := h.asked }
  afterLambda h := { h.toGrows.afterLambda with asked := h.asked }

end Scope

/-! ### Parameters of the query -/

/-- The name of a parameter in the query: with an at sign. -/
def BoundParameter.queryName (p : BoundParameter) : String :=
  if Text.startsWith p.name "@" then p.name else "@" ++ p.name

/-- The scope with a parameter in use, unless one of that name is. -/
def Scope.useParameter (s : Scope) (p : QueryParameter) : Scope :=
  if s.parameters.any (·.name == p.name) then s else { s with parameters := s.parameters ++ [p] }

namespace Scope

variable {s : Scope} {p : QueryParameter}

theorem reportable_useParameter (h : Reportable s.parameters) (hp : isParameterName p.name = true) :
    Reportable (s.useParameter p).parameters := by
  unfold Scope.useParameter
  split
  · exact h
  · rename_i hnew
    have hfresh : p.name ∉ s.parameters.map (·.name) := fun hmem =>
      have ⟨q, hq, hname⟩ := List.mem_map.mp hmem
      hnew (List.any_eq_true.mpr ⟨q, hq, beq_iff_eq.mpr hname⟩)
    refine ⟨?_, List.forall_mem_append.mpr ⟨h.named, List.forall_mem_singleton.mpr hp⟩⟩
    rw [List.map_append]
    exact h.once.append (List.nodup_singleton _) (List.disjoint_singleton.mpr hfresh)

theorem grows_useParameter (s : Scope) (hp : isParameterName p.name = true) :
    s.Grows (s.useParameter p) := by
  have hreports := fun h : Reportable s.parameters => reportable_useParameter h hp
  unfold Scope.useParameter at hreports ⊢
  by_cases hused : s.parameters.any (·.name == p.name) = true
  · rw [if_pos hused]
    exact .refl s
  · rw [if_neg hused] at hreports ⊢
    exact { Grows.refl s with parameters := List.prefix_append .., reports := hreports }

end Scope

namespace Compilation

variable {α β : Type}

theorem bindConstant_eq (options : Options) (v : Value) (s : Scope) :
    bindConstant options v s =
      match options.parameters.find? (·.value == v) with
      | none => (.ok none, s)
      | some bound =>
        if isParameterName bound.queryName then
          (.ok (some bound.queryName), s.useParameter ⟨bound.queryName, v.toJson⟩)
        else (.error (.unsupported (.parameterName bound.name)), s) := by
  unfold bindConstant
  cases options.parameters.find? (·.value == v) with
  | none => rfl
  | some bound =>
    dsimp only
    by_cases hn : isParameterName bound.queryName = true
    · have hn' : ¬(!isParameterName bound.queryName) = true := by simp [hn]
      rw [if_pos hn]
      unfold BoundParameter.queryName at hn'
      rw [if_neg hn']
      rfl
    · have hn' : (!isParameterName bound.queryName) = true := by simpa using hn
      rw [if_neg hn]
      unfold BoundParameter.queryName at hn'
      rw [if_pos hn']
      rfl

/-! ## Computations -/

theorem run_bind (x : Compilation α) (f : α → Compilation β) (s : Scope) :
    (x >>= f) s =
      match x s with
      | (.ok a, t) => f a t
      | (.error e, t) => (.error e, t) := by
  simp only [Bind.bind, ExceptT.bind, ExceptT.mk, ExceptT.bindCont, StateT.bind]
  rcases x s with ⟨_ | _, t⟩ <;> rfl

/-- However the computation ends, the scope afterwards is `R` to the one before. -/
def Leaves (R : Scope → Scope → Prop) (x : Compilation α) : Prop := ∀ s, R s (x s).2

namespace Leaves

variable {R : Scope → Scope → Prop} {x : Compilation α}

theorem run {s t : Scope} {r : Except CompileError α} (h : x.Leaves R) (hx : x s = (r, t)) :
    R s t := by
  simpa only [hx] using h s

section

variable [IsPreorder Scope R]

protected theorem pure (a : α) : (pure a : Compilation α).Leaves R := fun s => refl_of R s

protected theorem throw (e : CompileError) : (throw e : Compilation α).Leaves R :=
  fun s => refl_of R s

protected theorem get : (get : Compilation Scope).Leaves R := fun s => refl_of R s

protected theorem ofExcept (x : Except CompileError α) : (ofExcept x : Compilation α).Leaves R := by
  intro s
  cases x <;> exact refl_of R s

protected theorem ofHost (x : Except HostError α) : (ofHost x).Leaves R := .ofExcept _

protected theorem edit (stage : Stage) (change : Stage.Edit Unit) :
    (Compilation.edit stage change).Leaves R := by
  unfold Compilation.edit
  split
  · exact .pure _
  · exact .throw _

protected theorem bind {f : α → Compilation β} (h : x.Leaves R) (hf : ∀ a, (f a).Leaves R) :
    (x >>= f).Leaves R := by
  intro s
  have hs := h s
  rw [run_bind]
  rcases hx : x s with ⟨_ | a, t⟩
  · rwa [hx] at hs
  · rw [hx] at hs
    exact trans_of R hs (hf a t)

/-- A condition that is refused. -/
theorem refuse {c : Prop} [Decidable c] {e : CompileError} {f : PUnit → Compilation α}
    (h : ∀ u, (f u).Leaves R) : (if c then throw e >>= f else f ⟨⟩).Leaves R := by
  split
  · exact .bind (.throw e) h
  · exact h ⟨⟩

theorem requireLast (method : String) : (Compilation.requireLast method).Leaves R :=
  .bind .get fun s => by
    cases s.isOutermost with
    | true => exact .pure ()
    | false => exact .throw _

end

/-! ### Surroundings -/

theorem withGroup {g : GroupScope} (h : x.Leaves Scope.Extends) :
    (Compilation.withGroup g x).Leaves Scope.Extends := fun s =>
  { h (s.setGroup (some g)) with group := rfl }

section

variable [Scope.Restoring R]

theorem restoring (h : x.Leaves Scope.Extends) : x.Leaves R :=
  fun s => Scope.Restoring.of_extends (h s)

theorem withMethod {method : String} (h : x.Leaves R) :
    (Compilation.withMethod method x).Leaves R := fun s =>
  Scope.Restoring.afterMethod (h (s.pushMethod method))

theorem withCollection {c : Collection} (h : x.Leaves R) :
    (Compilation.withCollection c x).Leaves R := fun s =>
  Scope.Restoring.afterCollection (h (s.pushCollection c))

theorem withParameter {name : String} {target : Scalar} (h : x.Leaves R) :
    (Compilation.withParameter name target x).Leaves R := fun s =>
  Scope.Restoring.afterLambda (h (s.bindTo name target))

theorem withRow {name : String} {stage : Stage} {act : Stage → Compilation α}
    (h : ∀ stage, (act stage).Leaves R) :
    (Compilation.withRow name stage act).Leaves R := fun s => by
  have hbound : ∀ {s' : Scope} {target : Scalar} {stage : Stage}, s.Extends s' →
      R s (act stage (s'.bindTo name target)).2.unbind := fun {s' target stage} hs =>
    trans_of R (Scope.Restoring.of_extends hs)
      (Scope.Restoring.afterLambda (h stage (s'.bindTo name target)))
  unfold Compilation.withRow Scope.bind
  rcases s.collections with _ | ⟨_ | path, cs⟩
  · exact hbound (.refl s)
  · exact hbound (.refl s)
  · exact hbound (s.extends_fresh name)

theorem fresh (base : String) : (Compilation.fresh base).Leaves R :=
  fun s => Scope.Restoring.of_extends (s.extends_fresh base)

end

/-- What a nested query asks of the caller is dropped. -/
theorem nested (h : x.Leaves Scope.Grows) :
    (Compilation.nested x).Leaves Scope.Extends := fun s => by
  have hg := h s.enterSubquery
  show s.Extends ((x s.enterSubquery).2.exitSubquery s.methods)
  rw [hg.exitSubquery]
  exact {
    names := hg.names
    parameters := hg.parameters
    bindings := hg.bindings
    methods := rfl
    collections := hg.collections
    depth := rfl
    group := hg.group
    operation := hg.operation
    silent := fun _ => hg.silent (Nat.succ_ne_zero _)
    reports := hg.reports
    asked := hg.silent (Nat.succ_ne_zero _) }

/-! ### Changes of the scope -/

theorem flattened (stage : Stage) : (Compilation.flattened stage).Leaves Scope.Extends := by
  refine .bind (.ofExcept _) fun query => .bind (fun s => ?_) fun _ => .pure query
  exact { Scope.Grows.refl s with asked := rfl }

theorem setOperation {op : ClientOperation} (hop : op ≠ .none) :
    (Compilation.setOperation op).Leaves Scope.Grows := fun s => by
  unfold Compilation.setOperation
  rw [run_bind]
  show s.Grows ((if s.inSubquery = true then _ else _ : Compilation Unit) s).2
  split
  · exact .refl s
  rename_i hdepth
  cases s.operation with
  | some existing =>
    dsimp only
    split
    · exact .refl s
    · exact .refl s
  | none =>
    show s.Grows { s with operation := some op }
    exact {
      Scope.Grows.refl s with
      operation := fun _ => by simpa using hop
      silent := fun h => absurd (bne_iff_ne.mpr h) hdepth }

theorem bindConstant (options : Options) (v : Value) :
    (Compilation.bindConstant options v).Leaves Scope.Extends := fun s => by
  rw [bindConstant_eq]
  split
  · exact refl_of _ s
  split
  · rename_i hp
    refine ⟨s.grows_useParameter hp, ?_⟩
    unfold Scope.useParameter
    split <;> rfl
  · exact refl_of _ s

/-- A constant that may be bound to a parameter. -/
theorem bound (options : Options) (v : Value) {x : Compilation Scalar}
    (h : x.Leaves Scope.Extends) : (do
      match ← Compilation.bindConstant options v with
      | some name => return .parameter name
      | none => x : Compilation Scalar).Leaves Scope.Extends :=
  .bind (bindConstant options v) fun
    | some _ => .pure _
    | none => h

end Leaves

/-! ## Literals -/

section

variable (options : Options) (ty : HostType)

theorem leaves_inlined (naming : Naming) (v : Value) :
    (inlined naming ty v).Leaves Scope.Extends := by
  unfold inlined
  split
  · exact .bind (.ofHost _) fun _ => .ofExcept _
  · exact .throw _
  · exact .ofExcept _

theorem leaves_plain {v : Value} (hv : ∀ items, v ≠ .array items) :
    (constant options ty v).Leaves Scope.Extends := by
  rw [constant.eq_2 _ _ _ fun items he => hv items he]
  exact .refuse fun _ => .bound options v (leaves_inlined ty options.naming v)

mutual

theorem leaves_constant (ty : HostType) : ∀ v : Value, (constant options ty v).Leaves Scope.Extends
  | .array items => by
    rw [constant]
    exact .refuse fun _ => .bound options (.array items) (.bind (leaves_constants
      (ty.element?.getD .object) items) fun _ => .pure _)
  | .null | .boolean _ | .integer _ | .unsigned _ | .float _ | .decimal _ | .char _ | .string _
  | .guid _ | .geometry _ | .object _ | .query _ => leaves_plain options ty (by rintro _ ⟨⟩)

theorem leaves_constants (ty : HostType) :
    ∀ vs : List Value, (constants options ty vs).Leaves Scope.Extends
  | [] => .pure []
  | v :: vs => .bind (leaves_constant ty v) fun _ => .bind (leaves_constants ty vs) fun _ => .pure _

end

theorem leaves_count (method : String) (arg : Expr) :
    (count options method arg).Leaves Scope.Extends := by
  unfold count
  split
  · exact .throw _
  · refine .bind (.bindConstant options _) fun name => ?_
    cases name with
    | some name => exact .pure _
    | none =>
      dsimp only
      split
      · split
        · exact .pure _
        · exact .throw _
      · exact .throw _

end

/-! ## Builtin functions -/

section

variable {R : Scope → Scope → Prop} [IsPreorder Scope R] {o : Operand} {os : List Operand}

theorem leaves_all (h : ∀ o ∈ os, o.scalar.Leaves R) : (Builtin.all os).Leaves R := by
  unfold Builtin.all
  induction os with
  | nil => exact .pure []
  | cons o os ih =>
    obtain ⟨ho, hos⟩ := List.forall_mem_cons.mp h
    rw [List.mapM_cons]
    exact .bind ho fun _ => .bind (ih hos) fun _ => .pure _

theorem leaves_stringMethod? (name : String) (ho : o.scalar.Leaves R)
    (h : ∀ o ∈ os, o.scalar.Leaves R) : (Builtin.stringMethod? name o os).Leaves R := by
  unfold Builtin.stringMethod?
  refine .bind ho fun subject => ?_
  split
  · exact .bind (h _ (by simp)) fun _ => .pure _
  · exact .bind (h _ (by simp)) fun _ => .bind (h _ (by simp)) fun _ => .pure _
  · exact .bind (h _ (by simp)) fun _ => .bind (h _ (by simp)) fun _ => .pure _
  · exact .bind (h _ (by simp)) fun _ => .pure _
  · exact .bind (h _ (by simp)) fun _ => .bind (h _ (by simp)) fun _ => .pure _
  · exact .bind (h _ (by simp)) fun _ => .pure _
  · exact .bind (h _ (by simp)) fun _ => .pure _
  · exact .bind (h _ (by simp)) fun _ => .pure _
  · exact .pure _
  · split
    · exact .bind (h _ (by simp)) fun _ => .pure _
    · exact .pure none
  · split
    · exact .bind (h _ (by simp)) fun _ => .pure _
    · exact .pure none
  · exact .pure none

theorem leaves_itemsOf (ho : o.scalar.Leaves R) : (Builtin.itemsOf o).Leaves R := by
  refine .bind ho fun s => ?_
  split
  · exact .pure _
  · exact .pure _

theorem leaves_staticStringMethod? (name : String) (h : ∀ o ∈ os, o.scalar.Leaves R) :
    (Builtin.staticStringMethod? name os).Leaves R := by
  unfold Builtin.staticStringMethod?
  split
  · split
    · exact .bind (leaves_itemsOf (h _ (by simp))) fun _ => .pure _
    · exact .pure none
  · exact .bind (leaves_all h) fun _ => .pure _
  · exact .bind (h _ (by simp)) fun _ => .pure _
  · exact .bind (h _ (by simp)) fun _ => .pure _
  · exact .bind (h _ (by simp)) fun _ => .bind (h _ (by simp)) fun _ => .pure _
  · exact .bind (h _ (by simp)) fun _ => .bind (h _ (by simp)) fun _ => .pure _
  · exact .pure none

theorem leaves_mathMethod? (name : String) (h : ∀ o ∈ os, o.scalar.Leaves R) :
    (Builtin.mathMethod? name os).Leaves R := by
  unfold Builtin.mathMethod?
  split
  · exact .bind (leaves_all h) fun _ => .pure _
  · exact .pure none

theorem leaves_contains {p : Operand} (ho : o.scalar.Leaves R) (hp : p.scalar.Leaves R) :
    (Builtin.contains o p).Leaves R := by
  refine .bind ho fun sequence => ?_
  split
  · exact .pure _
  · exact .bind hp fun _ => .pure _
  · exact .bind hp fun _ => .pure _

theorem leaves_sequenceMethod? (name : String) {target : Option Operand}
    (h : ∀ o ∈ target.toList ++ os, o.scalar.Leaves R) :
    (Builtin.sequenceMethod? name target os).Leaves R := by
  unfold Builtin.sequenceMethod?
  generalize target.toList ++ os = ps at h
  split
  · exact .bind (leaves_contains (h _ (by simp)) (h _ (by simp))) fun _ => .pure _
  · exact .bind (h _ (by simp)) fun _ => .bind (h _ (by simp)) fun _ => .pure _
  · exact .bind (h _ (by simp)) fun _ => .pure _
  · exact .pure none

theorem leaves_typeCheck? (name : String) (h : ∀ o ∈ os, o.scalar.Leaves R) :
    (Builtin.typeCheck? name os).Leaves R := by
  unfold Builtin.typeCheck?
  dsimp only
  split
  · exact .pure none
  · exact .bind (h _ (by simp)) fun _ => .pure _
  · exact .throw _

theorem leaves_objectMethod? (name : String) {target : Option Operand}
    (h : ∀ o ∈ target.toList ++ os, o.scalar.Leaves R) :
    (Builtin.objectMethod? name target os).Leaves R := by
  unfold Builtin.objectMethod?
  split
  · exact .bind (h _ (by simp)) fun _ => .pure _
  · exact .bind (h _ (by simp)) fun _ => .bind (h _ (by simp)) fun _ => .pure _
  · exact .pure none

theorem leaves_call (method : Method) {target : Option Operand}
    (h : ∀ o ∈ target.toList ++ os, o.scalar.Leaves R) :
    (Builtin.call method target os).Leaves R := by
  have hos : ∀ o ∈ os, o.scalar.Leaves R := fun o ho => h o (List.mem_append_right _ ho)
  have hfound : (Builtin.find? method target os).Leaves R := by
    obtain ⟨declaring, name⟩ := method
    cases declaring with
    | queryable | userFunction | queryEscape | host => exact .pure none
    | enumerable | list => exact leaves_sequenceMethod? _ h
    | string =>
      cases target with
      | none => exact leaves_staticStringMethod? _ hos
      | some target => exact leaves_stringMethod? _ (h _ (by simp)) hos
    | math => exact leaves_mathMethod? _ hos
    | typeCheck => exact leaves_typeCheck? _ hos
    | object => exact leaves_objectMethod? _ h
  rw [Builtin.call_eq]
  refine .bind hfound fun found => ?_
  cases found with
  | none => exact .throw _
  | some a => exact .pure a

end

/-! ## Expressions and chains -/

theorem leaves_encoded (naming : Naming) (member : Expr) (a : Scalar) :
    (encoded naming member a).Leaves Scope.Extends := by
  unfold encoded
  split
  · exact .bind (.ofHost _) fun _ => .ofExcept _
  · exact .pure _

theorem leaves_matched (naming : Naming) (left right : Expr) (a b : Scalar) :
    (matched naming left right a b).Leaves Scope.Extends := by
  unfold matched
  split
  · exact .bind (leaves_encoded naming left b) fun _ => .pure _
  split
  · exact .bind (leaves_encoded naming right a) fun _ => .pure _
  · exact .pure (a, b)

section

variable {R : Scope → Scope → Prop} [Scope.Restoring R]

theorem leaves_layered (stage : Stage) (method : String) (argCount : Nat) :
    (layered stage method argCount).Leaves R := by
  unfold layered
  split
  · exact .bind (.fresh "r") fun _ => .pure _
  · exact .pure stage

section

variable {env : Environment} {n : Nat}
  (h : ∀ d, sizeOf d < n → (scalar env d).Leaves Scope.Extends ∧ (rows env d).Leaves Scope.Grows)

include h

theorem leaves_scalars {es : List Expr} (hn : sizeOf es ≤ n) :
    (scalars env es).Leaves Scope.Extends := by
  induction es with
  | nil =>
    rw [scalars]
    exact .pure []
  | cons e es ih =>
    simp only [List.cons.sizeOf_spec] at hn
    rw [scalars]
    exact .bind (h e (by omega)).1 fun _ => .bind (ih (by omega)) fun _ => .pure _

theorem leaves_properties {bindings : List Binding} (hn : sizeOf bindings ≤ n) :
    (properties env bindings).Leaves Scope.Extends := by
  induction bindings with
  | nil =>
    rw [properties]
    exact .pure []
  | cons binding rest ih =>
    simp only [List.cons.sizeOf_spec] at hn
    cases binding with
    | assign m value =>
      simp only [Binding.assign.sizeOf_spec] at hn
      rw [properties]
      exact .bind (h value (by omega)).1 fun _ => .bind (ih (by omega)) fun _ => .pure _
    | nested m bs =>
      rw [properties]
      exact .throw _
    | collect m es =>
      rw [properties]
      exact .throw _

theorem leaves_binary (op : BinaryOp) (left right : Expr) (ty : HostType)
    (hn : sizeOf left + sizeOf right ≤ n) : (binary env op left right ty).Leaves Scope.Extends := by
  have hl := left.sizeOf_pos
  have hr := right.sizeOf_pos
  rw [binary]
  split
  · rename_i a b hab op' _
    simp only at hab
    split
    · exact leaves_binary op' a b .boolean (by omega)
    · exact .throw _
  · exact .bind (h left (by omega)).1 fun a => .bind (h right (by omega)).1 fun b =>
      .bind (leaves_matched env.options.naming left right a b) fun _ => .ofExcept _
termination_by sizeOf left + sizeOf right

theorem leaves_userFunction {args : List Expr} (hn : sizeOf args ≤ n) :
    (userFunction env args).Leaves Scope.Extends := by
  rw [userFunction]
  refine .bind (.ofExcept _) fun name => ?_
  split
  · simp only [List.cons.sizeOf_spec, Expr.newArray.sizeOf_spec] at hn
    exact .bind (leaves_scalars h (by omega)) fun _ => .pure _
  · exact .bind (leaves_constants env.options .object _) fun _ => .pure _
  · simp only [List.cons.sizeOf_spec] at hn
    exact .bind (leaves_scalars h (by omega)) fun _ => .pure _
  · exact .pure _

theorem leaves_groupAggregate (method : String) {args : List Expr} (row : Scalar)
    (hn : sizeOf args ≤ n) : (groupAggregate env method args row).Leaves Scope.Extends := by
  rw [groupAggregate.eq_def]
  split
  · exact .pure _
  · exact .throw _
  split
  · exact .throw _
  · exact .pure _
  · exact .pure _
  · refine .bind (.ofExcept _) fun l => ?_
    have := l.smaller
    simp only [List.cons.sizeOf_spec] at hn
    exact .bind (.withParameter (h l.body (by omega)).1) fun _ => .pure _
  · exact .throw _

/-- The parameter of an operator's lambda, and what its body is compiled to. -/
theorem leaves_body {arg : Expr} (l : Selector arg) (stage : Stage)
    (hn : sizeOf arg ≤ n) :
    (withRow l.param stage fun stage => return (← scalar env l.body, stage)).Leaves R := by
  have := l.smaller
  exact .withRow fun _ => .bind (h l.body (by omega)).1.restoring fun _ => .pure _

theorem leaves_selected (method : String) {rest : List Expr} (stage : Stage)
    (hn : sizeOf rest ≤ n) : (selected env method rest stage).Leaves R := by
  rw [selected.eq_def]
  split
  · simp only [List.cons.sizeOf_spec] at hn
    exact .bind (.ofExcept _) fun l => leaves_body h l stage (by omega)
  · exact .throw _

theorem leaves_joined (e : Expr) (stage : Stage) (hn : sizeOf e < n) :
    (joined env e stage).Leaves R := by
  have hpath : (do
      let path ← scalar env e
      return stage.addJoin (← fresh "v") path : Compilation Stage).Leaves R :=
    .bind (h e hn).1.restoring fun _ => .bind (.fresh "v") fun _ => .pure _
  rw [joined.eq_def]
  split
  · split
    · split
      · split
        · rename_i source arg
          simp only [Expr.call.sizeOf_spec, List.cons.sizeOf_spec] at hn
          refine .bind (.ofExcept _) fun l => ?_
          have hbody : ∀ stage, (withRow l.param stage fun stage =>
              return (← scalar env l.body, stage)).Leaves R :=
            fun stage => leaves_body h l stage (by omega)
          -- Whether the body filters or selects makes no difference here.
          split
          all_goals
            dsimp only
            split
            · exact .bind (leaves_joined source stage (by omega)) fun stage =>
                .bind (hbody stage) fun _ => .pure _
            · exact .bind (h source (by omega)).1.restoring fun path =>
                .bind (.withCollection (hbody stage)) fun _ => .pure _
        · exact .throw _
      · exact .throw _
    · exact hpath
  · exact hpath
termination_by sizeOf e

theorem leaves_grouped {rest : List Expr} (stage : Stage) (hn : sizeOf rest ≤ n) :
    (grouped env rest stage).Leaves R := by
  rw [grouped.eq_def]
  split
  · rename_i keyArg resultArg
    simp only [List.cons.sizeOf_spec] at hn
    refine .bind (.ofExcept _) fun l => .bind (.ofExcept _) fun r => ?_
    have := r.smaller
    refine .bind (leaves_body h l stage (by omega)) fun p => ?_
    obtain ⟨key, keyed⟩ := p
    have hresult : (do
        let value ← withParameter r.key key (withGroup ⟨r.group, stage.layer.row⟩
          (scalar env r.body))
        let stage ← edit keyed (Stage.addGroupBy key)
        edit stage (Stage.addSelect (.ofValue value)) : Compilation Stage).Leaves R :=
      .bind (Leaves.withParameter (.withGroup (h r.body (by omega)).1)).restoring fun _ =>
        .bind (.edit _ _) fun _ => .edit _ _
    exact .refuse fun _ => hresult
  · exact .throw _

/-- Reductions alone ask anything of the caller. -/
theorem leaves_apply (method : String) {rest : List Expr} (stage : Stage) (hn : sizeOf rest ≤ n)
    (hset : method ∈ reductions → (setOperation .firstOrDefault).Leaves R) :
    (apply env method rest stage).Leaves R := by
  have hselected : ∀ {α : Type} {f : Scalar × Stage → Compilation α} (method : String),
      (∀ p, (f p).Leaves R) →
        (selected env method rest stage >>= f).Leaves R :=
    fun method hf => .bind (leaves_selected h method stage hn) hf
  have htotal : method ∈ reductions → ∀ (value : Scalar) (stage : Stage), (do
      let stage ← edit stage (Stage.addSelect (.ofValue value))
      setOperation .firstOrDefault
      return stage : Compilation Stage).Leaves R := fun hm value stage =>
    .bind (.edit _ _) fun stage => .bind (hset hm) fun _ => .pure stage
  have hcounted : method ∈ reductions → ∀ (any : Bool) (value : Scalar) (stage : Stage), (do
      if any && (← get).inSubquery then return stage
      let stage ← edit stage (Stage.addSelect (.ofValue value))
      setOperation .firstOrDefault
      return stage : Compilation Stage).Leaves R := by
    refine fun hm any value stage => .bind .get fun s => ?_
    split
    · exact .pure stage
    · exact htotal hm value stage
  have hfiltered : ∀ {f : Stage → Compilation Stage} (method : String),
      (∀ stage, (f stage).Leaves R) → (if rest.isEmpty = true then do
          let stage ← pure stage
          f stage
        else do
          let p ← selected env method rest stage
          let stage ← pure (p.2.addWhere p.1)
          f stage : Compilation Stage).Leaves R := by
    intro f method hf
    split
    · exact hf stage
    · exact hselected method fun p => hf _
  rw [apply.eq_def]
  split
  · exact hselected _ fun p => .pure _
  · exact hselected _ fun p => .edit _ _
  · split
    · simp only [List.cons.sizeOf_spec] at hn
      refine .bind (.ofExcept _) fun l => ?_
      have := l.smaller
      exact .withRow fun stage => leaves_joined h l.body stage (by omega)
    · exact .throw _
  · exact hselected _ fun p => .pure _
  · exact hselected _ fun p => .pure _
  · exact hselected _ fun p => .edit _ _
  · exact hselected _ fun p => .edit _ _
  · split
    · exact .bind (leaves_count env.options _ _).restoring fun _ => .edit _ _
    · exact .throw _
  · split
    · exact .bind (leaves_count env.options _ _).restoring fun _ => .edit _ _
    · exact .throw _
  · split
    · exact .pure _
    · exact .throw _
  · exact .refuse fun _ => .bind (.requireLast _) fun _ =>
      hfiltered _ (hcounted (by decide) false _)
  · exact .refuse fun _ => .bind (.requireLast _) fun _ =>
      hfiltered _ (hcounted (by decide) true _)
  · exact .refuse fun _ => .bind (.requireLast _) fun _ =>
      .bind (.edit _ _) fun stage => .bind (hset (by decide)) fun _ => .pure stage
  · exact leaves_grouped h stage hn
  split
  · exact .throw _
  · rename_i hf
    have hm := mem_reductions_of_aggregate? hf
    refine .refuse fun _ => .bind (.requireLast _) fun _ => ?_
    split
    · exact htotal hm _ stage
    · exact hselected _ fun p => htotal hm _ p.2

theorem leaves_operator (method : String) {args : List Expr} (hn : sizeOf args ≤ n) :
    (operator env method args).Leaves Scope.Grows := by
  cases args with
  | nil =>
    rw [operator]
    exact .throw _
  | cons source rest =>
    simp only [List.cons.sizeOf_spec] at hn
    rw [operator]
    exact .bind (h source (by omega)).2 fun input => .bind (.ofExcept _) fun _ =>
      .bind (leaves_layered input method _) fun stage =>
        .withCollection (leaves_apply h method stage (by omega) fun _ => .setOperation (by decide))

/-- The scalar of an expression, when the scalars and chains in it are compiled so. -/
theorem leaves_node {e : Expr} (hn : sizeOf e = n) : (scalar env e).Leaves Scope.Extends := by
  subst hn
  have hchild : ∀ {d}, d ∈ e.children → (scalar env d).Leaves Scope.Extends :=
    fun hd => (h _ (Expr.sizeOf_child hd)).1
  cases e with
  | constant value ty =>
    rw [scalar]
    exact leaves_constant env.options ty value
  | parameter name ty =>
    rw [scalar]
    refine .bind .get fun s => ?_
    split
    · exact .pure _
    · exact .throw _
  | member object m ty =>
    cases object with
    | none =>
      rw [scalar]
      exact .throw _
    | some object =>
      rw [scalar]
      exact .bind (hchild (List.mem_singleton_self object)) fun _ => .pure _
  | binary op left right ty =>
    rw [scalar]
    refine leaves_binary h op left right ty ?_
    simp only [Expr.binary.sizeOf_spec]
    omega
  | unary op operand ty =>
    rw [scalar]
    exact .bind (hchild (List.mem_singleton_self operand)) fun _ => .pure _
  | conditional test ifTrue ifFalse ty =>
    rw [scalar]
    exact .bind (hchild (by simp [Expr.children])) fun _ =>
      .bind (hchild (by simp [Expr.children])) fun _ =>
        .bind (hchild (by simp [Expr.children])) fun _ => .pure _
  | call target method args ty =>
    have hargs : sizeOf args ≤ sizeOf (Expr.call target method args ty) := by
      simp only [Expr.call.sizeOf_spec]
      omega
    rw [scalar]
    split
    · exact leaves_userFunction h hargs
    refine .bind .get fun s => ?_
    split
    · exact leaves_groupAggregate h method.name _ hargs
    split
    · exact .bind (.nested (.withMethod (leaves_operator h method.name hargs))) fun stage =>
        .bind (.flattened stage) fun _ => .pure _
    · have hoperands : ∀ d ∈ target.toList ++ args, (scalar env d).Leaves Scope.Extends :=
        fun _ hd => hchild hd
      cases target with
      | none => exact leaves_call method (by simpa using hoperands)
      | some target => exact leaves_call method (by simpa using hoperands)
  | construct args members ty =>
    have hvalue : (do
        ofExcept (← ofHost (env.evaluator (.construct args members ty))).toScalar :
        Compilation Scalar).Leaves Scope.Extends := .bind (.ofHost _) fun _ => .ofExcept _
    have hargs : sizeOf args ≤ sizeOf (Expr.construct args members ty) := by
      simp only [Expr.construct.sizeOf_spec]
      omega
    rw [scalar.eq_def]
    dsimp only
    split
    · exact hvalue
    split
    · split
      · exact .throw _
      · exact .bind (leaves_scalars h hargs) fun _ => .pure _
    · split
      · exact .pure _
      · exact .throw _
  | memberInit base bindings ty =>
    rw [scalar]
    refine .bind (leaves_properties h ?_) fun _ => .pure _
    simp only [Expr.memberInit.sizeOf_spec]
    omega
  | newArray items ty =>
    rw [scalar]
    refine .bind (leaves_scalars h ?_) fun _ => .pure _
    simp only [Expr.newArray.sizeOf_spec]
    omega
  | listInit | lambda | invoke =>
    rw [scalar]
    exact .throw _

theorem leaves_chain {e : Expr} (hn : sizeOf e = n) : (rows env e).Leaves Scope.Grows := by
  have hitems : (do
      let path ← scalar env e
      return .overItems (← fresh "v") path : Compilation Stage).Leaves Scope.Grows :=
    .bind (leaves_node h hn).restoring fun _ => .bind (.fresh "v") fun _ => .pure _
  rw [rows.eq_def]
  split
  · rename_i target method args ty
    split
    · refine .withMethod (leaves_operator h method.name ?_)
      simp only [Expr.call.sizeOf_spec] at hn
      omega
    refine .bind .get fun s => ?_
    split
    · exact hitems
    · exact .throw _
  · refine .bind .get fun s => ?_
    split
    · exact hitems
    split
    · exact .pure _
    · exact .throw _

end

end

variable (env : Environment)

theorem leaves (e : Expr) :
    (scalar env e).Leaves Scope.Extends ∧ (rows env e).Leaves Scope.Grows := by
  induction hn : sizeOf e using Nat.strongRecOn generalizing e with
  | ind n ih => exact ⟨leaves_node (fun d hd => ih _ hd d rfl) hn,
      leaves_chain (fun d hd => ih _ hd d rfl) hn⟩

/-- **No compilation leaks scopes.** However the scalar of an expression or the stage of a chain
ends, what parameters are bound to, the operators and collections around, the depth and the group
are those of before; names in use and parameters of the query have only been added; and the scalar
has asked nothing of the caller. -/
theorem surroundings_restored (e : Expr) (s : Scope) :
    s.Extends (scalar env e s).2 ∧ s.Grows (rows env e s).2 :=
  ⟨(leaves env e).1 s, (leaves env e).2 s⟩

end Compilation

end LambdaQuery
