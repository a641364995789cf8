import LambdaQuery.Proofs.Fresh

/-!
# Supply of names

A compilation takes the parameters of its expression, wherever they are (`Expr.HasParameter`), out
of the fresh names (`Scope.declare`) before it calls for the first one. Each call puts its name into
use, and no name ever goes out of use; so the names that are given differ from each other and from
all that were in use before (`Scope.Supplies`). Main statement: `Scope.fresh_supply`.
-/

set_option autoImplicit false

namespace LambdaQuery

/-! ## Parameters of expressions -/

mutual

/-- Somewhere in the expression a parameter of that name is used, or bound by a lambda. -/
inductive Expr.HasParameter (name : String) : Expr → Prop where
  | use {ty : HostType} : Expr.HasParameter name (.parameter name ty)
  | param {p : Param} {params : List Param} {body : Expr} (hp : p ∈ params)
    (hname : p.name = name) : Expr.HasParameter name (.lambda params body)
  | body {params : List Param} {body : Expr} (h : Expr.HasParameter name body) :
    Expr.HasParameter name (.lambda params body)
  | object {object : Expr} {accessed : Member} {ty : HostType} (h : Expr.HasParameter name object) :
    Expr.HasParameter name (.member (some object) accessed ty)
  | left {op : BinaryOp} {l r : Expr} {ty : HostType} (h : Expr.HasParameter name l) :
    Expr.HasParameter name (.binary op l r ty)
  | right {op : BinaryOp} {l r : Expr} {ty : HostType} (h : Expr.HasParameter name r) :
    Expr.HasParameter name (.binary op l r ty)
  | operand {op : UnaryOp} {d : Expr} {ty : HostType} (h : Expr.HasParameter name d) :
    Expr.HasParameter name (.unary op d ty)
  | test {t a b : Expr} {ty : HostType} (h : Expr.HasParameter name t) :
    Expr.HasParameter name (.conditional t a b ty)
  | ifTrue {t a b : Expr} {ty : HostType} (h : Expr.HasParameter name a) :
    Expr.HasParameter name (.conditional t a b ty)
  | ifFalse {t a b : Expr} {ty : HostType} (h : Expr.HasParameter name b) :
    Expr.HasParameter name (.conditional t a b ty)
  | target {target : Expr} {method : Method} {args : List Expr} {ty : HostType}
    (h : Expr.HasParameter name target) :
    Expr.HasParameter name (.call (some target) method args ty)
  | arg {target : Option Expr} {method : Method} {args : List Expr} {ty : HostType} {d : Expr}
    (hd : d ∈ args) (h : Expr.HasParameter name d) :
    Expr.HasParameter name (.call target method args ty)
  | constructed {args : List Expr} {members : Option (List Member)} {ty : HostType} {d : Expr}
    (hd : d ∈ args) (h : Expr.HasParameter name d) :
    Expr.HasParameter name (.construct args members ty)
  | initBase {base : Expr} {bindings : List Binding} {ty : HostType}
    (h : Expr.HasParameter name base) : Expr.HasParameter name (.memberInit base bindings ty)
  | binding {base : Expr} {bindings : List Binding} {ty : HostType} {b : Binding}
    (hb : b ∈ bindings) (h : Binding.HasParameter name b) :
    Expr.HasParameter name (.memberInit base bindings ty)
  | listBase {base : Expr} {items : List Expr} {ty : HostType} (h : Expr.HasParameter name base) :
    Expr.HasParameter name (.listInit base items ty)
  | listItem {base : Expr} {items : List Expr} {ty : HostType} {d : Expr} (hd : d ∈ items)
    (h : Expr.HasParameter name d) : Expr.HasParameter name (.listInit base items ty)
  | arrayItem {items : List Expr} {ty : HostType} {d : Expr} (hd : d ∈ items)
    (h : Expr.HasParameter name d) : Expr.HasParameter name (.newArray items ty)
  | invoked {target : Expr} {args : List Expr} {ty : HostType} (h : Expr.HasParameter name target) :
    Expr.HasParameter name (.invoke target args ty)
  | invokeArg {target : Expr} {args : List Expr} {ty : HostType} {d : Expr} (hd : d ∈ args)
    (h : Expr.HasParameter name d) : Expr.HasParameter name (.invoke target args ty)

inductive Binding.HasParameter (name : String) : Binding → Prop where
  | assign {member : Member} {value : Expr} (h : Expr.HasParameter name value) :
    Binding.HasParameter name (.assign member value)
  | nested {member : Member} {bindings : List Binding} {b : Binding} (hb : b ∈ bindings)
    (h : Binding.HasParameter name b) : Binding.HasParameter name (.nested member bindings)
  | collect {member : Member} {items : List Expr} {d : Expr} (hd : d ∈ items)
    (h : Expr.HasParameter name d) : Binding.HasParameter name (.collect member items)

end

variable {name : String}

theorem Expr.mem_parameterNamesList {d : Expr} {ds : List Expr} (hd : d ∈ ds)
    (h : name ∈ d.parameterNames) : name ∈ Expr.parameterNamesList ds := by
  induction hd with
  | head => exact List.mem_append_left _ h
  | tail _ _ ih => exact List.mem_append_right _ ih

theorem Binding.mem_parameterNamesList {b : Binding} {bs : List Binding} (hb : b ∈ bs)
    (h : name ∈ b.parameterNames) : name ∈ Binding.parameterNamesList bs := by
  induction hb with
  | head => exact List.mem_append_left _ h
  | tail _ _ ih => exact List.mem_append_right _ ih

mutual

/-- The names of parameters are collected from all places. -/
theorem Expr.HasParameter.mem : ∀ {e : Expr}, e.HasParameter name → name ∈ e.parameterNames
  | _, .use => List.mem_singleton_self _
  | _, .param hp hname => List.mem_append_left _ (List.mem_map.mpr ⟨_, hp, hname⟩)
  | _, .body h => List.mem_append_right _ h.mem
  | _, .object h => h.mem
  | _, .left h => List.mem_append_left _ h.mem
  | _, .right h => List.mem_append_right _ h.mem
  | _, .operand h => h.mem
  | _, .test h => List.mem_append_left _ (List.mem_append_left _ h.mem)
  | _, .ifTrue h => List.mem_append_left _ (List.mem_append_right _ h.mem)
  | _, .ifFalse h => List.mem_append_right _ h.mem
  | _, .target h => List.mem_append_left _ h.mem
  | _, .arg hd h => List.mem_append_right _ (Expr.mem_parameterNamesList hd h.mem)
  | _, .constructed hd h => Expr.mem_parameterNamesList hd h.mem
  | _, .initBase h => List.mem_append_left _ h.mem
  | _, .binding hb h => List.mem_append_right _ (Binding.mem_parameterNamesList hb h.mem)
  | _, .listBase h => List.mem_append_left _ h.mem
  | _, .listItem hd h => List.mem_append_right _ (Expr.mem_parameterNamesList hd h.mem)
  | _, .arrayItem hd h => Expr.mem_parameterNamesList hd h.mem
  | _, .invoked h => List.mem_append_left _ h.mem
  | _, .invokeArg hd h => List.mem_append_right _ (Expr.mem_parameterNamesList hd h.mem)

theorem Binding.HasParameter.mem :
    ∀ {b : Binding}, b.HasParameter name → name ∈ b.parameterNames
  | _, .assign h => h.mem
  | _, .nested hb h => Binding.mem_parameterNamesList hb h.mem
  | _, .collect hd h => Expr.mem_parameterNamesList hd h.mem

end

namespace Scope

variable {s t : Scope} {names : List String}

/-! ## Names in use -/

theorem mem_addName {n : String} : name ∈ (s.addName n).names ↔ name ∈ s.names ∨ name = n := by
  unfold addName
  split
  · rename_i hn
    have hmem : n ∈ s.names := List.contains_iff_mem.mp hn
    exact ⟨.inl, fun h => h.elim id fun h => h ▸ hmem⟩
  · rw [List.mem_cons, or_comm]

theorem mem_addNames : name ∈ (s.addNames names).names ↔ name ∈ s.names ∨ name ∈ names := by
  induction names generalizing s with
  | nil => simp [addNames]
  | cons n names ih =>
    show name ∈ ((s.addName n).addNames names).names ↔ _
    rw [ih, mem_addName, List.mem_cons, or_assoc]

/-- Names are given one after the other by calls for fresh ones, from the scope `s` on. In between
the scope may change, but no name goes out of use. -/
inductive Supplies : Scope → List String → Prop where
  | done {s : Scope} : Supplies s []
  | call {s t : Scope} {names : List String} (hkept : s.names ⊆ t.names) (base : String)
    (hrest : Supplies (t.fresh base).2 names) : Supplies s ((t.fresh base).1 :: names)

/-- A call keeps the names in use, and puts its own into use. -/
theorem names_fresh (s : Scope) (base : String) :
    (s.fresh base).2.names = (s.fresh base).1 :: s.names := by
  rw [fresh_eq]

theorem Supplies.notMem (h : s.Supplies names) : ∀ n ∈ names, n ∉ s.names := by
  induction h with
  | done => exact fun _ hn => nomatch hn
  | @call s t names hkept base _ ih =>
    refine List.forall_mem_cons.mpr ⟨fun hn => t.fresh_notMem base (hkept hn), fun n hn hs => ?_⟩
    refine ih n hn ?_
    rw [names_fresh]
    exact List.mem_cons_of_mem _ (hkept hs)

theorem Supplies.nodup (h : s.Supplies names) : names.Nodup := by
  induction h with
  | done => exact List.nodup_nil
  | @call s t names _ base hrest ih =>
    refine List.nodup_cons.mpr ⟨fun hn => hrest.notMem _ hn ?_, ih⟩
    rw [names_fresh]
    exact List.mem_cons_self

/-- **Fresh names are fresh.** A call for a fresh name gives the base with the least number that
makes a name not in use, which is no greater than the number of names in use, and puts that name
into use, and nothing else. So the names that any calls give in the compilation of an expression
differ from each other, from the name of the root and from those of all parameters in the
expression. -/
theorem fresh_supply (e : Expr) :
    (∀ (s : Scope) (base : String), ∃ n ≤ s.names.length,
        IsLeast {k | base ++ toString k ∉ s.names} n ∧ base ++ toString n ≠ base ∧
          s.fresh base =
            (base ++ toString n, { s with names := (base ++ toString n) :: s.names })) ∧
      ∀ names, (Scope.initial.declare e).Supplies names →
        names.Nodup ∧ ∀ name ∈ names, name ≠ Stage.rootName ∧ ¬e.HasParameter name := by
  constructor
  · intro s base
    obtain ⟨n, hlength, hn, hname⟩ := s.fresh_isLeast base
    refine ⟨n, hlength, hn, fun h => Nat.repr_ne_empty (String.append_eq_left_iff.mp h), ?_⟩
    rw [← hname]
    exact Prod.ext rfl (s.fresh_eq base)
  · intro names h
    refine ⟨h.nodup, fun name hname => ?_⟩
    have hnew := h.notMem name hname
    rw [declare, mem_addNames, not_or] at hnew
    exact ⟨fun hroot => hnew.1 (hroot ▸ List.mem_cons_self), fun hparam => hnew.2 hparam.mem⟩

/-- A lambda deep inside the bindings of an object takes ten names, and the base `v1` makes the same
name with zero as the base `v` with ten. -/
theorem fresh_supply_nested :
    let item : Member := ⟨.model "Row", "Item"⟩
    let params := ["v0", "v1", "v2", "v3", "v4", "v5", "v6", "v7", "v8", "v9"]
    let callback : Expr := .lambda (params.map (⟨·, .int32⟩)) (.parameter "v9" .int32)
    let e : Expr := .memberInit (.construct [] none (.model "Row"))
      [.nested item [.nested item [.assign item callback]]] (.model "Row")
    (Scope.initial.declare e).Supplies ["v10", "v11", "r0"] ∧
      ["v10", "v11", "r0"].Nodup ∧
        ∀ name ∈ ["v10", "v11", "r0"], name ≠ Stage.rootName ∧ ¬e.HasParameter name := by
  intro item params callback e
  let s := Scope.initial.declare e
  let t := (s.fresh "v").2
  let u := (t.fresh "v1").2
  have hnames : [(s.fresh "v").1, (t.fresh "v1").1, (u.fresh "r").1] = ["v10", "v11", "r0"] := by
    decide
  have hs : s.Supplies ["v10", "v11", "r0"] := hnames ▸
    .call (List.Subset.refl s.names) "v" (.call (List.Subset.refl t.names) "v1"
      (.call (List.Subset.refl u.names) "r" .done))
  exact ⟨hs, (fresh_supply e).2 _ hs⟩

end Scope

end LambdaQuery
