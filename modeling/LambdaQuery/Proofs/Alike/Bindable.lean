import LambdaQuery.Proofs.Alike.Inlined
import LambdaQuery.Proofs.Json.Equality

/-!
# Expressions that may be bound

An expression is `Bindable` if it is compiled alike with parameters and without: its constants have
the JSON of whatever is registered and equals them, no call tests for containment, and what a member
with a converter is compared with is nothing that a parameter may stand for, since a converter sees
a literal, but not a parameter. Scalars that are parameters come from expressions that say so
(`Compilation.gives_mayBeBound`).
-/

set_option autoImplicit false

namespace LambdaQuery

def Scalar.isParameter : Scalar → Bool
  | .parameter _ => true
  | _ => false

theorem Scalar.Data.isParameter {s : Scalar} (h : s.Data) : s.isParameter = false := by
  cases h <;> rfl

/-! ## Constants -/

mutual

/-- What is registered and equals the value, or an item of it, has the same JSON, which is plain. -/
def Value.Agrees (o : Options) (ty : HostType) : Value → Prop
  | .array items => (∀ p ∈ o.parameters, (p.value == .array items) = true →
      p.value.toJson = (Value.array items).toJson ∧ (Value.array items).Plain o.naming ty) ∧
        Value.AllAgree o (ty.element?.getD .object) items
  | v => ∀ p ∈ o.parameters, (p.value == v) = true →
      p.value.toJson = v.toJson ∧ v.Plain o.naming ty

def Value.AllAgree (o : Options) (ty : HostType) : List Value → Prop
  | [] => True
  | v :: vs => v.Agrees o ty ∧ Value.AllAgree o ty vs

end

/-- A registered value that equals one that agrees has its JSON. -/
theorem Value.Agrees.of_find? {o : Options} {ty : HostType} {v : Value} (hv : v.Agrees o ty)
    {p : BoundParameter} (h : o.parameters.find? (·.value == v) = some p) :
    p ∈ o.parameters ∧ p.value.toJson = v.toJson ∧ v.Plain o.naming ty := by
  have hmem := List.mem_of_find?_eq_some h
  have heq : (p.value == v) = true :=
    List.find?_some (p := fun q : BoundParameter => q.value == v) h
  refine ⟨hmem, ?_⟩
  cases v with
  | array items => exact hv.1 p hmem heq
  | _ => exact hv p hmem heq

mutual

/-- Without a type there is nothing to be named. -/
theorem Value.Agrees.object {o : Options} :
    ∀ {v : Value} {ty : HostType}, v.Agrees o ty → v.Agrees o .object
  | .array _, _, hv =>
    ⟨fun p hp heq => ⟨(hv.1 p hp heq).1, Value.plain_object _ _⟩, Value.AllAgree.object hv.2⟩
  | .null, _, hv | .boolean _, _, hv | .integer _, _, hv | .unsigned _, _, hv | .float _, _, hv
  | .decimal _, _, hv | .char _, _, hv | .string _, _, hv | .guid _, _, hv | .geometry _, _, hv
  | .object _, _, hv | .query _, _, hv => fun p hp heq =>
    ⟨(hv p hp heq).1, Value.plain_object _ _⟩

theorem Value.AllAgree.object {o : Options} :
    ∀ {vs : List Value} {ty : HostType}, Value.AllAgree o ty vs → Value.AllAgree o .object vs
  | [], _, _ => trivial
  | _ :: _, _, hv => ⟨Value.Agrees.object hv.1, Value.AllAgree.object hv.2⟩

end

mutual

/-- Exact values agree with whatever is registered. -/
theorem Value.Exact.agrees {o : Options} (hproper : ∀ p ∈ o.parameters, p.value.Proper) :
    ∀ {v : Value} {ty : HostType}, v.Exact → v.Plain o.naming ty → v.Agrees o ty
  | .array _, _, hv, hplain =>
    ⟨fun p hp heq => ⟨Value.toJson_eq_of_beq hv (hproper p hp) heq, hplain⟩,
      Value.AllExact.agrees hproper hv hplain⟩
  | .null, _, hv, hplain | .boolean _, _, hv, hplain | .integer _, _, hv, hplain
  | .unsigned _, _, hv, hplain | .decimal _, _, hv, hplain | .char _, _, hv, hplain
  | .string _, _, hv, hplain | .guid _, _, hv, hplain | .geometry _, _, hv, hplain
  | .object _, _, hv, hplain => fun p hp heq =>
    ⟨Value.toJson_eq_of_beq hv (hproper p hp) heq, hplain⟩

theorem Value.AllExact.agrees {o : Options} (hproper : ∀ p ∈ o.parameters, p.value.Proper) :
    ∀ {vs : List Value} {ty : HostType}, Value.AllExact vs → Value.AllPlain o.naming ty vs →
      Value.AllAgree o ty vs
  | [], _, _, _ => trivial
  | _ :: _, _, hv, hplain =>
    ⟨Value.Exact.agrees hproper hv.1 hplain.1, Value.AllExact.agrees hproper hv.2 hplain.2⟩

end

/-! ## Expressions -/

/-- Whether a parameter of the query may stand for an expression: for a constant that equals what is
registered, and for the parameter of a lambda, since rows and keys may be such constants. -/
def Expr.MayBeBound (o : Options) : Expr → Prop
  | .constant v _ => ∃ p ∈ o.parameters, (p.value == v) = true
  | .parameter .. => True
  | .member (some object) m _ =>
    object.ty.isNullable = true ∧ m.name = "Value" ∧ object.MayBeBound o
  | .unary .convert operand _ | .unary .quote operand _ | .unary .typeAs operand _ =>
    operand.MayBeBound o
  | _ => False

/-- Neither side is a member with a converter whose other side may be a parameter. -/
def Expr.Apart (o : Options) (left right : Expr) : Prop :=
  ((Compilation.accessed? left).bind o.naming.converter? = none ∨ ¬right.MayBeBound o) ∧
    ((Compilation.accessed? right).bind o.naming.converter? = none ∨ ¬left.MayBeBound o)

/-- A node that is compiled alike with parameters and without. -/
def Expr.NodeBindable (o : Options) : Expr → Prop
  | .constant v ty => v.Agrees o ty
  | .binary _ left right _ => Expr.Apart o left right
  | .call target method args ty => method.name ≠ "Contains" ∧
      ∀ p ∈ Compilation.comparedStrings? (.call target method args ty), Expr.Apart o p.1.1 p.1.2
  | _ => True

/-- All nodes are compiled alike with parameters and without. -/
def Expr.Bindable (o : Options) (e : Expr) : Prop := ∀ d : Expr, d.IsPart e → d.NodeBindable o

theorem Expr.Bindable.child {o : Options} {e d : Expr} (h : e.Bindable o) (hd : d ∈ e.children) :
    d.Bindable o := fun c hc => h c (hc.trans (.child .self hd))

theorem Expr.Bindable.compared {o : Options} {e : Expr} (h : e.Bindable o)
    {p : { p : Expr × Expr // sizeOf p.1 + sizeOf p.2 < sizeOf e }}
    (hp : Compilation.comparedStrings? e = some p) : Expr.Apart o p.1.1 p.1.2 := by
  cases e with
  | call => exact (h _ .self).2 p hp
  | _ => cases hp

theorem Expr.bindable_iff {o : Options} {e : Expr} :
    e.Bindable o ↔ e.NodeBindable o ∧ ∀ d ∈ e.children, d.Bindable o := by
  refine ⟨fun h => ⟨h e .self, fun _ => h.child⟩, fun ⟨h, hs⟩ d hd => ?_⟩
  cases hd with
  | self => exact h
  | child hd hc => exact hs _ hc d hd

/-- The constant behind conversions agrees. -/
theorem Expr.Bindable.constant {o : Options} {e : Expr} (h : e.Bindable o) {v : Value}
    (hv : (Compilation.stripConversions e).asConstant? = some v) : ∃ ty, v.Agrees o ty := by
  induction e using Compilation.stripConversions.induct with
  | case1 operand ty ih => exact ih (h.child List.mem_cons_self) hv
  | case2 e he =>
    rw [Compilation.stripConversions.eq_2 _ he] at hv
    cases e with
    | constant value ty =>
      obtain rfl := Option.some.inj hv
      exact ⟨ty, h _ .self⟩
    | _ => cases hv

/-! ## Scalars that are parameters -/

namespace Builtin

/-- What a rule gives is no parameter. -/
def Composed (r : Option Scalar) : Prop := ∀ a ∈ r, a.isParameter = false

theorem composed_none : (pure none : Compilation (Option Scalar)).Gives Composed :=
  .pure fun _ ha => nomatch ha

theorem composed_some {a : Scalar} (h : a.isParameter = false) :
    (pure (some a) : Compilation (Option Scalar)).Gives Composed :=
  .pure fun _ ha => Option.some.inj ha ▸ h

theorem composed_map {α : Type} {r : Option α} {f : α → Scalar}
    (h : ∀ x, (f x).isParameter = false) :
    (pure (r.map f) : Compilation (Option Scalar)).Gives Composed := by
  cases r with
  | none => exact composed_none
  | some x => exact composed_some (h x)

theorem isParameter_stringEquals (ignoreCase : Bool) (a b : Scalar) :
    (stringEquals ignoreCase a b).isParameter = false := by
  cases ignoreCase <;> rfl

theorem composed_stringMethod? (name : String) (target : Operand) (args : List Operand) :
    (stringMethod? name target args).Gives Composed := by
  unfold stringMethod?
  refine .second fun subject => ?_
  split
  · exact .second fun _ => composed_some rfl
  · exact .second fun _ => .second fun _ => composed_some rfl
  · exact .second fun _ => .second fun _ => composed_some rfl
  · exact .second fun _ => composed_some rfl
  · exact .second fun _ => .second fun _ => composed_some rfl
  · exact .second fun _ => composed_some rfl
  · exact .second fun _ => composed_some rfl
  · exact .second fun _ => composed_map fun _ => isParameter_stringEquals _ _ _
  · exact composed_map fun _ => rfl
  · split
    · exact .second fun _ => composed_some rfl
    · exact composed_none
  · split
    · exact .second fun _ => composed_some rfl
    · exact composed_none
  · exact composed_none

theorem composed_staticStringMethod? (name : String) (args : List Operand) :
    (staticStringMethod? name args).Gives Composed := by
  unfold staticStringMethod?
  split
  · split
    · exact .second fun _ => composed_some rfl
    · exact composed_none
  · exact .second fun _ => composed_some rfl
  · exact .second fun _ => composed_some rfl
  · exact .second fun _ => composed_some rfl
  · exact .second fun _ => .second fun _ => composed_some rfl
  · exact .second fun _ => .second fun _ => composed_map fun _ => isParameter_stringEquals _ _ _
  · exact composed_none

theorem gives_contains (source item : Operand) :
    (contains source item).Gives (·.isParameter = false) := by
  unfold contains
  refine .second fun sequence => ?_
  split
  · exact .pure rfl
  · exact .second fun _ => .pure rfl
  · exact .second fun _ => .pure rfl

theorem composed_sequenceMethod? (name : String) (target : Option Operand) (args : List Operand) :
    (sequenceMethod? name target args).Gives Composed := by
  unfold sequenceMethod?
  split
  · exact (gives_contains _ _).bind fun _ ha => composed_some ha
  · exact .second fun _ => .second fun _ => composed_some rfl
  · exact .second fun _ => composed_some rfl
  · exact composed_none

theorem composed_typeCheck? (name : String) (args : List Operand) :
    (typeCheck? name args).Gives Composed := by
  unfold typeCheck?
  dsimp only
  split
  · exact composed_none
  · exact .second fun _ => composed_some rfl
  · exact .throw

theorem composed_objectMethod? (name : String) (target : Option Operand) (args : List Operand) :
    (objectMethod? name target args).Gives Composed := by
  unfold objectMethod?
  split
  · exact .second fun _ => composed_some rfl
  · exact .second fun _ => .second fun _ => composed_some rfl
  · exact composed_none

theorem composed_mathMethod? (name : String) (args : List Operand) :
    (mathMethod? name args).Gives Composed := by
  unfold mathMethod?
  split
  · exact .second fun _ => composed_some rfl
  · exact composed_none

/-- What a function is compiled to is composed where what is found for it is. -/
theorem gives_found {found : Compilation (Option Scalar)} {e : CompileError}
    (h : found.Gives Composed) :
    (found >>= fun r => match r with
      | some s => pure s
      | none => throw e).Gives (·.isParameter = false) :=
  h.bind fun r hr => by
    cases r with
    | none => exact .throw
    | some s => exact .pure (hr s rfl)

/-- No builtin function gives one of its operands. -/
theorem gives_call (method : Method) (target : Option Operand) (args : List Operand) :
    (call method target args).Gives (·.isParameter = false) := by
  unfold call
  split
  · exact gives_found (composed_stringMethod? _ _ _)
  · exact gives_found (composed_staticStringMethod? _ _)
  · exact gives_found (composed_mathMethod? _ _)
  · exact gives_found (composed_sequenceMethod? _ _ _)
  · exact gives_found (composed_sequenceMethod? _ _ _)
  · exact gives_found (composed_typeCheck? _ _)
  · exact gives_found (composed_objectMethod? _ _ _)
  · exact gives_found composed_none
  · exact gives_found composed_none
  · exact gives_found composed_none
  · exact gives_found composed_none

end Builtin

namespace Compilation

theorem gives_inlined (naming : Naming) (ty : HostType) (v : Value) :
    (inlined naming ty v).Gives Scalar.Data := by
  unfold inlined
  split
  · exact .second fun _ => Gives.ofExcept.imp fun _ h => Json.toScalar_data h
  · exact .throw
  · exact Gives.ofExcept.imp fun _ h => Value.toScalar_data h

/-- A constant is a parameter only if it equals what is registered. -/
theorem gives_constant (options : Options) (ty : HostType) (v : Value) :
    (constant options ty v).Gives fun a => a.isParameter = true →
      ∃ p ∈ options.parameters, (p.value == v) = true := by
  intro s a t h ha
  cases hfind : options.parameters.find? (·.value == v) with
  | some p =>
    exact ⟨p, List.mem_of_find?_eq_some hfind,
      List.find?_some (p := fun q : BoundParameter => q.value == v) hfind⟩
  | none =>
    have hdata : a.isParameter = false := by
      cases v with
      | array items =>
        have h := eq_ok_of_ite (constant_items s hfind ▸ h)
        rw [← bind_pure_comp] at h
        obtain ⟨ss, u, -, h⟩ := bind_eq_ok.mp h
        obtain ⟨rfl, -⟩ := pure_eq_ok.mp h
        rfl
      | _ =>
        have h := eq_ok_of_ite (constant_inlined s hfind (by simp) ▸ h)
        exact (gives_inlined _ _ _ s a t h).isParameter
    rw [hdata] at ha
    cases ha

variable (env : Environment)

theorem noParameter_combine (op : BinaryOp) (text : Bool) (a b : Scalar) :
    (ofExcept (combine op text a b) : Compilation Scalar).Gives (·.isParameter = false) := by
  refine Gives.ofExcept.imp fun c hc => ?_
  unfold combine at hc
  split at hc
  · obtain rfl := Except.ok.inj hc
    rfl
  · split at hc
    · obtain rfl := Except.ok.inj hc
      rfl
    · cases hc

theorem noParameter_binary (op : BinaryOp) (left right : Expr) (ty : HostType) :
    (binary env op left right ty).Gives (·.isParameter = false) := by
  rw [binary]
  split
  · split
    · exact noParameter_binary _ _ _ _
    · exact .throw
  · exact .second fun _ => .second fun _ => .second fun _ => noParameter_combine _ _ _ _
termination_by sizeOf left + sizeOf right

theorem noParameter_userFunction (args : List Expr) :
    (userFunction env args).Gives (·.isParameter = false) := by
  rw [userFunction.eq_def]
  refine .second fun name => ?_
  split
  · exact .second fun _ => .pure rfl
  · exact .second fun _ => .pure rfl
  · exact .second fun _ => .pure rfl
  · exact .pure rfl

theorem noParameter_groupAggregate (method : String) (args : List Expr) (row : Scalar) :
    (groupAggregate env method args row).Gives (·.isParameter = false) := by
  rw [groupAggregate.eq_def]
  split
  · exact .pure rfl
  · exact .throw
  · split
    · exact .throw
    · exact .pure rfl
    · exact .pure rfl
    · exact .second fun _ => .second fun _ => .pure rfl
    · exact .throw

theorem isParameter_nestedScalar (method : String) (query : Query) :
    (nestedScalar method query).isParameter = false := by
  unfold nestedScalar
  split <;> rfl

theorem isParameter_unaryOf {op : UnaryOp} (h : op ≠ .convert) (h' : op ≠ .quote)
    (h'' : op ≠ .typeAs) (s : Scalar) : (unaryOf op s).isParameter = false := by
  cases op with
  | not => cases s <;> rfl
  | _ => first | rfl | contradiction

/-- A member is a parameter only where it is the value of a nullable one. -/
theorem isParameter_memberOf {naming : Naming} {ty : HostType} {m : Member} {s : Scalar}
    (h : (memberOf naming ty m s).isParameter = true) :
    ty.isNullable = true ∧ m.name = "Value" ∧ s.isParameter = true := by
  unfold memberOf at h
  split at h
  · rename_i hvalue
    obtain ⟨hty, hname⟩ := Bool.and_eq_true_iff.mp hvalue
    exact ⟨hty, beq_iff_eq.mp hname, h⟩
  · split at h
    · cases h
    · split at h <;> cases h

theorem noParameter_scalarCall (target : Option Expr) (method : Method) (args : List Expr)
    (ty : HostType) :
    (scalar env (.call target method args ty)).Gives (·.isParameter = false) := by
  rw [scalar]
  split
  · exact noParameter_userFunction env args
  refine .second fun s => ?_
  split
  · exact noParameter_groupAggregate env _ _ _
  split
  · exact .second fun _ => .second fun _ => .pure (isParameter_nestedScalar _ _)
  cases target with
  | none => exact Builtin.gives_call _ _ _
  | some target => exact Builtin.gives_call _ _ _

/-- **An expression whose scalar is a parameter may be bound**, by induction on what the expression
passes on. -/
theorem gives_mayBeBound (e : Expr) :
    (scalar env e).Gives fun a => a.isParameter = true → e.MayBeBound env.options := by
  have hnot : ∀ {x : Compilation Scalar} {p : Prop}, x.Gives (·.isParameter = false) →
      x.Gives fun a => a.isParameter = true → p := fun h => h.imp fun a ha ha' => by
    rw [ha] at ha'
    cases ha'
  induction e using Expr.MayBeBound.induct with
  | case1 v ty =>
    rw [scalar]
    exact gives_constant _ _ _
  | case2 name ty => exact fun _ _ _ _ _ => trivial
  | case3 object m ty ih =>
    rw [scalar]
    refine ih.bind fun a ha => .pure fun h => ?_
    obtain ⟨hty, hname, hs⟩ := isParameter_memberOf h
    exact ⟨hty, hname, ha hs⟩
  | case4 operand ty ih =>
    rw [scalar]
    exact ih.bind fun a ha => .pure ha
  | case5 operand ty ih =>
    rw [scalar]
    exact ih.bind fun a ha => .pure ha
  | case6 operand ty ih =>
    rw [scalar]
    exact ih.bind fun a ha => .pure ha
  | case7 e hconstant hparameter hmember hconvert hquote htypeAs =>
    refine hnot ?_
    cases e with
    | constant => exact (hconstant _ _ rfl).elim
    | parameter => exact (hparameter _ _ rfl).elim
    | member object m ty =>
      cases object with
      | none =>
        rw [scalar]
        exact .throw
      | some object => exact (hmember _ _ _ rfl).elim
    | binary op left right ty =>
      rw [scalar]
      exact noParameter_binary env op left right ty
    | unary op operand ty =>
      rw [scalar]
      refine .second fun s => .pure (isParameter_unaryOf ?_ ?_ ?_ s)
      · rintro rfl
        exact hconvert _ _ rfl
      · rintro rfl
        exact hquote _ _ rfl
      · rintro rfl
        exact htypeAs _ _ rfl
    | conditional =>
      rw [scalar]
      exact .second fun _ => .second fun _ => .second fun _ => .pure rfl
    | call => exact noParameter_scalarCall env _ _ _ _
    | construct args members ty =>
      have hgeometry : (do
          ofExcept (← ofHost (env.evaluator (.construct args members ty))).toScalar :
            Compilation Scalar).Gives (·.isParameter = false) :=
        .second fun _ => Gives.ofExcept.imp fun _ h => (Value.toScalar_data h).isParameter
      cases members with
      | some members =>
        rw [scalar]
        split
        · exact hgeometry
        split
        · exact .throw
        · exact .second fun _ => .pure rfl
      | none =>
        rw [scalar]
        split
        · exact hgeometry
        split
        · exact .pure rfl
        · exact .throw
    | memberInit =>
      rw [scalar]
      exact .second fun _ => .pure rfl
    | newArray =>
      rw [scalar]
      exact .second fun _ => .pure rfl
    | listInit | lambda | invoke =>
      rw [scalar]
      exact .throw

end Compilation

end LambdaQuery
