import LambdaQuery.Host.Expr.Build
import LambdaQuery.Proofs.Operands
import LambdaQuery.Proofs.Referenced.Flattening
import LambdaQuery.Proofs.Referenced.Sources
import LambdaQuery.Proofs.Subexpressions

/-!
# Lambdas that read their parameter

Where the body of a lambda is built over its parameter (`Expr.Reads`), the scalar of the body is
built over the row that the parameter stands for (`Compilation.within_of_reads`), so that what the
row selects is not lost. A chain may order its rows twice, or project twice without reading them:
then the second operator replaces what the first one has set (`Expr.Replaces`).
-/

set_option autoImplicit false

namespace LambdaQuery

/-! ## Expressions -/

namespace Expr

/-- An aggregate of the rows that a parameter stands for, which may be those of a group. -/
def aggregatesParameter (method : Method) : List Expr → Bool
  | .parameter .. :: _ => method.isOperator &&
    (method.name == "Count" || (Compilation.aggregate? method.name).isSome)
  | _ => false

/-- The expression is built over the parameter `x`: outside of lambdas, and apart from an aggregate
of `x` itself, which is one of a group if that has the same name. -/
inductive Reads (x : String) : Expr → Prop where
  | parameter {ty : HostType} : Reads x (.parameter x ty)
  | member {object : Expr} {m : Member} {ty : HostType} (h : Reads x object) :
    Reads x (.member (some object) m ty)
  | left {op : BinaryOp} {a b : Expr} {ty : HostType} (h : Reads x a) : Reads x (.binary op a b ty)
  | right {op : BinaryOp} {a b : Expr} {ty : HostType} (h : Reads x b) :
    Reads x (.binary op a b ty)
  | operand {op : UnaryOp} {a : Expr} {ty : HostType} (h : Reads x a) : Reads x (.unary op a ty)
  | test {a b c : Expr} {ty : HostType} (h : Reads x a) : Reads x (.conditional a b c ty)
  | ifTrue {a b c : Expr} {ty : HostType} (h : Reads x b) : Reads x (.conditional a b c ty)
  | ifFalse {a b c : Expr} {ty : HostType} (h : Reads x c) : Reads x (.conditional a b c ty)
  | passed {target : Option Expr} {method : Method} {args : List Expr} {ty : HostType} {a : Expr}
    (hagg : aggregatesParameter method args = false)
    (hnested : Compilation.isNestedQuery target method args = false)
    (ha : a ∈ readOperands target method args) (h : Reads x a) :
    Reads x (.call target method args ty)
  | iterated {method : Method} {source : Expr} {rest : List Expr} {ty : HostType}
    (hagg : aggregatesParameter method (source :: rest) = false)
    (hnested : Compilation.isNestedQuery none method (source :: rest) = true)
    (h : Reads x source.origin) : Reads x (.call none method (source :: rest) ty)
  | argument {args : List Expr} {members : List Member} {ty : HostType} {a : Expr}
    (hty : ty.underlying ≠ .geometry) (ha : a ∈ args) (h : Reads x a) :
    Reads x (.construct args (some members) ty)
  | value {base : Expr} {bindings : List Binding} {ty : HostType} {m : Member} {a : Expr}
    (ha : .assign m a ∈ bindings) (h : Reads x a) : Reads x (.memberInit base bindings ty)
  | item {items : List Expr} {ty : HostType} {a : Expr} (ha : a ∈ items) (h : Reads x a) :
    Reads x (.newArray items ty)

namespace Reads

open Compilation

variable {x : String} {e a b : Expr}

theorem asConstant?_eq_none (h : e.Reads x) : e.asConstant? = none := by
  cases h <;> rfl

theorem isZero_eq_false (h : e.Reads x) : isZero e = false := by
  unfold isZero
  rw [h.asConstant?_eq_none]
  rfl

/-- A comparison of two strings is built over what one of them is built over. -/
theorem of_comparedStrings? {hab : sizeOf (a, b).1 + sizeOf (a, b).2 < sizeOf e}
    (h : e.Reads x) (hc : comparedStrings? e = some ⟨(a, b), hab⟩) : a.Reads x ∨ b.Reads x := by
  have hpair : ∀ {d : Expr}, d ∈ [a, b] → d = a ∨ d = b := fun hd => by simpa using hd
  unfold comparedStrings? at hc
  split at hc
  · cases hc
    cases h with
    | passed _ _ ha h =>
      rcases hpair (Expr.mem_of_mem_readOperands ha) with rfl | rfl
      · exact .inl h
      · exact .inr h
  · cases hc
    cases h with
    | passed _ _ ha h =>
      rcases hpair (Expr.mem_of_mem_readOperands ha) with rfl | rfl
      · exact .inl h
      · exact .inr h
    | iterated _ hnested => cases hnested
  · cases hc

end Reads

end Expr

namespace Compilation

/-! ### Operations -/

section

variable {r a b : Scalar}

theorem within_memberOf (naming : Naming) (ty : HostType) (m : Member) (h : r.Within a) :
    r.Within (memberOf naming ty m a) := by
  have hcall : ∀ name, r.Within (.builtin name [a]) := fun name =>
    .call _ _ ⟨a, List.mem_cons_self, h⟩
  unfold memberOf
  split
  · exact h
  split
  · exact hcall _
  split
  · exact hcall _
  · exact hcall _
  · exact hcall _
  · exact .index (.inl h)

theorem within_unaryOf (op : UnaryOp) (h : r.Within a) : r.Within (unaryOf op a) := by
  cases op with
  | convert | quote | typeAs => exact h
  | not =>
    dsimp only [unaryOf]
    split
    · exact h.trans ⟨List.Subset.refl _, fun _ => List.Subset.refl _⟩
    · exact .unary _ h
  | negate | unaryPlus | onesComplement => exact .unary _ h
  | arrayLength => exact .call _ _ ⟨a, List.mem_cons_self, h⟩

theorem within_combine {op : BinaryOp} {text : Bool} {c : Scalar} (hc : combine op text a b = .ok c)
    (h : r.Within a ∨ r.Within b) : r.Within c := by
  unfold combine at hc
  split at hc
  · cases hc
    exact .index h
  · split at hc
    · cases hc
      exact .binary _ h
    · cases hc

theorem givesIn_encoded {S : Scope → Prop} (naming : Naming) (member : Expr) (a : Scalar) :
    (encoded naming member a).GivesIn S fun b => b = a ∨ ∃ v, a = .literal v := by
  unfold encoded
  generalize (accessed? member).bind naming.converter? = converter
  cases converter with
  | none => exact .pure (.inl rfl)
  | some converter =>
    cases a with
    | literal v =>
      dsimp only
      exact GivesIn.bind .ofExcept fun _ _ => GivesIn.ofExcept.imp fun _ _ => .inr ⟨v, rfl⟩
    | _ => exact .pure (.inl rfl)

/-- What is compared is as it was, or was a literal. -/
theorem givesIn_matched {S : Scope → Prop} (naming : Naming) (left right : Expr) (a b : Scalar) :
    (matched naming left right a b).GivesIn S fun p =>
      (p.1 = a ∨ ∃ v, a = .literal v) ∧ (p.2 = b ∨ ∃ v, b = .literal v) := by
  unfold matched
  split
  · exact (givesIn_encoded naming left b).bind fun _ hb => .pure ⟨.inl rfl, hb⟩
  split
  · exact (givesIn_encoded naming right a).bind fun _ ha => .pure ⟨ha, .inl rfl⟩
  · exact .pure ⟨.inl rfl, .inl rfl⟩

end

/-! ### Scalars -/

/-- In the scope, `x` stands for `r`. -/
def Binds (x : String) (r : Scalar) (s : Scope) : Prop := s.lookup? x = some r

variable {env : Environment} {x : String} {r : Scalar}

theorem binds_of_scalar {e : Expr} {s t : Scope} {a : Scalar} (hs : Binds x r s)
    (h : scalar env e s = (.ok a, t)) : Binds x r t := by
  have hb := ((leaves env e).1 s).bindings
  rw [h] at hb
  exact (congrArg (Record.get? · x) hb).trans hs

theorem givesIn_of_within {e : Expr}
    (h : ∀ s a t, Binds x r s → e.Reads x → scalar env e s = (.ok a, t) → r.Within a) :
    (scalar env e).GivesIn (Binds x r) fun a => e.Reads x → r.Within a :=
  fun s a t hs hrun => ⟨binds_of_scalar hs hrun, fun hx => h s a t hs hx hrun⟩

/-- What is no aggregate of a group is refused as one. -/
theorem groupAggregate_refused {method : Method} {args : List Expr} {s : Scope} {row : Scalar}
    (hagg : Expr.aggregatesParameter method args = false)
    (hrow : groupSource? s method args = some row) :
    groupAggregate env method.name args row =
      throw (.unsupported (.unknownMethod method.name)) := by
  obtain ⟨hm, name, ty, rest, rfl⟩ := groupSource?_eq_some hrow
  rw [Expr.aggregatesParameter, hm, Bool.true_and, Bool.or_eq_false_iff] at hagg
  obtain ⟨hcount, hnone⟩ := hagg
  rw [groupAggregate.eq_def]
  split
  · rename_i heq _
    rw [heq] at hcount
    cases hcount
  · rename_i heq _
    rw [heq] at hcount
    cases hcount
  · rw [Option.not_isSome_iff_eq_none.mp (Bool.eq_false_iff.mp hnone)]

section

variable {n : Nat}
  (ih : ∀ d, sizeOf d < n → (scalar env d).GivesIn (Binds x r) fun a => d.Reads x → r.Within a)

include ih

theorem givesIn_scalars {es : List Expr} (hn : sizeOf es ≤ n) :
    (scalars env es).GivesIn (Binds x r) fun as => ∀ d ∈ es, d.Reads x → ∃ a ∈ as, r.Within a := by
  induction es with
  | nil =>
    rw [scalars]
    exact .pure (List.forall_mem_nil _)
  | cons e es ihes =>
    simp only [List.cons.sizeOf_spec] at hn
    rw [scalars]
    refine (ih e (by omega)).bind fun a ha => (ihes (by omega)).bind fun as has => .pure ?_
    exact List.forall_mem_cons.mpr ⟨fun hx => ⟨a, List.mem_cons_self, ha hx⟩, fun d hd hx =>
      (has d hd hx).imp fun _ => And.imp_left (List.mem_cons_of_mem _)⟩

theorem givesIn_properties {bindings : List Binding} (hn : sizeOf bindings ≤ n) :
    (properties env bindings).GivesIn (Binds x r) fun ps =>
      ∀ m d, .assign m d ∈ bindings → d.Reads x → ∃ p ∈ ps, r.Within p.2 := by
  induction bindings with
  | nil =>
    rw [properties]
    exact .pure fun _ _ hd => absurd hd List.not_mem_nil
  | cons binding rest ihrest =>
    simp only [List.cons.sizeOf_spec] at hn
    cases binding with
    | nested | collect =>
      rw [properties]
      exact .throw
    | assign n value =>
      simp only [Binding.assign.sizeOf_spec] at hn
      rw [properties]
      refine (ih value (by omega)).bind fun a ha => (ihrest (by omega)).bind fun ps hps =>
        .pure fun m d hd hx => ?_
      rcases List.mem_cons.mp hd with heq | hd
      · cases heq
        exact ⟨_, List.mem_cons_self, ha hx⟩
      · exact (hps m d hd hx).imp fun _ => And.imp_left (List.mem_cons_of_mem _)

theorem givesIn_binary (op : BinaryOp) (left right : Expr) (ty : HostType)
    (hn : sizeOf left + sizeOf right ≤ n) :
    (binary env op left right ty).GivesIn (Binds x r)
      fun c => left.Reads x ∨ right.Reads x → r.Within c := by
  have hl := left.sizeOf_pos
  have hr := right.sizeOf_pos
  rw [binary]
  split
  · rename_i a b hab op' hc
    simp only at hab
    split
    · refine (givesIn_binary op' a b .boolean (by omega)).imp fun c hwithin hx => hwithin ?_
      -- The other side of the comparison is zero.
      rcases stringComparison?_eq_some hc with ⟨⟨_, hp⟩, hz⟩ | ⟨⟨_, hp⟩, hz⟩
      · refine hx.elim (·.of_comparedStrings? hp) fun hx => ?_
        rw [hx.isZero_eq_false] at hz
        cases hz
      · refine hx.elim (fun hx => ?_) (·.of_comparedStrings? hp)
        rw [hx.isZero_eq_false] at hz
        cases hz
    · exact .throw
  · refine (ih left (by omega)).bind fun a ha => (ih right (by omega)).bind fun b hb => ?_
    refine (givesIn_matched _ left right a b).bind fun p ⟨hleft, hright⟩ => ?_
    refine GivesIn.ofExcept.imp fun c hcombined hx => ?_
    -- A literal that is encoded anew has nothing to lose.
    have hkept : ∀ {a a' : Scalar}, (a' = a ∨ ∃ v, a = .literal v) → r.Within a → r.Within a' := by
      rintro a a' (rfl | ⟨v, rfl⟩) hwithin
      · exact hwithin
      · exact hwithin.of_literal a'
    exact within_combine hcombined
      (hx.imp (fun hx => hkept hleft (ha hx)) fun hx => hkept hright (hb hx))
termination_by sizeOf left + sizeOf right

/-- A call of a function that the database's user defined; its name is a constant. -/
theorem within_userFunction {args : List Expr} {d : Expr} {s t : Scope} {c : Scalar}
    (hn : sizeOf args ≤ n) (hd : d ∈ args) (hx : d.Reads x) (hs : Binds x r s)
    (h : userFunction env args s = (.ok c, t)) : r.Within c := by
  rw [userFunction] at h
  obtain ⟨name, u, hfirst, hrest⟩ := bind_eq_ok.mp h
  obtain ⟨hname, rfl⟩ := ofExcept_eq_ok.mp hfirst
  have hmem : ∀ {e : Expr} {es : List Expr}, args = e :: es → d ∈ es := by
    rintro e es rfl
    refine (List.mem_cons.mp hd).resolve_left ?_
    rintro rfl
    obtain ⟨v, hv⟩ := asConstant?_of_functionName? hname
    rw [hx.asConstant?_eq_none] at hv
    cases hv
  split at hrest
  · rename_i items ty
    obtain rfl := List.mem_singleton.mp (hmem rfl)
    simp only [List.cons.sizeOf_spec, Expr.newArray.sizeOf_spec] at hn
    obtain ⟨as, v, has, hp⟩ := bind_eq_ok.mp hrest
    rw [(pure_eq_ok.mp hp).1]
    cases hx with
    | item ha hx => exact .call _ _ ((givesIn_scalars ih (by omega) _ _ _ hs has).2 _ ha hx)
  · obtain rfl := List.mem_singleton.mp (hmem rfl)
    cases hx
  · rename_i rest _ _
    simp only [List.cons.sizeOf_spec] at hn
    obtain ⟨as, v, has, hp⟩ := bind_eq_ok.mp hrest
    rw [(pure_eq_ok.mp hp).1]
    exact .call _ _ ((givesIn_scalars ih (by omega) _ _ _ hs has).2 d (hmem rfl) hx)
  · cases hd

theorem within_call {target : Option Expr} {method : Method} {args : List Expr} {ty : HostType}
    {s t : Scope} {c : Scalar} (hn : sizeOf (Expr.call target method args ty) = n)
    (hx : (Expr.call target method args ty).Reads x) (hs : Binds x r s)
    (h : scalar env (.call target method args ty) s = (.ok c, t)) : r.Within c := by
  have hargs : sizeOf args ≤ n := by
    rw [← hn, Expr.call.sizeOf_spec]
    omega
  rw [scalar] at h
  by_cases hm : method.declaring = .userFunction
  · rw [if_pos hm] at h
    have hop : method.isOperator = false := by rw [Method.isOperator, hm]
    cases hx with
    | passed _ _ hd hx =>
      exact within_userFunction ih hargs
        (Expr.mem_args_of_mem_readOperands (by rw [hm]; rfl) hd) hx hs h
    | iterated _ hnested =>
      rw [isNestedQuery, hop, Bool.and_false] at hnested
      cases hnested
  rw [if_neg hm] at h
  obtain ⟨_, _, hget, hrun⟩ := bind_eq_ok.mp h
  cases hget
  have hagg : Expr.aggregatesParameter method args = false := by
    cases hx <;> assumption
  cases hrow : groupSource? s method args with
  | some row =>
    rw [hrow] at hrun
    dsimp only at hrun
    rw [groupAggregate_refused hagg hrow] at hrun
    cases hrun
  | none =>
  rw [hrow] at hrun
  dsimp only at hrun
  by_cases hquery : isNestedQuery target method args = true
  · rw [if_pos hquery] at hrun
    cases hx with
    | passed _ hnested => exact absurd hquery (Bool.eq_false_iff.mp hnested)
    | @iterated _ source rest _ _ _ hx =>
      have hsize := Expr.sizeOf_origin_le source
      simp only [List.cons.sizeOf_spec] at hargs
      exact within_nested hs (fun hr h => (ih _ (by omega) _ _ _ hr h).2 hx) hrun
  · rw [if_neg hquery] at hrun
    cases hx with
    | iterated _ hnested => exact absurd hnested hquery
    | @passed _ _ _ _ d _ _ hd hx =>
      have hbuiltin : (Builtin.call method (target.map fun d => ⟨d, scalar env d⟩)
          (args.map fun d => Operand.mk d (scalar env d))) s = (.ok c, t) := by
        cases target <;> exact hrun
      have huses := givesIn_builtin (P := fun d a => d.Reads x → r.Within a)
        (fun d hd => ih d (hn ▸ Expr.sizeOf_child hd)) s c t hs hbuiltin
      rcases huses.2 d hd with hflag | ⟨b, hb, hwithin⟩
      · rw [hx.asConstant?_eq_none] at hflag
        cases hflag
      · exact (hb hx).trans hwithin

/-- The scalar of a node, when the scalars of smaller expressions are built over what they read. -/
theorem givesIn_node {e : Expr} (hn : sizeOf e = n) :
    (scalar env e).GivesIn (Binds x r) fun a => e.Reads x → r.Within a := by
  have hchild : ∀ {d}, d ∈ e.children →
      (scalar env d).GivesIn (Binds x r) fun a => d.Reads x → r.Within a :=
    fun hd => ih _ (hn ▸ Expr.sizeOf_child hd)
  cases e with
  | constant | lambda | listInit | invoke =>
    refine givesIn_of_within fun _ _ _ _ hx => ?_
    cases hx
  | parameter name ty =>
    refine givesIn_of_within fun s a t hs hx hrun => ?_
    cases hx
    rw [scalar] at hrun
    obtain ⟨_, u, hget, hfound⟩ := bind_eq_ok.mp hrun
    cases hget
    rw [show s.lookup? x = some r from hs] at hfound
    rw [(pure_eq_ok.mp hfound).1]
    exact .refl r
  | member object m ty =>
    cases object with
    | none =>
      refine givesIn_of_within fun _ _ _ _ hx => ?_
      cases hx
    | some object =>
      rw [scalar]
      refine (hchild (List.mem_singleton_self object)).bind fun a ha => .pure fun hx => ?_
      cases hx with
      | member hx => exact within_memberOf _ _ _ (ha hx)
  | binary op left right ty =>
    rw [scalar]
    refine (givesIn_binary ih op left right ty ?_).imp fun c hc hx => hc ?_
    · rw [← hn, Expr.binary.sizeOf_spec]
      omega
    · cases hx with
      | left hx => exact .inl hx
      | right hx => exact .inr hx
  | unary op operand ty =>
    rw [scalar]
    refine (hchild (List.mem_singleton_self operand)).bind fun a ha => .pure fun hx => ?_
    cases hx with
    | operand hx => exact within_unaryOf _ (ha hx)
  | conditional test ifTrue ifFalse ty =>
    rw [scalar]
    refine (hchild (by simp [Expr.children])).bind fun a ha =>
      (hchild (by simp [Expr.children])).bind fun b hb =>
        (hchild (by simp [Expr.children])).bind fun c hc => .pure fun hx => ?_
    cases hx with
    | test hx => exact .conditional (.inl (ha hx))
    | ifTrue hx => exact .conditional (.inr (.inl (hb hx)))
    | ifFalse hx => exact .conditional (.inr (.inr (hc hx)))
  | call target method args ty =>
    exact givesIn_of_within fun s a t hs hx hrun => within_call ih hn hx hs hrun
  | construct args members ty =>
    refine givesIn_of_within fun s a t hs hx hrun => ?_
    cases hx with
    | argument hty ha hx =>
      rw [scalar.eq_def] at hrun
      dsimp only at hrun
      rw [if_neg hty] at hrun
      split at hrun
      · cases hrun
      rename_i hlength
      obtain ⟨as, u, has, hp⟩ := bind_eq_ok.mp hrun
      have hargs : sizeOf args ≤ n := by
        rw [← hn, Expr.construct.sizeOf_spec]
        omega
      rw [(pure_eq_ok.mp hp).1]
      refine .zip ?_ ((givesIn_scalars ih hargs _ _ _ hs has).2 _ ha hx)
      rw [List.length_map, gives_length_scalars args _ _ _ has]
      exact Nat.le_of_eq (not_not.mp hlength).symm
  | memberInit base bindings ty =>
    rw [scalar]
    refine (givesIn_properties ih ?_).bind fun ps hps => .pure fun hx => ?_
    · rw [← hn, Expr.memberInit.sizeOf_spec]
      omega
    · cases hx with
      | value ha hx => exact .object (hps _ _ ha hx)
  | newArray items ty =>
    rw [scalar]
    refine (givesIn_scalars ih ?_).bind fun as has => .pure fun hx => ?_
    · rw [← hn, Expr.newArray.sizeOf_spec]
      omega
    · cases hx with
      | item ha hx => exact .array (has _ ha hx)

end

/-- **What is read stays.** The scalar of an expression that is built over a parameter is built over
what that stands for. -/
theorem within_of_reads {e : Expr} {s t : Scope} {a : Scalar} (h : e.Reads x)
    (hr : s.lookup? x = some r) (hrun : scalar env e s = (.ok a, t)) : r.Within a := by
  have hnode : ∀ e, (scalar env e).GivesIn (Binds x r) fun a => e.Reads x → r.Within a := by
    intro e
    induction hn : sizeOf e using Nat.strongRecOn generalizing e with
    | ind n ih => exact givesIn_node (fun d hd => ih _ hd d rfl) hn
  exact (hnode e s a t hr hrun).2 h

end Compilation

/-! ## Chains -/

/-- The operators that order rows. -/
def orderings : List String := ["OrderBy", "OrderByDescending"]

/-- The operators that project rows, or make one row of them all. -/
def projections : List String :=
  ["Select", "SelectMany", "Count", "Any", "Sum", "Min", "Max", "Average"]

namespace Expr

/-- Whether one of the operators of a chain is among `names`. -/
def chainHas (names : List String) : Expr → Bool
  | .call _ m (source :: _) _ => m.isOperator && (names.contains m.name || source.chainHas names)
  | _ => false

end Expr

/-- What is no operator is in no chain. -/
theorem Expr.chainHas_of_not_operator {e : Expr} (h : ¬Compilation.isOperatorCall e = true)
    (names : List String) : e.chainHas names = false := by
  cases e with
  | call target m args ty =>
    have hm : m.isOperator = false := Bool.eq_false_iff.mpr h
    cases args with
    | nil => rfl
    | cons source rest => rw [chainHas, hm, Bool.false_and]
  | _ => rfl

/-- The operator projects what its lambda makes of the rows, or aggregates the rows themselves. -/
def ReadsRows (method : String) (rest : List Expr) : Prop :=
  rest = [] ∧ (Compilation.aggregate? method).isSome = true ∨
    ∃ arg l, rest = [arg] ∧ Compilation.selector? method arg = .ok l ∧
      (if method = "SelectMany" then l.body.origin else l.body).Reads l.param

theorem ReadsRows.of_selector {method : String} {arg : Expr} {l : Selector arg}
    (h : ReadsRows method [arg]) (hl : Compilation.selector? method arg = .ok l) :
    (if method = "SelectMany" then l.body.origin else l.body).Reads l.param := by
  rcases h with ⟨hnil, -⟩ | ⟨_, _, heq, hl', hreads⟩
  · cases hnil
  · cases heq
    cases hl.symm.trans hl'
    exact hreads

/-- The operator orders rows that are ordered already, or projects rows that are projected already
without reading them. -/
def Expr.Replaces : Expr → Prop
  | .call _ m (source :: rest) _ => m.isOperator = true ∧
    (orderings.contains m.name = true ∧ source.chainHas orderings = true ∨
      projections.contains m.name = true ∧ source.chainHas projections = true ∧
        ¬ReadsRows m.name rest)
  | _ => False

/-- No operator in the expression replaces what another one has set. -/
def Expr.Keeping (e : Expr) : Prop := ∀ d : Expr, d.IsPart e → ¬d.Replaces

namespace Expr.Keeping

theorem of_children {e : Expr} (hr : ¬e.Replaces) (h : ∀ d ∈ e.children, d.Keeping) :
    e.Keeping := by
  intro d hd
  cases hd with
  | self => exact hr
  | child hd hc => exact h _ hc d hd

theorem leaf {e : Expr} (h : e.children = []) : e.Keeping := by
  refine of_children ?_ (h ▸ nofun)
  cases e with
  | call target m args ty =>
    obtain ⟨-, rfl⟩ := List.append_eq_nil_iff.mp h
    exact id
  | _ => exact id

theorem binary {op : BinaryOp} {a b : Expr} {ty : HostType} (ha : a.Keeping) (hb : b.Keeping) :
    (Expr.binary op a b ty).Keeping :=
  of_children id (List.forall_mem_cons.mpr ⟨ha, List.forall_mem_singleton.mpr hb⟩)

theorem quote {l : Lambda} (h : l.body.Keeping) : (Expr.quote l).Keeping :=
  of_children id (List.forall_mem_singleton.mpr (of_children id (List.forall_mem_singleton.mpr h)))

end Expr.Keeping

theorem Expr.Keeping.readsRows {target : Option Expr} {m : Method} {source : Expr}
    {rest : List Expr} {ty : HostType} (h : (Expr.call target m (source :: rest) ty).Keeping)
    (hop : m.isOperator = true) (hm : projections.contains m.name = true)
    (hsource : source.chainHas projections = true) : ReadsRows m.name rest :=
  not_not.mp fun hreads => h _ .self ⟨hop, .inr ⟨hm, hsource, hreads⟩⟩

theorem Expr.Keeping.part {d e : Expr} (h : e.Keeping) (hd : d.IsPart e) : d.Keeping :=
  fun c hc => h c (hc.trans hd)

end LambdaQuery
