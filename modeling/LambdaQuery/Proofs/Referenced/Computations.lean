import LambdaQuery.Proofs.Kept.Reported
import LambdaQuery.Proofs.Subexpressions
import LambdaQuery.Proofs.Within

/-!
# Parameters that computations put into use

A parameter is put into use where a constant is bound to it, and the scalar of the constant refers
to it. `Compilation.Yields` follows one parameter through a computation that succeeds: it says what
holds of the result, and what holds besides where the parameter is in use at the end. Literals and
builtin functions refer to all parameters that their computation has put into use.
-/

set_option autoImplicit false

namespace LambdaQuery

/-! ## Scalars that refer to a parameter -/

/-- The scalar refers to the parameter `name`, at any depth. -/
def Scalar.Mentions (name : String) (a : Scalar) : Prop := ∃ p ∈ a.parts, name ∈ p.parameters

namespace Scalar

variable {name n : String} {a b c : Scalar} {as : List Scalar} {ps : List (String × Scalar)}
  {q : Query}

/-- What is built over a scalar refers to all parameters that the scalar refers to. -/
theorem Within.mentions (h : a.Within b) (ha : a.Mentions name) : b.Mentions name :=
  have ⟨p, hp, hname⟩ := ha
  ⟨p, h.parts hp, hname⟩

theorem exists_parts_append {as bs : List Part} : (∃ p ∈ as ++ bs, name ∈ p.parameters) ↔
    (∃ p ∈ as, name ∈ p.parameters) ∨ ∃ p ∈ bs, name ∈ p.parameters := by
  simp only [List.mem_append, or_and_right, exists_or]

theorem exists_partsAll :
    (∃ p ∈ Scalar.partsAll as, name ∈ p.parameters) ↔ ∃ a ∈ as, a.Mentions name := by
  simp only [mem_partsAll, Mentions]
  constructor
  · rintro ⟨p, ⟨a, ha, hp⟩, hname⟩
    exact ⟨a, ha, p, hp, hname⟩
  · rintro ⟨a, ha, p, hp, hname⟩
    exact ⟨p, ⟨a, ha, hp⟩, hname⟩

@[simp] theorem mentions_literal {l : Literal} : ¬(literal l).Mentions name :=
  fun ⟨_, hp, _⟩ => List.not_mem_nil hp

@[simp] theorem mentions_parameter : (parameter n).Mentions name ↔ n = name := by
  show (∃ p ∈ [Part.parameter n], name ∈ p.parameters) ↔ _
  simp [Part.parameters, eq_comm]

@[simp] theorem mentions_binary {op : QueryBinaryOp} :
    (binary op a b).Mentions name ↔ a.Mentions name ∨ b.Mentions name := exists_parts_append

@[simp] theorem mentions_conditional : (conditional a b c).Mentions name ↔
    a.Mentions name ∨ b.Mentions name ∨ c.Mentions name :=
  exists_parts_append.trans (or_congr_right exists_parts_append)

@[simp] theorem mentions_call {udf : Bool} :
    (call n as udf).Mentions name ↔ ∃ a ∈ as, a.Mentions name := exists_partsAll

@[simp] theorem mentions_builtin : (builtin n as).Mentions name ↔ ∃ a ∈ as, a.Mentions name :=
  exists_partsAll

@[simp] theorem mentions_array : (array as).Mentions name ↔ ∃ a ∈ as, a.Mentions name :=
  exists_partsAll

@[simp] theorem mentions_object : (object ps).Mentions name ↔ ∃ p ∈ ps, p.2.Mentions name := by
  show (∃ p ∈ partsProperties ps, name ∈ p.parameters) ↔ _
  simp only [Mentions, mem_partsProperties]
  constructor
  · rintro ⟨p, ⟨q, hq, hp⟩, hname⟩
    exact ⟨q, hq, p, hp, hname⟩
  · rintro ⟨q, hq, p, hp, hname⟩
    exact ⟨p, ⟨q, hq, hp⟩, hname⟩

@[simp] theorem mentions_isIn {negated : Bool} : (isIn a as negated).Mentions name ↔
    a.Mentions name ∨ ∃ a ∈ as, a.Mentions name :=
  exists_parts_append.trans (or_congr_right exists_partsAll)

theorem mentions_query : (∃ p ∈ q.parts, name ∈ p.parameters) ↔ name ∈ q.parameters := by
  simp [Query.parameters]

end Scalar

/-! ## Computations -/

/-- What the lambdas around range over, and what their parameters stand for. -/
structure Stacks where
  collections : List Collection
  bindings : List (String × Scalar)

def Scope.stacks (s : Scope) : Stacks := ⟨s.collections, s.bindings⟩

namespace Compilation

variable {α β : Type}

/-- Where the computation succeeds among the stacks `k`, it leaves them so and `R` holds of its
result; if the parameter `name` is in use afterwards, `Q` holds as well. `B` holds if it was in use
before. -/
def Yields (name : String) (k : Stacks) (B : Prop) (x : Compilation α) (R Q : α → Prop) : Prop :=
  ∀ s a t, s.stacks = k → (name ∈ s.reported → B) → x s = (.ok a, t) →
    t.stacks = k ∧ R a ∧ (name ∈ t.reported → Q a)

/-- If the parameter `name` is in use after the computation, `Q` holds of the result. -/
abbrev Accounts (name : String) (k : Stacks) (B : Prop) (x : Compilation α) (Q : α → Prop) : Prop :=
  x.Yields name k B (fun _ => True) Q

namespace Yields

variable {name : String} {k : Stacks} {B : Prop} {x : Compilation α} {R P Q : α → Prop}
  {R' Q' : β → Prop}

protected theorem pure {a : α} (hr : R a) (h : B → Q a) :
    (pure a : Compilation α).Yields name k B R Q := by
  intro s a t hk hb hx
  cases hx
  exact ⟨hk, hr, fun hname => h (hb hname)⟩

protected theorem throw {e : CompileError} : (throw e : Compilation α).Yields name k B R Q := by
  intro s a t hk hb hx
  cases hx

protected theorem bind {f : α → Compilation β} (h : x.Yields name k B R P)
    (hf : ∀ a, R a → (f a).Yields name k (P a) R' Q') : (x >>= f).Yields name k B R' Q' := by
  intro s b u hk hb hx
  rw [run_bind] at hx
  rcases hrun : x s with ⟨e | a, t⟩
  · rw [hrun] at hx
    cases hx
  · rw [hrun] at hx
    obtain ⟨hk', hr, ha⟩ := h s a t hk hb hrun
    exact hf a hr t b u hk' ha hx

theorem imp (h : x.Yields name k B R P) (hq : ∀ a, P a → Q a) : x.Yields name k B R Q :=
  fun s a t hk hb hx => (h s a t hk hb hx).imp_right fun ⟨hr, ha⟩ =>
    ⟨hr, fun hname => hq a (ha hname)⟩

theorem imp_result (h : x.Yields name k B R Q) (hr : ∀ a, R a → P a) : x.Yields name k B P Q :=
  fun s a t hk hb hx => (h s a t hk hb hx).imp_right (And.imp_left (hr a))

theorem weaken {C : Prop} (h : x.Yields name k C R Q) (hb : B → C) : x.Yields name k B R Q :=
  fun s a t hk hb' hx => h s a t hk (fun hname => hb (hb' hname)) hx

/-- What is known of the result from elsewhere. -/
theorem with_result (h : x.Accounts name k B Q)
    (hr : ∀ s a t, s.stacks = k → x s = (.ok a, t) → R a) : x.Yields name k B R Q :=
  fun s a t hk hb hx =>
    have ⟨hk', _, ha⟩ := h s a t hk hb hx
    ⟨hk', hr s a t hk hx, ha⟩

/-- A computation that puts no parameter into use. -/
theorem same (h : ∀ s a t, x s = (.ok a, t) → t.stacks = s.stacks ∧ t.reported = s.reported ∧ R a) :
    x.Yields name k B R fun _ => B := by
  intro s a t hk hb hx
  obtain ⟨hk', hr, ha⟩ := h s a t hx
  exact ⟨hk'.trans hk, ha, fun hname => hb (hr ▸ hname)⟩

protected theorem get : (get : Compilation Scope).Accounts name k B fun _ => B :=
  same fun s a t h => by
    cases h
    exact ⟨rfl, rfl, trivial⟩

protected theorem ofExcept {r : Except CompileError α} :
    (ofExcept r : Compilation α).Yields name k B (r = .ok ·) fun _ => B :=
  same fun s a t h => by
    cases r with
    | error e => cases h
    | ok a =>
      cases h
      exact ⟨rfl, rfl, rfl⟩

/-- A condition that is refused. -/
theorem refuse {c : Prop} [Decidable c] {e : CompileError} {f : PUnit → Compilation α}
    (h : ¬c → (f ⟨⟩).Yields name k B R Q) :
    (if c then throw e >>= f else f ⟨⟩).Yields name k B R Q := by
  split
  · exact fun s a t _ _ hx => nomatch hx
  · exact h ‹_›

theorem fresh {base : String} : (fresh base).Accounts name k B fun _ => B :=
  same fun s a t h => by
    obtain rfl : (s.fresh base).2 = t := (Prod.mk.inj h).2
    rw [s.fresh_eq]
    exact ⟨rfl, rfl, trivial⟩

theorem edit {stage : Stage} {change : Stage.Edit Unit} :
    (Compilation.edit stage change).Yields name k B (fun u => change stage = (.ok (), u))
      fun _ => B := by
  rcases hc : change stage with ⟨e | _, u⟩
  all_goals
    unfold Compilation.edit
    rw [hc]
  · exact .throw
  · exact .pure rfl id

theorem flattened {stage : Stage} :
    (Compilation.flattened stage).Yields name k B (stage.toQuery = .ok ·) fun _ => B :=
  .bind .ofExcept fun q hq => .bind (R := fun _ => True) (.same fun s _ t h => by
    cases h
    exact ⟨rfl, rfl, trivial⟩) fun _ _ => .pure hq id

theorem setOperation {op : ClientOperation} :
    (Compilation.setOperation op).Accounts name k B fun _ => B := by
  refine .same fun s a t h => ?_
  unfold Compilation.setOperation at h
  rw [run_bind] at h
  change (if s.inSubquery = true then _ else _ : Compilation Unit) s = _ at h
  split at h
  · cases h
    exact ⟨rfl, rfl, trivial⟩
  cases hop : s.operation with
  | some existing =>
    rw [hop] at h
    dsimp only at h
    split at h
    · cases h
      exact ⟨rfl, rfl, trivial⟩
    · cases h
  | none =>
    rw [hop] at h
    change (Except.ok (), { s with operation := some op }) = _ at h
    cases h
    exact ⟨rfl, rfl, trivial⟩

theorem requireLast {method : String} :
    (Compilation.requireLast method).Accounts name k B fun _ => B :=
  .bind .get fun s _ => by
    cases s.isOutermost with
    | true => exact .pure trivial id
    | false => exact .throw

/-! ### Surroundings -/

/-- Surroundings that change neither what is in use nor, in the end, the stacks. -/
theorem within {k' : Stacks} {enter : Scope → Scope} {leave : Scope → Scope → Scope}
    (h : x.Yields name k' B R Q)
    (he : ∀ s : Scope, s.stacks = k → (enter s).stacks = k' ∧ (enter s).reported = s.reported)
    (hl : ∀ s t : Scope, s.stacks = k → t.stacks = k' →
      (leave s t).stacks = k ∧ (leave s t).reported = t.reported) :
    (Compilation.within enter leave x).Yields name k B R Q := by
  intro s a u hk hb hx
  unfold Compilation.within at hx
  rcases hrun : x (enter s) with ⟨r, t⟩
  rw [hrun] at hx
  cases hx
  obtain ⟨hin, hr⟩ := he s hk
  obtain ⟨hout, hresult, ha⟩ := h _ a t hin (fun hname => hb (hr ▸ hname)) hrun
  obtain ⟨hback, hr'⟩ := hl s t hk hout
  exact ⟨hback, hresult, fun hname => ha (hr' ▸ hname)⟩

theorem withMethod {method : String} (h : x.Yields name k B R Q) :
    (Compilation.withMethod method x).Yields name k B R Q :=
  h.within (fun _ hk => ⟨hk, rfl⟩) fun _ _ _ hk => ⟨hk, rfl⟩

theorem withGroup {g : GroupScope} (h : x.Yields name k B R Q) :
    (Compilation.withGroup g x).Yields name k B R Q :=
  h.within (fun _ hk => ⟨hk, rfl⟩) fun _ _ _ hk => ⟨hk, rfl⟩

theorem nested (h : x.Yields name k B R Q) : (Compilation.nested x).Yields name k B R Q :=
  h.within (fun _ hk => ⟨hk, rfl⟩) fun _ _ _ hk => ⟨hk, rfl⟩

section

variable {cs : List Collection} {bs : List (String × Scalar)}

theorem withCollection {c : Collection} (h : x.Yields name ⟨c :: cs, bs⟩ B R Q) :
    (Compilation.withCollection c x).Yields name ⟨cs, bs⟩ B R Q :=
  h.within (fun s hk => by cases hk; exact ⟨rfl, rfl⟩) fun s t _ hk => by
    obtain ⟨hc, hb⟩ := Stacks.mk.inj hk
    exact ⟨congrArg₂ Stacks.mk (congrArg List.tail hc) hb, rfl⟩

theorem withParameter {n : String} {target : Scalar}
    (h : x.Yields name ⟨cs, (n, target) :: bs⟩ B R Q) :
    (Compilation.withParameter n target x).Yields name ⟨cs, bs⟩ B R Q :=
  h.within (fun s hk => by cases hk; exact ⟨rfl, rfl⟩) fun s t _ hk => by
    obtain ⟨hc, hb⟩ := Stacks.mk.inj hk
    exact ⟨congrArg₂ Stacks.mk hc (congrArg List.tail hb), rfl⟩

variable {n : String} {stage : Stage} {act : Stage → Compilation α}

/-- The parameter of a lambda over the rows of the stage. -/
theorem withRow_outer {m : String}
    (h : (act stage).Yields name ⟨.outer m :: cs, (n, stage.layer.row) :: bs⟩ B R Q) :
    (Compilation.withRow n stage act).Yields name ⟨.outer m :: cs, bs⟩ B R Q := by
  intro s a t hk hb hx
  refine h.withParameter (n := n) s a t hk hb ?_
  rw [← hx]
  unfold Compilation.withRow Compilation.withParameter Compilation.within Scope.bind
  rw [(Stacks.mk.inj hk).1]

/-- The parameter of a lambda over the items of an array, which the stage then iterates. -/
theorem withRow_inner {path : Scalar}
    (h : ∀ item, (act (stage.addJoin item path)).Yields name
      ⟨.inner path :: cs, (n, .ref item) :: bs⟩ B R Q) :
    (Compilation.withRow n stage act).Yields name ⟨.inner path :: cs, bs⟩ B R Q := by
  intro s a t hk hb hx
  have hf := s.fresh_eq n
  refine ((h (s.fresh n).1).withParameter (n := n)) (s.fresh n).2 a t ?_ ?_ ?_
  · rw [hf]
    exact hk
  · rw [hf]
    exact hb
  · rw [← hx]
    unfold Compilation.withRow Compilation.withParameter Compilation.within Scope.bind
    rw [(Stacks.mk.inj hk).1]

end

end Yields

namespace Accounts

variable {name : String} {k : Stacks} {B : Prop} {x : Compilation α} {P Q : α → Prop}

protected theorem pure {a : α} (h : B → Q a) : (pure a : Compilation α).Accounts name k B Q :=
  Yields.pure trivial h

protected theorem bind {f : α → Compilation β} {Q' : β → Prop} (h : x.Accounts name k B P)
    (hf : ∀ a, (f a).Accounts name k (P a) Q') : (x >>= f).Accounts name k B Q' :=
  Yields.bind h fun a _ => hf a

theorem imp (h : x.Accounts name k B P) (hq : ∀ a, P a → Q a) : x.Accounts name k B Q :=
  Yields.imp h hq

theorem of_yields {R : α → Prop} (h : x.Yields name k B R P) (hq : ∀ a, R a → P a → Q a) :
    x.Accounts name k B Q := fun s a t hk hb hx =>
  have ⟨hk', hr, ha⟩ := h s a t hk hb hx
  ⟨hk', trivial, fun hname => hq a hr (ha hname)⟩

protected theorem ofHost {r : Except HostError α} :
    (ofHost r : Compilation α).Accounts name k B fun _ => B := .of_yields .ofExcept fun _ _ => id

protected theorem ofExcept {r : Except CompileError α} :
    (ofExcept r : Compilation α).Accounts name k B fun _ => B :=
  .of_yields Yields.ofExcept fun _ _ => id

/-! ### Constants -/

theorem bindConstant (options : Options) (v : Value) :
    (Compilation.bindConstant options v).Accounts name k B fun r => B ∨ r = some name := by
  intro s r t hk hb hx
  rw [bindConstant_eq] at hx
  split at hx
  · cases hx
    exact ⟨hk, trivial, fun hname => .inl (hb hname)⟩
  split at hx
  · rename_i bound _ _
    cases hx
    unfold Scope.useParameter
    split
    · exact ⟨hk, trivial, fun hname => .inl (hb hname)⟩
    · refine ⟨hk, trivial, fun hname => ?_⟩
      simp only [Scope.reported, List.map_append, List.mem_append, List.map_cons, List.map_nil,
        List.mem_singleton] at hname
      exact hname.imp hb fun h => congrArg some h.symm
  · cases hx

/-- A constant that may be bound to a parameter. -/
theorem bound (options : Options) (v : Value) {x : Compilation Scalar}
    (h : x.Accounts name k B fun a => B ∨ a.Mentions name) : (do
      match ← Compilation.bindConstant options v with
      | some n => return .parameter n
      | none => x : Compilation Scalar).Accounts name k B fun a => B ∨ a.Mentions name :=
  .bind (bindConstant options v) fun
    | some _ => .pure fun h => h.imp_right fun h => Scalar.mentions_parameter.mpr
      (Option.some.inj h)
    | none => h.weaken fun h => h.resolve_right nofun

end Accounts

/-- The scalar refers to what its computation puts into use. -/
def Mentioned (name : String) (x : Compilation Scalar) : Prop :=
  ∀ (k : Stacks) (B : Prop), x.Accounts name k B fun a => B ∨ a.Mentions name

section

variable {name : String} {k : Stacks} {B : Prop}

/-! ## Literals -/

section

variable (options : Options)

theorem accounts_inlined (naming : Naming) (ty : HostType) (v : Value) :
    (inlined naming ty v).Mentioned name := by
  intro k B
  unfold inlined
  split
  · exact .bind .ofHost fun _ => .imp .ofExcept fun _ => .inl
  · exact .throw
  · exact .imp .ofExcept fun _ => .inl

theorem accounts_plain {ty : HostType} {v : Value} (hv : ∀ items, v ≠ .array items) :
    (constant options ty v).Mentioned name := by
  intro k B
  rw [constant.eq_2 _ _ _ fun items he => hv items he]
  exact .refuse fun _ => (Accounts.bound options v (accounts_inlined options.naming ty v k B))

mutual

theorem accounts_constant (ty : HostType) : ∀ v : Value, (constant options ty v).Mentioned name
  | .array items, _, _ => by
    rw [constant]
    exact .refuse fun _ =>
      (Accounts.bound options (.array items) (.bind (accounts_constants _ items _ _) fun _ =>
      .pure fun h => h.imp_right Scalar.mentions_array.mpr))
  | .null, _, _ | .boolean _, _, _ | .integer _, _, _ | .unsigned _, _, _ | .float _, _, _
  | .decimal _, _, _ | .char _, _, _ | .string _, _, _ | .guid _, _, _ | .geometry _, _, _
  | .object _, _, _ | .query _, _, _ => accounts_plain options (by rintro _ ⟨⟩) _ _

theorem accounts_constants (ty : HostType) : ∀ (vs : List Value) (k : Stacks) (B : Prop),
    (constants options ty vs).Accounts name k B fun as => B ∨ ∃ a ∈ as, a.Mentions name
  | [], _, _ => .pure .inl
  | v :: vs, _, _ =>
    .bind (accounts_constant ty v _ _) fun _ => .bind (accounts_constants ty _ _ _) fun _ =>
    .pure fun h => by simpa [or_assoc] using h

end

theorem accounts_count (method : String) (arg : Expr) :
    (count options method arg).Accounts name k B fun c => B ∨ c = .parameter name := by
  unfold count
  split
  · exact .throw
  · refine .bind (.bindConstant options _) fun n => ?_
    cases n with
    | some n => exact .pure fun h => h.imp_right fun h => congrArg _ (Option.some.inj h)
    | none =>
      dsimp only
      split
      · split
        · exact .pure fun h => h.imp_right fun h => by cases h
        · exact .throw
      · exact .throw

end

/-! ## Builtin functions -/

section

variable {o p : Operand} {os : List Operand}

theorem accounts_all (h : ∀ o ∈ os, o.scalar.Mentioned name) :
    (Builtin.all os).Accounts name k B fun as => B ∨ ∃ a ∈ as, a.Mentions name := by
  unfold Builtin.all
  induction os generalizing B with
  | nil => exact .pure .inl
  | cons o os ih =>
    obtain ⟨ho, hos⟩ := List.forall_mem_cons.mp h
    rw [List.mapM_cons]
    exact .bind (ho _ _) fun _ => .bind (ih hos) fun _ => .pure fun h => by simpa [or_assoc] using h

/-- A rule that knows a call, with what it makes of it. -/
def Found (name : String) (B : Prop) (r : Option Scalar) : Prop := ∀ a ∈ r, B ∨ a.Mentions name

theorem accounts_none {C : Prop} : (pure none : Compilation (Option Scalar)).Accounts name k C
    (Found name B) := .pure fun _ _ h => nomatch h

theorem accounts_stringMethod? (method : String) (ho : o.scalar.Mentioned name)
    (h : ∀ o ∈ os, o.scalar.Mentioned name) :
    (Builtin.stringMethod? method o os).Accounts name k B (Found name B) := by
  unfold Builtin.stringMethod?
  refine .bind (ho _ _) fun subject => ?_
  split
  · exact .bind (h _ (by simp) _ _) fun _ => .pure fun h => by simpa [Found, or_assoc] using h
  · exact .bind (h _ (by simp) _ _) fun _ => .bind (h _ (by simp) _ _) fun _ =>
      .pure fun h => by simpa [Found, or_assoc] using h
  · exact .bind (h _ (by simp) _ _) fun _ => .bind (h _ (by simp) _ _) fun _ =>
      .pure fun h => by simpa [Found, or_assoc] using h
  · refine .bind (h _ (by simp) _ _) fun _ => .pure fun h => ?_
    simp only [Found, Option.mem_some_iff, forall_eq', Scalar.mentions_builtin,
      List.exists_mem_cons_iff]
    exact h.elim (Or.imp_right .inl) fun h => .inr (.inr (.inl h))
  · exact .bind (h _ (by simp) _ _) fun _ => .bind (h _ (by simp) _ _) fun _ =>
      .pure fun h => by simpa [Found, or_assoc] using h
  · exact .bind (h _ (by simp) _ _) fun _ =>
      .pure fun h => by simpa [Found, Scalar.integer, or_assoc] using h
  · exact .bind (h _ (by simp) _ _) fun _ =>
      .pure fun h => by simpa [Found, Scalar.equal, or_assoc] using h
  · refine .bind (h _ (by simp) _ _) fun _ => .pure fun h a ha => ?_
    obtain ⟨ignoreCase, -, rfl⟩ := Option.map_eq_some_iff.mp ha
    cases ignoreCase <;>
      simpa [Builtin.stringEquals, Scalar.equal, Scalar.boolean, or_assoc] using h
  · refine .pure fun h a ha => ?_
    obtain ⟨function, -, rfl⟩ := Option.map_eq_some_iff.mp ha
    simpa using h
  · split
    · exact .bind (h _ (by simp) _ _) fun _ => .pure fun h => by simpa [Found, or_assoc] using h
    · exact accounts_none
  · split
    · rename_i ignoreCase _ _
      refine .bind (h _ (by simp) _ _) fun _ => .pure fun h => ?_
      cases ignoreCase <;> simpa [Found, Scalar.boolean, or_assoc] using h
    · exact accounts_none
  · exact accounts_none

theorem accounts_itemsOf (ho : o.scalar.Mentioned name) :
    (Builtin.itemsOf o).Accounts name k B fun as => B ∨ ∃ a ∈ as, a.Mentions name := by
  refine .bind (ho _ _) fun s => ?_
  split
  · exact .pure fun h => by simpa using h
  · exact .pure fun h => by simpa using h

theorem accounts_staticStringMethod? (method : String) (h : ∀ o ∈ os, o.scalar.Mentioned name) :
    (Builtin.staticStringMethod? method os).Accounts name k B (Found name B) := by
  unfold Builtin.staticStringMethod?
  split
  · split
    · exact .bind (accounts_itemsOf (h _ (by simp))) fun _ =>
        .pure fun h => by simpa [Found] using h
    · exact accounts_none
  · exact .bind (accounts_all h) fun _ => .pure fun h => by simpa [Found] using h
  · exact .bind (h _ (by simp) _ _) fun _ => .pure fun h => by simpa [Found] using h
  · exact .bind (h _ (by simp) _ _) fun _ =>
      .pure fun h => by simpa [Found, Scalar.equal, Scalar.null, Scalar.string] using h
  · exact .bind (h _ (by simp) _ _) fun _ => .bind (h _ (by simp) _ _) fun _ =>
      .pure fun h => by simpa [Found, Scalar.equal, or_assoc] using h
  · refine .bind (h _ (by simp) _ _) fun _ => .bind (h _ (by simp) _ _) fun _ =>
      .pure fun h a ha => ?_
    obtain ⟨ignoreCase, -, rfl⟩ := Option.map_eq_some_iff.mp ha
    cases ignoreCase <;>
      simpa [Builtin.stringEquals, Scalar.equal, Scalar.boolean, or_assoc] using h
  · exact accounts_none

theorem accounts_mathMethod? (method : String) (h : ∀ o ∈ os, o.scalar.Mentioned name) :
    (Builtin.mathMethod? method os).Accounts name k B (Found name B) := by
  unfold Builtin.mathMethod?
  split
  · exact .bind (accounts_all h) fun _ => .pure fun h => by simpa [Found] using h
  · exact accounts_none

/-- The empty list, of which nothing is an item, refers to no parameter. -/
theorem accounts_contains (ho : o.scalar.Mentioned name) (hp : p.scalar.Mentioned name) :
    (Builtin.contains o p).Mentioned name := by
  intro k B
  refine .bind (ho _ _) fun sequence => ?_
  split
  · exact .pure fun h => by simpa [Scalar.boolean] using h
  · exact .bind (hp _ _) fun _ => .pure fun h => by
      simp only [Scalar.mentions_isIn, Scalar.mentions_array] at h ⊢
      exact h.elim (Or.imp_right .inr) fun h => .inr (.inl h)
  · exact .bind (hp _ _) fun _ => .pure fun h => by simpa [or_assoc] using h

theorem accounts_sequenceMethod? (method : String) {target : Option Operand}
    (h : ∀ o ∈ target.toList ++ os, o.scalar.Mentioned name) :
    (Builtin.sequenceMethod? method target os).Accounts name k B (Found name B) := by
  unfold Builtin.sequenceMethod?
  generalize target.toList ++ os = ps at h
  split
  · exact .bind (accounts_contains (h _ (by simp)) (h _ (by simp)) _ _) fun _ =>
      .pure fun h => by simpa [Found] using h
  · exact .bind (h _ (by simp) _ _) fun _ => .bind (h _ (by simp) _ _) fun _ =>
      .pure fun h => by simpa [Found, or_assoc] using h
  · exact .bind (h _ (by simp) _ _) fun _ => .pure fun h => by simpa [Found] using h
  · exact accounts_none

theorem accounts_typeCheck? (method : String) (h : ∀ o ∈ os, o.scalar.Mentioned name) :
    (Builtin.typeCheck? method os).Accounts name k B (Found name B) := by
  unfold Builtin.typeCheck?
  dsimp only
  split
  · exact accounts_none
  · exact .bind (h _ (by simp) _ _) fun _ => .pure fun h => by simpa [Found] using h
  · exact .throw

theorem accounts_objectMethod? (method : String) {target : Option Operand}
    (h : ∀ o ∈ target.toList ++ os, o.scalar.Mentioned name) :
    (Builtin.objectMethod? method target os).Accounts name k B (Found name B) := by
  unfold Builtin.objectMethod?
  split
  · exact .bind (h _ (by simp) _ _) fun _ => .pure fun h => by simpa [Found] using h
  · exact .bind (h _ (by simp) _ _) fun _ => .bind (h _ (by simp) _ _) fun _ =>
      .pure fun h => by simpa [Found, Scalar.equal, or_assoc] using h
  · exact accounts_none

theorem accounts_call (method : Method) {target : Option Operand}
    (h : ∀ o ∈ target.toList ++ os, o.scalar.Mentioned name) :
    (Builtin.call method target os).Mentioned name := by
  intro k B
  have hos : ∀ o ∈ os, o.scalar.Mentioned name := fun o ho => h o (List.mem_append_right _ ho)
  have hfound : (Builtin.find? method target os).Accounts name k B (Found name B) := by
    obtain ⟨declaring, method⟩ := method
    cases declaring with
    | queryable | userFunction | queryEscape | host => exact accounts_none
    | enumerable | list => exact accounts_sequenceMethod? _ h
    | string =>
      cases target with
      | none => exact accounts_staticStringMethod? _ hos
      | some target => exact accounts_stringMethod? _ (h _ (by simp)) hos
    | math => exact accounts_mathMethod? _ hos
    | typeCheck => exact accounts_typeCheck? _ hos
    | object => exact accounts_objectMethod? _ h
  rw [Builtin.call_eq]
  refine .bind hfound fun found => ?_
  cases found with
  | none => exact .throw
  | some a => exact .pure fun h => h _ rfl

end

end

end Compilation

end LambdaQuery
