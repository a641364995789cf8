import LambdaQuery.Proofs.Computations
import LambdaQuery.Proofs.Within

/-!
# Operands of builtin functions

A compilation does not read all operands of a call (`Expr.readOperands`). A builtin function that is
known is built over the scalars of those that it reads, apart from a flag that says how to compare:
what holds of the operands and their scalars holds of scalars within its result
(`Compilation.givesIn_call`).
-/

set_option autoImplicit false

namespace LambdaQuery

/-! ## Operands that are read -/

/-- Declared for calls without target, also where it extends a type. -/
def Declaring.isStatic : Declaring → Bool
  | .queryable | .enumerable | .math | .typeCheck | .userFunction | .queryEscape => true
  | .string | .list | .object | .host _ => false

namespace Expr

/-- A list of items that the query shows to be empty. -/
def isEmptyList : Expr → Bool
  | .constant (.array []) _ | .newArray [] _ => true
  | _ => false

/-- Whether a call seeks an item in an empty list: there is none, whatever the item. -/
def seeksInNothing (method : Method) (operands : List Expr) : Bool :=
  match method.declaring, operands with
  | .enumerable, [source, _] | .list, [source, _] =>
    method.name == "Contains" && source.isEmptyList
  | _, _ => false

/-- The operands of a call that a compilation reads: none of text in place of operators, and the
target of no static method. -/
def readOperands (target : Option Expr) (method : Method) (args : List Expr) : List Expr :=
  if method.declaring = .queryEscape || seeksInNothing method (target.toList ++ args) then []
  else if method.declaring.isStatic then args
  else target.toList ++ args

theorem mem_of_mem_readOperands {target : Option Expr} {method : Method} {args : List Expr}
    {d : Expr} (h : d ∈ readOperands target method args) : d ∈ target.toList ++ args := by
  unfold readOperands at h
  split at h
  · cases h
  split at h
  · exact List.mem_append_right _ h
  · exact h

/-- Static methods are called with arguments alone. -/
theorem mem_args_of_mem_readOperands {target : Option Expr} {method : Method} {args : List Expr}
    {d : Expr} (hs : method.declaring.isStatic) (h : d ∈ readOperands target method args) :
    d ∈ args := by
  unfold readOperands at h
  rw [if_pos hs] at h
  split at h
  · cases h
  · exact h

end Expr

namespace Compilation

/-! ## Scalars that are built over operands -/

/-- The scalar is built over one for which `P` holds with the expression `d`, or `d` is a flag. -/
def Uses (P : Expr → Scalar → Prop) (d : Expr) (a : Scalar) : Prop :=
  d.asConstant?.isSome = true ∨ ∃ b, P d b ∧ b.Within a

variable {S : Scope → Prop} {P : Expr → Scalar → Prop} {o p : Operand} {os : List Operand}
  {found : Option Scalar}

/-- What a rule makes of a call that it knows uses all operands. -/
def Known (P : Expr → Scalar → Prop) (os : List Operand) (found : Option Scalar) : Prop :=
  ∀ a ∈ found, ∀ o ∈ os, Uses P o.expr a

theorem Known.builtin {name : String} {as : List Scalar} (h : ∀ o ∈ os, ∃ a ∈ as, P o.expr a) :
    Known P os (some (.builtin name as)) := by
  rintro _ ⟨⟩ o ho
  obtain ⟨a, ha, hp⟩ := h o ho
  exact .inr ⟨a, hp, .call _ _ ⟨a, ha, .refl a⟩⟩

theorem Known.equal {a b : Scalar} (ha : P o.expr a) (hb : P p.expr b) :
    Known P [o, p] (some (.equal a b)) := by
  rintro _ ⟨⟩
  exact List.forall_mem_cons.mpr ⟨.inr ⟨a, ha, .binary _ (.inl (.refl a))⟩,
    List.forall_mem_singleton.mpr (.inr ⟨b, hb, .binary _ (.inr (.refl b))⟩)⟩

theorem Known.stringEquals {a b : Scalar} (ha : P o.expr a) (hb : P p.expr b)
    (ignoreCase : Bool) : Known P [o, p] (some (Builtin.stringEquals ignoreCase a b)) := by
  cases ignoreCase with
  | false => exact .equal ha hb
  | true => exact .builtin (by simp [ha, hb])

/-- An argument that says how to compare is a constant. -/
theorem Known.flag {ignoreCase : Bool} (hp : Builtin.ignoresCase? p.expr = some ignoreCase)
    (h : Known P os found) : Known P (os ++ [p]) found := by
  refine fun a ha => List.forall_mem_append.mpr ⟨h a ha, List.forall_mem_singleton.mpr (.inl ?_)⟩
  unfold Builtin.ignoresCase? at hp
  split at hp <;> first | exact Option.isSome_iff_exists.mpr ⟨_, ‹_›⟩ | cases hp

theorem Known.compared {f : Bool → Scalar} (h : ∀ ignoreCase, Known P os (some (f ignoreCase))) :
    Known P (os ++ [p]) ((Builtin.ignoresCase? p.expr).map f) := by
  intro a ha
  obtain ⟨ignoreCase, hp, rfl⟩ := Option.map_eq_some_iff.mp ha
  exact (h ignoreCase).flag hp _ rfl

theorem givesIn_none : (pure none : Compilation (Option Scalar)).GivesIn S (Known P os) :=
  .pure nofun

/-! ## Rules -/

theorem givesIn_all (h : ∀ o ∈ os, o.scalar.GivesIn S (P o.expr)) :
    (Builtin.all os).GivesIn S fun as => ∀ o ∈ os, ∃ a ∈ as, P o.expr a := by
  unfold Builtin.all
  induction os with
  | nil => exact .pure (List.forall_mem_nil _)
  | cons o os ih =>
    obtain ⟨ho, hos⟩ := List.forall_mem_cons.mp h
    rw [List.mapM_cons]
    refine ho.bind fun a ha => (ih hos).bind fun as has => .pure ?_
    exact List.forall_mem_cons.mpr ⟨⟨a, List.mem_cons_self, ha⟩, fun p hp =>
      (has p hp).imp fun _ => And.imp_left (List.mem_cons_of_mem _)⟩

theorem givesIn_stringMethod? (name : String) (ho : o.scalar.GivesIn S (P o.expr))
    (h : ∀ o ∈ os, o.scalar.GivesIn S (P o.expr)) :
    (Builtin.stringMethod? name o os).GivesIn S (Known P (o :: os)) := by
  unfold Builtin.stringMethod?
  refine ho.bind fun subject ho => ?_
  split
  · exact (h _ (by simp)).bind fun _ h₁ => .pure (.builtin (by simp [ho, h₁]))
  · exact (h _ (by simp)).bind fun _ h₁ => (h _ (by simp)).bind fun _ h₂ =>
      .pure (.builtin (by simp [ho, h₁, h₂]))
  · exact (h _ (by simp)).bind fun _ h₁ => (h _ (by simp)).bind fun _ h₂ =>
      .pure (.builtin (by simp [ho, h₁, h₂]))
  · exact (h _ (by simp)).bind fun _ h₁ => .pure (.builtin (by simp [ho, h₁]))
  · exact (h _ (by simp)).bind fun _ h₁ => (h _ (by simp)).bind fun _ h₂ =>
      .pure (.builtin (by simp [ho, h₁, h₂]))
  · exact (h _ (by simp)).bind fun _ h₁ => .pure (.builtin (by simp [ho, h₁]))
  · exact (h _ (by simp)).bind fun _ h₁ => .pure (.equal ho h₁)
  · exact (h _ (by simp)).bind fun _ h₁ => .pure (.compared (.stringEquals ho h₁))
  · refine .pure fun a ha => ?_
    obtain ⟨function, -, rfl⟩ := Option.map_eq_some_iff.mp ha
    exact Known.builtin (by simp [ho]) _ rfl
  · split
    · exact (h _ (by simp)).bind fun _ h₁ => .pure (.builtin (by simp [ho, h₁]))
    · exact givesIn_none
  · rename_i part comparison _ _ _ _
    split
    · rename_i function ignoreCase _ hflag
      refine (h part (by simp)).bind fun text h₁ => .pure ?_
      have hknown : Known P [o, part] (some (.builtin function
          (if ignoreCase then [subject, text, .boolean true] else [subject, text]))) :=
        .builtin (by cases ignoreCase <;> simp [ho, h₁])
      exact hknown.flag hflag
    · exact givesIn_none
  · exact givesIn_none

theorem givesIn_itemsOf (ho : o.scalar.GivesIn S (P o.expr)) :
    (Builtin.itemsOf o).GivesIn S fun as => ∀ name, Uses P o.expr (.builtin name as) := by
  refine GivesIn.bind ho fun a ha => ?_
  split
  · rename_i items
    exact .pure fun name => .inr ⟨_, ha, .spread name false (.refl _)⟩
  · rename_i a _
    exact .pure fun name => .inr ⟨_, ha, .call name false ⟨_, List.mem_singleton_self _, .refl _⟩⟩

theorem givesIn_staticStringMethod? (name : String) (h : ∀ o ∈ os, o.scalar.GivesIn S (P o.expr)) :
    (Builtin.staticStringMethod? name os).GivesIn S (Known P os) := by
  unfold Builtin.staticStringMethod?
  split
  · split
    · refine (givesIn_itemsOf (h _ (by simp))).bind fun _ h₁ => .pure ?_
      rintro _ ⟨⟩
      exact List.forall_mem_singleton.mpr (h₁ _)
    · exact givesIn_none
  · exact (givesIn_all h).bind fun _ h₁ => .pure (.builtin h₁)
  · exact (h _ (by simp)).bind fun _ h₁ => .pure (.builtin (by simp [h₁]))
  · refine (h _ (by simp)).bind fun subject h₁ => .pure ?_
    rintro _ ⟨⟩
    exact List.forall_mem_singleton.mpr
      (.inr ⟨subject, h₁, .binary _ (.inl (.binary _ (.inl (.refl _))))⟩)
  · exact (h _ (by simp)).bind fun _ h₁ => (h _ (by simp)).bind fun _ h₂ => .pure (.equal h₁ h₂)
  · exact (h _ (by simp)).bind fun _ h₁ => (h _ (by simp)).bind fun _ h₂ =>
      .pure (.compared (.stringEquals h₁ h₂))
  · exact givesIn_none

theorem givesIn_mathMethod? (name : String) (h : ∀ o ∈ os, o.scalar.GivesIn S (P o.expr)) :
    (Builtin.mathMethod? name os).GivesIn S (Known P os) := by
  unfold Builtin.mathMethod?
  split
  · exact (givesIn_all h).bind fun _ h₁ => .pure (.builtin h₁)
  · exact givesIn_none

/-- The item is not looked at where the query shows that there are none. -/
theorem givesIn_contains (ho : o.scalar.GivesIn S (P o.expr)) (hp : p.scalar.GivesIn S (P p.expr))
    (hnone : P o.expr (.array []) → Builtin.isInlineList o.expr = true →
      o.expr.isEmptyList = true) :
    (Builtin.contains o p).GivesIn S fun a =>
      o.expr.isEmptyList = false → Known P [o, p] (some a) := by
  refine GivesIn.bind ho fun sequence ho => ?_
  split
  · rename_i hlist
    exact .pure fun hsome => absurd (hnone ho hlist) (Bool.eq_false_iff.mp hsome)
  · refine hp.bind fun item hp => .pure fun _ => ?_
    rintro _ ⟨⟩
    exact List.forall_mem_cons.mpr ⟨.inr ⟨_, ho, .isIn false (.inr (.refl _))⟩,
      List.forall_mem_singleton.mpr (.inr ⟨_, hp, .isIn false (.inl (.refl _))⟩)⟩
  · exact hp.bind fun item hp => .pure fun _ => .builtin (by simp [ho, hp])

theorem givesIn_sequenceMethod? {method : Method} {target : Option Operand}
    (hm : method.declaring = .enumerable ∨ method.declaring = .list)
    (h : ∀ o ∈ target.toList ++ os, o.scalar.GivesIn S (P o.expr))
    (hnone : ∀ o ∈ target.toList ++ os, P o.expr (.array []) →
      Builtin.isInlineList o.expr = true → o.expr.isEmptyList = true) :
    (Builtin.sequenceMethod? method.name target os).GivesIn S fun found =>
      Expr.seeksInNothing method ((target.toList ++ os).map (·.expr)) = false →
        Known P (target.toList ++ os) found := by
  unfold Builtin.sequenceMethod?
  generalize target.toList ++ os = ps at h hnone
  split
  · rename_i source item hname
    refine (givesIn_contains (h _ (by simp)) (h _ (by simp)) (hnone _ (by simp))).bind
      fun _ hknown => .pure fun hseeks => hknown ?_
    unfold Expr.seeksInNothing at hseeks
    rcases hm with hm | hm <;> simpa [hm, hname] using hseeks
  · exact (h _ (by simp)).bind fun _ h₁ => (h _ (by simp)).bind fun _ h₂ =>
      .pure fun _ => .builtin (by simp [h₁, h₂])
  · exact (h _ (by simp)).bind fun _ h₁ => .pure fun _ => .builtin (by simp [h₁])
  · exact .pure fun _ => nofun

theorem givesIn_typeCheck? (name : String) (h : ∀ o ∈ os, o.scalar.GivesIn S (P o.expr)) :
    (Builtin.typeCheck? name os).GivesIn S (Known P os) := by
  unfold Builtin.typeCheck?
  dsimp only
  split
  · exact givesIn_none
  · exact (h _ (by simp)).bind fun _ h₁ => .pure (.builtin (by simp [h₁]))
  · exact .throw

theorem givesIn_objectMethod? (name : String) {target : Option Operand}
    (h : ∀ o ∈ target.toList ++ os, o.scalar.GivesIn S (P o.expr)) :
    (Builtin.objectMethod? name target os).GivesIn S (Known P (target.toList ++ os)) := by
  unfold Builtin.objectMethod?
  split
  · exact (h _ (by simp)).bind fun _ h₁ => .pure (.builtin (by simp [h₁]))
  · exact (h _ (by simp)).bind fun _ h₁ => (h _ (by simp)).bind fun _ h₂ => .pure (.equal h₁ h₂)
  · exact givesIn_none

/-- **A builtin function is built over what it reads** of its operands. A list that the query shows
must be empty if its scalar is. -/
theorem givesIn_call (method : Method) {target : Option Operand}
    (h : ∀ o ∈ target.toList ++ os, o.scalar.GivesIn S (P o.expr))
    (hnone : ∀ o ∈ target.toList ++ os, P o.expr (.array []) →
      Builtin.isInlineList o.expr = true → o.expr.isEmptyList = true) :
    (Builtin.call method target os).GivesIn S fun a =>
      ∀ d ∈ Expr.readOperands (target.map (·.expr)) method (os.map (·.expr)), Uses P d a := by
  have hos : ∀ o ∈ os, o.scalar.GivesIn S (P o.expr) := fun o ho => h o (List.mem_append_right _ ho)
  have hoperands : (target.map (·.expr)).toList ++ os.map (·.expr) =
      (target.toList ++ os).map (·.expr) := by
    cases target <;> simp
  generalize hread : Expr.readOperands (target.map (·.expr)) method (os.map (·.expr)) = read
  have hknown : ∀ {x : Compilation (Option Scalar)} {ps : List Operand}, x.GivesIn S (Known P ps) →
      (∀ d ∈ read, d ∈ ps.map (·.expr)) →
        x.GivesIn S fun found => ∀ a ∈ found, ∀ d ∈ read, Uses P d a := by
    intro x ps hx hps
    refine hx.imp fun found hfound a ha d hd => ?_
    obtain ⟨o, ho, rfl⟩ := List.mem_map.mp (hps d hd)
    exact hfound a ha o ho
  have hall : ∀ d ∈ read, d ∈ (target.toList ++ os).map (·.expr) := fun d hd =>
    hoperands ▸ Expr.mem_of_mem_readOperands (hread ▸ hd)
  have hstatic : method.declaring.isStatic = true → ∀ d ∈ read, d ∈ os.map (·.expr) :=
    fun hs d hd => Expr.mem_args_of_mem_readOperands hs (hread ▸ hd)
  have hfound : (Builtin.find? method target os).GivesIn S fun found =>
      ∀ a ∈ found, ∀ d ∈ read, Uses P d a := by
    unfold Builtin.find?
    cases hd : method.declaring with
    | queryable | userFunction | queryEscape | host => exact hknown givesIn_none hall
    | enumerable | list =>
      refine (givesIn_sequenceMethod? (by simp [hd]) h hnone).imp fun found hfound a ha d hmem => ?_
      obtain ⟨o, ho, rfl⟩ := List.mem_map.mp (hall d hmem)
      refine hfound (Bool.eq_false_iff.mpr fun hseeks => ?_) a ha o ho
      rw [← hread, Expr.readOperands, hoperands, hseeks, Bool.or_true, if_pos rfl] at hmem
      cases hmem
    | string =>
      cases target with
      | none => exact hknown (givesIn_staticStringMethod? _ hos) hall
      | some target => exact hknown (givesIn_stringMethod? _ (h _ (by simp)) hos) hall
    | math => exact hknown (givesIn_mathMethod? _ hos) (hstatic (by rw [hd]; rfl))
    | typeCheck => exact hknown (givesIn_typeCheck? _ hos) (hstatic (by rw [hd]; rfl))
    | object => exact hknown (givesIn_objectMethod? _ h) hall
  rw [Builtin.call_eq]
  refine hfound.bind fun found hfound => ?_
  cases found with
  | none => exact .throw
  | some a => exact .pure (hfound a rfl)

/-! ## Calls -/

section

variable {env : Environment}

theorem gives_length_constants {options : Options} {ty : HostType} (vs : List Value) :
    (constants options ty vs).Gives fun as => as.length = vs.length := by
  induction vs with
  | nil =>
    rw [constants]
    exact .pure rfl
  | cons v vs ih =>
    rw [constants]
    exact .second fun _ => ih.bind fun _ has => .pure (congrArg (· + 1) has)

theorem gives_length_scalars (es : List Expr) :
    (scalars env es).Gives fun as => as.length = es.length := by
  induction es with
  | nil =>
    rw [scalars]
    exact .pure rfl
  | cons e es ih =>
    rw [scalars]
    exact .second fun _ => ih.bind fun _ has => .pure (congrArg (· + 1) has)

/-- A list that the query shows is empty if its scalar is. -/
theorem gives_isEmptyList {e : Expr} (hlist : Builtin.isInlineList e = true) :
    (scalar env e).Gives fun a => a = .array [] → e.isEmptyList = true := by
  unfold Builtin.isInlineList at hlist
  split at hlist
  · rename_i items ty
    rw [scalar, constant]
    refine .refuse fun _ => .second fun bound => ?_
    cases bound with
    | some name => exact .pure (by rintro ⟨⟩)
    | none =>
      refine (gives_length_constants items).bind fun as has => .pure fun ha => ?_
      rw [Scalar.array.inj ha] at has
      rw [List.length_eq_zero_iff.mp has.symm]
      rfl
  · rename_i items ty
    rw [scalar]
    refine (gives_length_scalars items).bind fun as has => .pure fun ha => ?_
    rw [Scalar.array.inj ha] at has
    rw [List.length_eq_zero_iff.mp has.symm]
    rfl
  · cases hlist

/-- Besides `P`, a list is known to be empty if its scalar is. -/
def Checked (P : Expr → Scalar → Prop) (d : Expr) (a : Scalar) : Prop :=
  P d a ∧ (Builtin.isInlineList d = true → a = .array [] → d.isEmptyList = true)

/-- **A call of a builtin function is built over what it reads** of its operands. -/
theorem givesIn_builtin {target : Option Expr} {method : Method} {args : List Expr}
    (h : ∀ d ∈ target.toList ++ args, (scalar env d).GivesIn S (P d)) :
    (Builtin.call method (target.map fun d => ⟨d, scalar env d⟩)
      (args.map fun d => Operand.mk d (scalar env d))).GivesIn S fun a =>
        ∀ d ∈ Expr.readOperands target method args, Uses P d a := by
  have hoperands : ((target.map fun d => Operand.mk d (scalar env d)).toList ++
      args.map fun d => Operand.mk d (scalar env d)) =
        (target.toList ++ args).map fun d => Operand.mk d (scalar env d) := by
    cases target <;> simp
  have hchecked : ∀ o ∈ (target.map fun d => Operand.mk d (scalar env d)).toList ++
      args.map fun d => Operand.mk d (scalar env d), o.scalar.GivesIn S (Checked P o.expr) := by
    rw [hoperands]
    refine List.forall_mem_map.mpr fun d hd s a t hs hrun => ?_
    obtain ⟨ht, ha⟩ := h d hd s a t hs hrun
    exact ⟨ht, ha, fun hlist => gives_isEmptyList hlist s a t hrun⟩
  have hcall := givesIn_call method hchecked fun o _ hq hlist => hq.2 hlist rfl
  simp only [Option.map_map, List.map_map, Function.comp_def, Option.map_id', List.map_id'] at hcall
  exact hcall.imp fun a huses d hd => (huses d hd).imp_right fun ⟨b, hb, hwithin⟩ =>
    ⟨b, hb.1, hwithin⟩

end

end Compilation

end LambdaQuery
