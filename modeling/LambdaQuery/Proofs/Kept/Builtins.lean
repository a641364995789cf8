import LambdaQuery.Proofs.Kept.Invariants

/-!
# Invariants of builtin functions

A builtin function puts the scalars of its operands into a call that is no aggregate, a comparison
or a membership test. So what holds of its operands holds of the call (`ScalarInvariant.builtin`).
-/

set_option autoImplicit false

namespace LambdaQuery.ScalarInvariant

variable (I : ScalarInvariant)

/-- The scalar of an operand satisfies the invariant wherever it is compiled from now on. -/
def Operands (s : Scope) (o : Operand) : Prop := ∀ t, s.Grows t → o.scalar.Ensures t I.holds

/-- The scalar of a call that is known. -/
abbrev Found (t : Scope) (found : Option Scalar) : Prop := ∀ a ∈ found, I.holds t a

variable {I} {s t : Scope} {o p q : Operand} {os : List Operand} {a b : Scalar}

theorem Operands.grows (h : I.Operands s o) (hg : s.Grows t) : I.Operands t o :=
  fun u hu => h u (hg.trans hu)

theorem one (hp : I.Operands s p) {f : Scalar → Scalar}
    (hf : ∀ t b, s.Grows t → I.holds t b → I.holds t (f b)) :
    (do return some (f (← p.scalar)) : Compilation (Option Scalar)).Ensures s I.Found :=
  .bind (hp s (.refl s)) fun _ b ht hb => .pure fun _ hc => by
    obtain rfl := Option.some.inj hc
    exact hf _ b ht hb

theorem two (hp : I.Operands s p) (hq : I.Operands s q) {f : Scalar → Scalar → Scalar}
    (hf : ∀ t b c, s.Grows t → I.holds t b → I.holds t c → I.holds t (f b c)) :
    (do return some (f (← p.scalar) (← q.scalar)) : Compilation (Option Scalar)).Ensures s
      I.Found :=
  .bind (hp s (.refl s)) fun _ b ht hb =>
    (one (hq.grows ht) fun u c hu hc => hf u b c (ht.trans hu) (I.mono hu.knows hb) hc)

theorem unknown : (pure none : Compilation (Option Scalar)).Ensures s I.Found :=
  .pure fun _ hc => nomatch hc

theorem all (h : ∀ o ∈ os, I.Operands s o) :
    (Builtin.all os).Ensures s fun t as => ∀ a ∈ as, I.holds t a := by
  unfold Builtin.all
  induction os generalizing s with
  | nil => exact .pure fun a ha => nomatch ha
  | cons o os ih =>
    obtain ⟨ho, hos⟩ := List.forall_mem_cons.mp h
    rw [List.mapM_cons]
    refine .bind (ho s (.refl s)) fun t a ht ha => ?_
    refine .bind (ih fun o hm => (hos o hm).grows ht) fun u as hu has => ?_
    exact .pure (List.forall_mem_cons.mpr ⟨I.mono hu.knows ha, has⟩)

/-! ## Strings -/

theorem stringEquals (ignoreCase : Bool) (ha : I.holds s a) (hb : I.holds s b) :
    I.holds s (Builtin.stringEquals ignoreCase a b) := by
  unfold Builtin.stringEquals
  cases ignoreCase with
  | true => exact I.function (by simpa using ⟨ha, hb, I.literal _⟩) rfl
  | false => exact I.equal ha hb

theorem stringEquals? (ignoreCase : Option Bool) (ha : I.holds s a) (hb : I.holds s b) :
    I.Found s (ignoreCase.map (Builtin.stringEquals · a b)) := by
  intro c hc
  obtain ⟨ignoreCase, -, rfl⟩ := Option.map_eq_some_iff.mp hc
  exact stringEquals ignoreCase ha hb

theorem stringMethod? (name : String) (ho : I.Operands s o) (hs : ∀ p ∈ os, I.Operands s p) :
    (Builtin.stringMethod? name o os).Ensures s I.Found := by
  unfold Builtin.stringMethod?
  refine .bind (ho s (.refl s)) fun t a ht ha => ?_
  replace hs : ∀ p ∈ os, I.Operands t p := fun p hp => (hs p hp).grows ht
  split
  · exact one (hs _ (by simp)) fun u b hu hb =>
      I.function (by simpa using ⟨I.mono hu.knows ha, hb⟩) rfl
  · exact two (hs _ (by simp)) (hs _ (by simp)) fun u b c hu hb hc =>
      I.function (by simpa using ⟨I.mono hu.knows ha, hb, hc⟩) rfl
  · exact two (hs _ (by simp)) (hs _ (by simp)) fun u b c hu hb hc =>
      I.function (by simpa using ⟨I.mono hu.knows ha, hb, hc⟩) rfl
  · refine one (hs _ (by simp)) fun u b hu hb => ?_
    have ha := I.mono hu.knows ha
    exact I.function (by simpa using ⟨ha, hb, I.function (by simpa using ha) rfl⟩) rfl
  · exact two (hs _ (by simp)) (hs _ (by simp)) fun u b c hu hb hc =>
      I.function (by simpa using ⟨I.mono hu.knows ha, hb, hc⟩) rfl
  · exact one (hs _ (by simp)) fun u b hu hb =>
      I.function (by simpa using ⟨I.mono hu.knows ha, hb, I.literal _⟩) rfl
  · exact one (hs _ (by simp)) fun u b hu hb => I.equal (I.mono hu.knows ha) hb
  · refine .bind (hs _ (by simp) t (.refl t)) fun u b hu hb => ?_
    exact .pure (stringEquals? _ (I.mono hu.knows ha) hb)
  · refine .pure fun c hc => ?_
    obtain ⟨function, hf, rfl⟩ := Option.map_eq_some_iff.mp hc
    exact I.function (by simpa using ha) (Setting.function_stringFunction hf)
  · split
    · rename_i hf
      exact one (hs _ (by simp)) fun u b hu hb =>
        I.function (by simpa using ⟨I.mono hu.knows ha, hb⟩) (Setting.function_stringTest hf)
    · exact unknown
  · split
    · rename_i function ignoreCase hf _
      refine one (hs _ (by simp)) fun u b hu hb =>
        I.function ?_ (Setting.function_stringTest hf)
      have ha := I.mono hu.knows ha
      cases ignoreCase with
      | false => simpa using ⟨ha, hb⟩
      | true => simpa using ⟨ha, hb, I.literal _⟩
    · exact unknown
  · exact unknown

/-- The items of an array that is written out, or an operand alone. -/
theorem itemsOf (ho : I.Operands s o) (name : String)
    (hname : Scalar.aggregates.contains name = false) :
    (Builtin.itemsOf o).Ensures s fun t items => I.holds t (.builtin name items) := by
  unfold Builtin.itemsOf
  refine .bind (ho s (.refl s)) fun t a _ ha => ?_
  split
  · exact .pure (I.spread name hname ha)
  · exact .pure (I.function (by simpa using ha) hname)

theorem staticStringMethod? (name : String) (hs : ∀ p ∈ os, I.Operands s p) :
    (Builtin.staticStringMethod? name os).Ensures s I.Found := by
  unfold Builtin.staticStringMethod?
  split
  · split
    · refine .bind (itemsOf (hs _ (by simp)) "CONCAT" rfl) fun t items _ h => .pure ?_
      rintro _ ⟨⟩
      exact h
    · exact unknown
  · refine .bind (all hs) fun t as _ has => .pure ?_
    rintro _ ⟨⟩
    exact I.function has rfl
  · exact one (hs _ (by simp)) fun t b _ hb => I.function (by simpa using hb) rfl
  · exact one (hs _ (by simp)) fun t b _ hb =>
      I.binary .or (I.equal hb (I.literal _)) (I.equal hb (I.literal _))
  · exact two (hs _ (by simp)) (hs _ (by simp)) fun t b c _ hb hc => I.equal hb hc
  · refine .bind (hs _ (by simp) s (.refl s)) fun t b ht hb => ?_
    refine .bind (hs _ (by simp) t ht) fun u c hu hc => ?_
    exact .pure (stringEquals? _ (I.mono hu.knows hb) hc)
  · exact unknown

/-! ## Other methods -/

theorem mathMethod? (name : String) (hs : ∀ p ∈ os, I.Operands s p) :
    (Builtin.mathMethod? name os).Ensures s I.Found := by
  unfold Builtin.mathMethod?
  split
  · rename_i hf
    refine .bind (all hs) fun t as _ has => .pure ?_
    rintro _ ⟨⟩
    exact I.function has (Setting.function_math hf)
  · exact unknown

theorem contains (ho : I.Operands s o) (hp : I.Operands s p) :
    (Builtin.contains o p).Ensures s I.holds := by
  unfold Builtin.contains
  refine .bind (ho s (.refl s)) fun t a ht ha => ?_
  have hitem := hp t ht
  split
  · exact .pure (I.literal _)
  · exact .bind hitem fun u b hu hb => .pure (I.isIn false hb (I.mono hu.knows ha))
  · exact .bind hitem fun u b hu hb =>
      .pure (I.function (by simpa using ⟨I.mono hu.knows ha, hb⟩) rfl)

theorem sequenceMethod? (name : String) {target : Option Operand}
    (ht : ∀ o ∈ target, I.Operands s o) (hs : ∀ p ∈ os, I.Operands s p) :
    (Builtin.sequenceMethod? name target os).Ensures s I.Found := by
  have hall : ∀ p ∈ target.toList ++ os, I.Operands s p :=
    List.forall_mem_append.mpr ⟨fun o ho => ht o (Option.mem_toList.mp ho), hs⟩
  unfold Builtin.sequenceMethod?
  generalize target.toList ++ os = ps at hall
  split
  · refine .bind (contains (hall _ (by simp)) (hall _ (by simp))) fun t a _ ha => .pure ?_
    rintro _ ⟨⟩
    exact ha
  · exact two (hall _ (by simp)) (hall _ (by simp)) fun t b c _ hb hc =>
      I.function (by simpa using ⟨hb, hc⟩) rfl
  · exact one (hall _ (by simp)) fun t b _ hb => I.function (by simpa using hb) rfl
  · exact unknown

theorem typeCheck? (name : String) (hs : ∀ p ∈ os, I.Operands s p) :
    (Builtin.typeCheck? name os).Ensures s I.Found := by
  unfold Builtin.typeCheck?
  rcases os with _ | ⟨p, _ | ⟨q, ps⟩⟩
  · split <;> first | exact .throw rfl | exact unknown
  · have hcheck : ∀ function, Scalar.aggregates.contains function = false →
        (do return some (.builtin function [← p.scalar]) :
          Compilation (Option Scalar)).Ensures s I.Found := fun function hf =>
      one (hs _ (by simp)) fun t b _ hb => I.function (by simpa using hb) hf
    split
    · exact hcheck "IS_DEFINED" rfl
    · exact hcheck "IS_NULL" rfl
    · exact hcheck "IS_PRIMITIVE" rfl
    · exact unknown
  · split <;> first | exact .throw rfl | exact unknown

theorem objectMethod? (name : String) {target : Option Operand}
    (ht : ∀ o ∈ target, I.Operands s o) (hs : ∀ p ∈ os, I.Operands s p) :
    (Builtin.objectMethod? name target os).Ensures s I.Found := by
  unfold Builtin.objectMethod?
  split
  · exact one (ht _ rfl) fun t b _ hb => I.function (by simpa using hb) rfl
  · exact two (ht _ rfl) (hs _ (by simp)) fun t b c _ hb hc => I.equal hb hc
  · exact unknown

theorem builtin (method : Method) {target : Option Operand} (ht : ∀ o ∈ target, I.Operands s o)
    (hs : ∀ p ∈ os, I.Operands s p) : (Builtin.call method target os).Ensures s I.holds := by
  have hfound : (Builtin.find? method target os).Ensures s I.Found := by
    obtain ⟨declaring, name⟩ := method
    cases declaring with
    | queryable | userFunction | queryEscape | host => exact unknown
    | enumerable | list => exact sequenceMethod? _ ht hs
    | string =>
      cases target with
      | none => exact staticStringMethod? _ hs
      | some target => exact stringMethod? _ (ht _ rfl) hs
    | math => exact mathMethod? _ hs
    | typeCheck => exact typeCheck? _ hs
    | object => exact objectMethod? _ ht hs
  rw [Builtin.call_eq]
  refine .bind hfound fun t found _ h => ?_
  cases found with
  | none => exact .throw rfl
  | some a => exact .pure (h a rfl)

end LambdaQuery.ScalarInvariant
