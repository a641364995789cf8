import LambdaQuery.Proofs.Alike.Outcome

/-!
# Two runs of builtin functions

`Builtin.call` runs its operands and puts their scalars into a call of the query language, or into a
membership test where the items of a sequence are listed. Operands whose scalars come out related by
a congruence give calls that do.
-/

set_option autoImplicit false

namespace LambdaQuery.Setting

variable (κ : Setting) (Q : Scope → Scope → Scalar → Scalar → Prop)

/-- Arrays of related items. -/
def Arrays (t t' : Scope) (a b : Scalar) : Prop :=
  ∃ as bs, a = .array as ∧ b = .array bs ∧ List.Forall₂ (Q t t') as bs

/-- Arrays of related items, or what is no array where these are told apart. -/
def Listed (t t' : Scope) (a b : Scalar) : Prop :=
  Arrays Q t t' a b ∨
    Q t t' a b ∧ (κ.lists → ∀ items, a ≠ .array items) ∧ ∀ items, b ≠ .array items

/-- Expressions that are the same to a builtin function, beside their scalars. -/
structure LooksAlike (e e' : Expr) : Prop where
  constant : e.asConstant? = e'.asConstant?
  newArray : (∃ items ty, e = .newArray items ty) ↔ ∃ items ty, e' = .newArray items ty
  list : Builtin.isInlineList e = Builtin.isInlineList e'

/-- Operands whose scalars come out related from the given scopes on. -/
structure Operands (s s' : Scope) (o o' : Operand) : Prop where
  looks : LooksAlike o.expr o'.expr
  runs : ∀ {t t'}, κ.Step s s' t t' → κ.Runs t t' o.scalar o'.scalar Q
  arrays : (∃ items ty, o.expr = .newArray items ty) → ∀ {t t'}, κ.Step s s' t t' →
    κ.Runs t t' o.scalar o'.scalar (Arrays Q)
  listed : Builtin.isInlineList o.expr = true → ∀ {t t'}, κ.Step s s' t t' →
    κ.Runs t t' o.scalar o'.scalar (κ.Listed Q)

/-- Both sides know a call or neither does. -/
abbrev Found (t t' : Scope) (x y : Option Scalar) : Prop := Option.Rel (Q t t') x y

variable {κ Q} {s s' t t' : Scope}

theorem Listed.related (hQ : κ.Congruence Q) {a b : Scalar} (h : κ.Listed Q t t' a b) :
    Q t t' a b := by
  rcases h with ⟨as, bs, rfl, rfl, h⟩ | ⟨h, -⟩
  · exact hQ.array h
  · exact h

/-- Leaves are no arrays where these are told apart. -/
theorem Listed.leaf {F : Frame} {a b : Scalar} (h : κ.leaf t'.parameters a b) :
    κ.Listed (κ.Outcome F) t t' a b := by
  obtain ⟨name, rfl⟩ := κ.leaf_right h
  exact .inr ⟨.leaf h, (κ.leaf_left h).2.2.2.2, nofun⟩

theorem Operands.step {o o' : Operand} (h : κ.Operands Q s s' o o') (hs : κ.Step s s' t t') :
    κ.Operands Q t t' o o' :=
  ⟨h.looks, fun hu => h.runs (hs.trans hu), fun ho _ _ hu => h.arrays ho (hs.trans hu),
    fun hl _ _ hu => h.listed hl (hs.trans hu)⟩

/-! ## What looks alike -/

theorem LooksAlike.ignoresCase? {e e' : Expr} (h : LooksAlike e e') :
    Builtin.ignoresCase? e = Builtin.ignoresCase? e' := by
  unfold Builtin.ignoresCase?
  rw [h.constant]

/-! ## Names of functions -/

theorem function_stringTest {name function : String}
    (h : Builtin.stringTest? name = some function) :
    Scalar.aggregates.contains function = false := by
  unfold Builtin.stringTest? at h
  split at h <;> cases h <;> rfl

theorem function_stringFunction {name function : String}
    (h : Builtin.stringFunction? name = some function) :
    Scalar.aggregates.contains function = false := by
  unfold Builtin.stringFunction? at h
  split at h <;> cases h <;> rfl

theorem function_math {name function : String} {n : Nat}
    (h : Builtin.mathFunction? name n = some function) :
    Scalar.aggregates.contains function = false := by
  unfold Builtin.mathFunction? at h
  split at h <;> cases h <;> rfl

namespace Runs

variable {o o' p p' q q' : Operand} {os os' : List Operand} (hQ : κ.Congruence Q)

/-- The items of an array that is written out. -/
theorem itemsOf (h : κ.Operands Q s s' o o') (hitems : ∃ items ty, o.expr = .newArray items ty) :
    κ.Runs s s' (Builtin.itemsOf o) (Builtin.itemsOf o') (fun t t' => List.Forall₂ (Q t t')) := by
  unfold Builtin.itemsOf
  refine .bind (h.arrays hitems (.refl κ s s')) fun t t' a b hs hab => ?_
  obtain ⟨as, bs, rfl, rfl, h⟩ := hab
  exact .pure h

section

include hQ

theorem all (h : List.Forall₂ (κ.Operands Q s s') os os') :
    κ.Runs s s' (Builtin.all os) (Builtin.all os') (fun t t' => List.Forall₂ (Q t t')) := by
  unfold Builtin.all
  revert s s'
  induction os generalizing os' with
  | nil =>
    intro s s' h
    cases h
    exact .pure .nil
  | cons o os ih =>
    intro s s' h
    cases h with
    | @cons _ o' _ os' ho h =>
      rw [List.mapM_cons, List.mapM_cons]
      refine .bind (ho.runs (.refl κ s s')) fun t t' a b hs hab => ?_
      refine .bind (ih (h.imp fun _ _ h => h.step hs)) fun u u' as bs hs' h => ?_
      exact .pure (.cons (hQ.step hab hs') h)

/-! ## Strings -/

theorem stringEquals (ignoreCase : Bool) {a b a₁ b₁ : Scalar} (h : Q t t' a b)
    (h₁ : Q t t' a₁ b₁) :
    Q t t' (Builtin.stringEquals ignoreCase a a₁)
      (Builtin.stringEquals ignoreCase b b₁) := by
  unfold Builtin.stringEquals
  cases ignoreCase with
  | true => exact hQ.function rfl (.cons h (.cons h₁ (.cons (hQ.literal _) .nil)))
  | false => exact hQ.equal h h₁

theorem stringEquals? (ignoreCase : Option Bool) {a b a₁ b₁ : Scalar}
    (h : Q t t' a b) (h₁ : Q t t' a₁ b₁) :
    Found Q t t' (ignoreCase.map (Builtin.stringEquals · a a₁))
      (ignoreCase.map (Builtin.stringEquals · b b₁)) := by
  cases ignoreCase with
  | none => exact .none
  | some ignoreCase => exact .some (stringEquals hQ ignoreCase h h₁)

theorem stringMethod?_one (name : String) (ho : κ.Operands Q s s' o o')
    (hp : κ.Operands Q s s' p p') :
    κ.Runs s s' (Builtin.stringMethod? name o [p]) (Builtin.stringMethod? name o' [p'])
      (Found Q) := by
  by_cases h₁ : name = "IndexOf"
  · subst h₁
    simp only [Builtin.stringMethod?]
    refine .bind (ho.runs (.refl κ s s')) fun t t' a b hst hab => ?_
    refine .bind (hp.runs hst) fun u u' c d hsu hcd => ?_
    exact .pure (.some (hQ.function rfl (.cons (hQ.step hab hsu) (.cons hcd .nil))))
  by_cases h₂ : name = "Substring"
  · subst h₂
    simp only [Builtin.stringMethod?]
    refine .bind (ho.runs (.refl κ s s')) fun t t' a b hst hab => ?_
    refine .bind (hp.runs hst) fun u u' c d hsu hcd => ?_
    have ha := hQ.step hab hsu
    exact .pure (.some (hQ.function rfl (.cons ha (.cons hcd
      (.cons (hQ.function rfl (.cons ha .nil)) .nil)))))
  by_cases h₃ : name = "get_Chars"
  · subst h₃
    simp only [Builtin.stringMethod?]
    refine .bind (ho.runs (.refl κ s s')) fun t t' a b hst hab => ?_
    refine .bind (hp.runs hst) fun u u' c d hsu hcd => ?_
    exact .pure (.some (hQ.function rfl
      (.cons (hQ.step hab hsu) (.cons hcd (.cons (hQ.literal _) .nil)))))
  by_cases h₄ : name = "Equals"
  · subst h₄
    simp only [Builtin.stringMethod?]
    refine .bind (ho.runs (.refl κ s s')) fun t t' a b hst hab => ?_
    refine .bind (hp.runs hst) fun u u' c d hsu hcd => ?_
    exact .pure (.some (hQ.equal (hQ.step hab hsu) hcd))
  cases hf : Builtin.stringTest? name with
  | none =>
    have hname : ∀ o p, Builtin.stringMethod? name o [p] = (do
        let _ ← o.scalar
        return none) := by
      intro o p
      unfold Builtin.stringMethod?
      refine congrArg (o.scalar >>= ·) (funext fun subject => ?_)
      split <;> simp_all
    rw [hname, hname]
    refine .bind (ho.runs (.refl κ s s')) fun t t' a b hst hab => ?_
    exact .pure .none
  | some function =>
    have hname : ∀ o p, Builtin.stringMethod? name o [p] = (do
        let subject ← o.scalar
        return some (.builtin function [subject, ← p.scalar])) := by
      intro o p
      unfold Builtin.stringMethod?
      refine congrArg (o.scalar >>= ·) (funext fun subject => ?_)
      split <;> simp_all
    rw [hname, hname]
    refine .bind (ho.runs (.refl κ s s')) fun t t' a b hst hab => ?_
    refine .bind (hp.runs hst) fun u u' c d hsu hcd => ?_
    exact .pure (.some (hQ.function (function_stringTest hf)
      (.cons (hQ.step hab hsu) (.cons hcd .nil))))

theorem stringMethod?_two (name : String) (ho : κ.Operands Q s s' o o')
    (hp : κ.Operands Q s s' p p') (hq : κ.Operands Q s s' q q') :
    κ.Runs s s' (Builtin.stringMethod? name o [p, q]) (Builtin.stringMethod? name o' [p', q'])
      (Found Q) := by
  by_cases h₁ : name = "IndexOf"
  · subst h₁
    simp only [Builtin.stringMethod?]
    refine .bind (ho.runs (.refl κ s s')) fun t t' a b hst hab => ?_
    refine .bind (hp.runs hst) fun u u' c d hsu hcd => ?_
    refine .bind (hq.runs (hst.trans hsu)) fun v v' e f hsv hef => ?_
    exact .pure (.some (hQ.function rfl
      (.cons (hQ.step hab (hsu.trans hsv)) (.cons (hQ.step hcd hsv) (.cons hef .nil)))))
  by_cases h₂ : name = "Replace"
  · subst h₂
    simp only [Builtin.stringMethod?]
    refine .bind (ho.runs (.refl κ s s')) fun t t' a b hst hab => ?_
    refine .bind (hp.runs hst) fun u u' c d hsu hcd => ?_
    refine .bind (hq.runs (hst.trans hsu)) fun v v' e f hsv hef => ?_
    exact .pure (.some (hQ.function rfl
      (.cons (hQ.step hab (hsu.trans hsv)) (.cons (hQ.step hcd hsv) (.cons hef .nil)))))
  by_cases h₃ : name = "Substring"
  · subst h₃
    simp only [Builtin.stringMethod?]
    refine .bind (ho.runs (.refl κ s s')) fun t t' a b hst hab => ?_
    refine .bind (hp.runs hst) fun u u' c d hsu hcd => ?_
    refine .bind (hq.runs (hst.trans hsu)) fun v v' e f hsv hef => ?_
    exact .pure (.some (hQ.function rfl
      (.cons (hQ.step hab (hsu.trans hsv)) (.cons (hQ.step hcd hsv) (.cons hef .nil)))))
  by_cases h₄ : name = "Equals"
  · subst h₄
    simp only [Builtin.stringMethod?]
    rw [hq.looks.ignoresCase?]
    refine .bind (ho.runs (.refl κ s s')) fun t t' a b hst hab => ?_
    refine .bind (hp.runs hst) fun u u' c d hsu hcd => ?_
    exact .pure (stringEquals? hQ _ (hQ.step hab hsu) hcd)
  cases hf : Builtin.stringTest? name with
  | none =>
    have hname : ∀ o p q, Builtin.stringMethod? name o [p, q] = (do
        let _ ← o.scalar
        return none) := by
      intro o p q
      unfold Builtin.stringMethod?
      refine congrArg (o.scalar >>= ·) (funext fun subject => ?_)
      split <;> simp_all
    rw [hname, hname]
    refine .bind (ho.runs (.refl κ s s')) fun t t' a b hst hab => ?_
    exact .pure .none
  | some function =>
    have hcase := hq.looks.ignoresCase?
    cases hi : Builtin.ignoresCase? q'.expr with
    | none =>
      have hname : ∀ o p q, Builtin.ignoresCase? q.expr = none →
          Builtin.stringMethod? name o [p, q] = (do
            let _ ← o.scalar
            return none) := by
        intro o p q h
        unfold Builtin.stringMethod?
        refine congrArg (o.scalar >>= ·) (funext fun subject => ?_)
        split <;> simp_all
      rw [hname _ _ _ (hcase.trans hi), hname _ _ _ hi]
      refine .bind (ho.runs (.refl κ s s')) fun t t' a b hst hab => ?_
      exact .pure .none
    | some ignoreCase =>
      have hname : ∀ o p q, Builtin.ignoresCase? q.expr = some ignoreCase →
          Builtin.stringMethod? name o [p, q] = (do
            let subject ← o.scalar
            let part ← p.scalar
            return some (.builtin function
              (if ignoreCase then [subject, part, .boolean true] else [subject, part]))) := by
        intro o p q h
        unfold Builtin.stringMethod?
        refine congrArg (o.scalar >>= ·) (funext fun subject => ?_)
        split <;> simp_all
      rw [hname _ _ _ (hcase.trans hi), hname _ _ _ hi]
      refine .bind (ho.runs (.refl κ s s')) fun t t' a b hst hab => ?_
      refine .bind (hp.runs hst) fun u u' c d hsu hcd => ?_
      refine .pure (.some (hQ.function (function_stringTest hf) ?_))
      cases ignoreCase with
      | false => exact .cons (hQ.step hab hsu) (.cons hcd .nil)
      | true => exact .cons (hQ.step hab hsu) (.cons hcd (.cons (hQ.literal _) .nil))

theorem stringMethod? (name : String) (ho : κ.Operands Q s s' o o')
    (hs : List.Forall₂ (κ.Operands Q s s') os os') :
    κ.Runs s s' (Builtin.stringMethod? name o os) (Builtin.stringMethod? name o' os')
      (Found Q) := by
  rcases hs with _ | ⟨hp, _ | ⟨hq, _ | ⟨hr, hs⟩⟩⟩
  · have hname : ∀ o, Builtin.stringMethod? name o [] = (do
        let subject ← o.scalar
        return (Builtin.stringFunction? name).map (.builtin · [subject])) := by
      intro o
      unfold Builtin.stringMethod?
      refine congrArg (o.scalar >>= ·) (funext fun subject => ?_)
      split <;> simp_all
    rw [hname, hname]
    refine .bind (ho.runs (.refl κ s s')) fun t t' a b hst hab => ?_
    cases hf : Builtin.stringFunction? name with
    | none => exact .pure .none
    | some function =>
      exact .pure (.some (hQ.function (function_stringFunction hf) (.cons hab .nil)))
  · exact stringMethod?_one hQ name ho hp
  · exact stringMethod?_two hQ name ho hp hq
  · have hname : ∀ o p q r os, Builtin.stringMethod? name o (p :: q :: r :: os) = (do
        let _ ← o.scalar
        return none) := by
      intro o p q r os
      unfold Builtin.stringMethod?
      refine congrArg (o.scalar >>= ·) (funext fun subject => ?_)
      split <;> simp_all
    rw [hname, hname]
    refine .bind (ho.runs (.refl κ s s')) fun t t' a b hst hab => ?_
    exact .pure .none

theorem concat (h : List.Forall₂ (κ.Operands Q s s') (o :: os) (o' :: os')) :
    κ.Runs s s' (Builtin.staticStringMethod? "Concat" (o :: os))
      (Builtin.staticStringMethod? "Concat" (o' :: os')) (Found Q) := by
  cases h with
  | cons ho hs =>
    cases hs with
    | nil =>
      simp only [Builtin.staticStringMethod?]
      split
      · rename_i items ty hitems
        obtain ⟨items', ty', hitems'⟩ := ho.looks.newArray.mp ⟨items, ty, hitems⟩
        rw [hitems']
        refine .bind (itemsOf ho ⟨items, ty, hitems⟩) fun t t' as bs _ h => ?_
        exact .pure (.some (hQ.function rfl h))
      · rename_i hne
        split
        · rename_i items' ty hitems'
          obtain ⟨items, ty', hitems⟩ := ho.looks.newArray.mpr ⟨items', ty, hitems'⟩
          exact absurd hitems (hne _ _)
        · exact .pure .none
    | cons hp hs =>
      simp only [Builtin.staticStringMethod?]
      refine .bind (all hQ (.cons ho (.cons hp hs))) fun t t' as bs _ h => ?_
      exact .pure (.some (hQ.function rfl h))

theorem isNullOrEmpty (ho : κ.Operands Q s s' o o') :
    κ.Runs s s' (Builtin.staticStringMethod? "IsNullOrEmpty" [o])
      (Builtin.staticStringMethod? "IsNullOrEmpty" [o']) (Found Q) := by
  simp only [Builtin.staticStringMethod?]
  refine .bind (ho.runs (.refl κ s s')) fun t t' a b _ hab => ?_
  exact .pure (.some (hQ.binary .or (hQ.equal hab (hQ.literal _)) (hQ.equal hab (hQ.literal _))))

theorem staticStringMethod? (name : String) (hs : List.Forall₂ (κ.Operands Q s s') os os') :
    κ.Runs s s' (Builtin.staticStringMethod? name os) (Builtin.staticStringMethod? name os')
      (Found Q) := by
  by_cases h₁ : name = "Concat" ∧ os ≠ []
  · obtain ⟨rfl, hne⟩ := h₁
    cases hs with
    | nil => exact absurd rfl hne
    | cons ho hs => exact concat hQ (.cons ho hs)
  by_cases h₂ : name = "Reverse" ∧ os.length = 1
  · obtain ⟨rfl, hl⟩ := h₂
    rcases hs with _ | ⟨ho, _ | _⟩
    · cases hl
    · simp only [Builtin.staticStringMethod?]
      refine .bind (ho.runs (.refl κ s s')) fun t t' a b _ hab => ?_
      exact .pure (.some (hQ.function rfl (.cons hab .nil)))
    · cases hl
  by_cases h₃ : name = "IsNullOrEmpty" ∧ os.length = 1
  · obtain ⟨rfl, hl⟩ := h₃
    rcases hs with _ | ⟨ho, _ | _⟩
    · cases hl
    · exact isNullOrEmpty hQ ho
    · cases hl
  by_cases h₄ : name = "Equals" ∧ os.length = 2
  · obtain ⟨rfl, hl⟩ := h₄
    rcases hs with _ | ⟨ho, _ | ⟨hp, _ | _⟩⟩
    · cases hl
    · cases hl
    · simp only [Builtin.staticStringMethod?]
      refine .bind (ho.runs (.refl κ s s')) fun t t' a b hst hab => ?_
      refine .bind (hp.runs hst) fun u u' c d hsu hcd => ?_
      exact .pure (.some (hQ.equal (hQ.step hab hsu) hcd))
    · cases hl
  by_cases h₅ : name = "Equals" ∧ os.length = 3
  · obtain ⟨rfl, hl⟩ := h₅
    rcases hs with _ | ⟨ho, _ | ⟨hp, _ | ⟨hq, _ | _⟩⟩⟩
    · cases hl
    · cases hl
    · cases hl
    · simp only [Builtin.staticStringMethod?]
      rw [hq.looks.ignoresCase?]
      refine .bind (ho.runs (.refl κ s s')) fun t t' a b hst hab => ?_
      refine .bind (hp.runs hst) fun u u' c d hsu hcd => ?_
      exact .pure (stringEquals? hQ _ (hQ.step hab hsu) hcd)
    · cases hl
  have hname : ∀ os : List Operand, ¬(name = "Concat" ∧ os ≠ []) →
      ¬(name = "Reverse" ∧ os.length = 1) → ¬(name = "IsNullOrEmpty" ∧ os.length = 1) →
        ¬(name = "Equals" ∧ os.length = 2) → ¬(name = "Equals" ∧ os.length = 3) →
          Builtin.staticStringMethod? name os = pure none := by
    intro os h₁ h₂ h₃ h₄ h₅
    unfold Builtin.staticStringMethod?
    split <;> simp_all
  have hlen := hs.length_eq
  have hnil : os = [] ↔ os' = [] := by
    rw [← List.length_eq_zero_iff, ← List.length_eq_zero_iff, hlen]
  rw [hname os h₁ h₂ h₃ h₄ h₅, hname os' (by rwa [Ne, ← hnil]) (by rwa [← hlen])
    (by rwa [← hlen]) (by rwa [← hlen]) (by rwa [← hlen])]
  exact .pure .none

/-! ## Other methods -/

theorem mathMethod? (name : String) (hs : List.Forall₂ (κ.Operands Q s s') os os') :
    κ.Runs s s' (Builtin.mathMethod? name os) (Builtin.mathMethod? name os') (Found Q) := by
  unfold Builtin.mathMethod?
  rw [hs.length_eq]
  cases hf : Builtin.mathFunction? name os'.length with
  | none => exact .pure .none
  | some function =>
    refine .bind (all hQ hs) fun t t' as bs _ h => ?_
    exact .pure (.some (hQ.function (function_math hf) h))

/-- A membership test, of the items where they are listed. -/
theorem contains (hlists : κ.lists) (ho : κ.Operands Q s s' o o')
    (hp : κ.Operands Q s s' p p') :
    κ.Runs s s' (Builtin.contains o p) (Builtin.contains o' p') Q := by
  have hother : ∀ {t t' a b}, κ.Step s s' t t' → Q t t' a b →
      κ.Runs t t' (do return .builtin "ARRAY_CONTAINS" [a, ← p.scalar])
        (do return .builtin "ARRAY_CONTAINS" [b, ← p'.scalar]) Q := by
    intro t t' a b hst hab
    refine .bind (hp.runs hst) fun u u' c d hsu hcd => ?_
    exact .pure (hQ.function rfl (.cons (hQ.step hab hsu) (.cons hcd .nil)))
  unfold Builtin.contains
  rw [← ho.looks.list]
  cases hl : Builtin.isInlineList o.expr with
  | false =>
    refine .bind (ho.runs (.refl κ s s')) fun t t' a b hst hab => ?_
    split
    · rename_i h
      cases h
    · rename_i h
      cases h
    · split
      · rename_i h
        cases h
      · rename_i h
        cases h
      · exact hother hst hab
  | true =>
    refine .bind (ho.listed hl (.refl κ s s')) fun t t' a b hst hab => ?_
    rcases hab with ⟨as, bs, rfl, rfl, h⟩ | ⟨h, ha, hb⟩
    · cases h with
      | nil => exact .pure (hQ.literal _)
      | cons h hs =>
        refine .bind (hp.runs hst) fun u u' c d hsu hcd => ?_
        exact .pure (hQ.isIn false hcd (hQ.steps (.cons h hs) hsu))
    · split
      · exact absurd rfl (ha hlists _)
      · exact absurd rfl (ha hlists _)
      · split
        · exact absurd rfl (hb _)
        · exact absurd rfl (hb _)
        · exact hother hst h

theorem sequenceMethod? (name : String) (hlists : name = "Contains" → κ.lists)
    (hs : List.Forall₂ (κ.Operands Q s s') os os') {target target' : Option Operand}
    (ht : Option.Rel (κ.Operands Q s s') target target') :
    κ.Runs s s' (Builtin.sequenceMethod? name target os)
      (Builtin.sequenceMethod? name target' os') (Found Q) := by
  have hall : List.Forall₂ (κ.Operands Q s s') (target.toList ++ os) (target'.toList ++ os') := by
    cases ht with
    | none => exact hs
    | some h => exact .cons h hs
  have hlen := hall.length_eq
  unfold Builtin.sequenceMethod?
  generalize target.toList ++ os = ps at hall hlen
  generalize target'.toList ++ os' = ps' at hall hlen
  by_cases h₁ : name = "Contains" ∧ ps.length = 2
  · obtain ⟨rfl, hl⟩ := h₁
    rcases hall with _ | ⟨ho, _ | ⟨hp, _ | _⟩⟩
    · cases hl
    · cases hl
    · refine .bind (contains hQ (hlists rfl) ho hp) fun t t' a b _ hab => ?_
      exact .pure (.some hab)
    · cases hl
  by_cases h₂ : name = "Concat" ∧ ps.length = 2
  · obtain ⟨rfl, hl⟩ := h₂
    rcases hall with _ | ⟨ho, _ | ⟨hp, _ | _⟩⟩
    · cases hl
    · cases hl
    · refine .bind (ho.runs (.refl κ s s')) fun t t' a b hst hab => ?_
      refine .bind (hp.runs hst) fun u u' c d hsu hcd => ?_
      exact .pure (.some (hQ.function rfl (.cons (hQ.step hab hsu) (.cons hcd .nil))))
    · cases hl
  by_cases h₃ : name = "Count" ∧ ps.length = 1
  · obtain ⟨rfl, hl⟩ := h₃
    rcases hall with _ | ⟨ho, _ | _⟩
    · cases hl
    · refine .bind (ho.runs (.refl κ s s')) fun t t' a b _ hab => ?_
      exact .pure (.some (hQ.function rfl (.cons hab .nil)))
    · cases hl
  rw [hlen] at h₁ h₂ h₃
  split
  · simp_all
  · simp_all
  · simp_all
  · split
    · simp_all
    · simp_all
    · simp_all
    · exact .pure .none

/-- The function for a check of a value's type. -/
theorem typeCheck? (name : String) (hs : List.Forall₂ (κ.Operands Q s s') os os') :
    κ.Runs s s' (Builtin.typeCheck? name os) (Builtin.typeCheck? name os') (Found Q) := by
  unfold Builtin.typeCheck?
  rcases hs with _ | @⟨o, o', _, _, ho, _ | ⟨hp, hs⟩⟩
  · split <;> first | exact .throw _ _ | exact .pure .none
  · have hone : ∀ function, Scalar.aggregates.contains function = false →
        κ.Runs s s' (do return some (.builtin function [← o.scalar]))
          (do return some (.builtin function [← o'.scalar])) (Found Q) := by
      intro function hf
      refine .bind (ho.runs (.refl κ s s')) fun t t' a b _ hab => ?_
      exact .pure (.some (hQ.function hf (.cons hab .nil)))
    split
    · exact hone _ rfl
    · exact hone _ rfl
    · exact hone _ rfl
    · exact .pure .none
  · split <;> first | exact .throw _ _ | exact .pure .none

theorem objectMethod? (name : String) (hs : List.Forall₂ (κ.Operands Q s s') os os')
    {target target' : Option Operand} (ht : Option.Rel (κ.Operands Q s s') target target') :
    κ.Runs s s' (Builtin.objectMethod? name target os) (Builtin.objectMethod? name target' os')
      (Found Q) := by
  by_cases h₁ : name = "ToString" ∧ target.isSome ∧ os.length = 0
  · obtain ⟨rfl, hsome, hl⟩ := h₁
    cases ht with
    | none => cases hsome
    | some ht =>
      rcases hs with _ | ⟨ho, hs⟩
      · refine .bind (ht.runs (.refl κ s s')) fun t t' a b _ hab => ?_
        exact .pure (.some (hQ.function rfl (.cons hab .nil)))
      · cases hl
  by_cases h₂ : name = "Equals" ∧ target.isSome ∧ os.length = 1
  · obtain ⟨rfl, hsome, hl⟩ := h₂
    cases ht with
    | none => cases hsome
    | some ht =>
      rcases hs with _ | ⟨ho, _ | ⟨hp, hs⟩⟩
      · cases hl
      · refine .bind (ht.runs (.refl κ s s')) fun t t' a b hst hab => ?_
        refine .bind (ho.runs hst) fun u u' c d hsu hcd => ?_
        exact .pure (.some (hQ.equal (hQ.step hab hsu) hcd))
      · cases hl
  have hname : ∀ (target : Option Operand) (os : List Operand),
      ¬(name = "ToString" ∧ target.isSome ∧ os.length = 0) →
        ¬(name = "Equals" ∧ target.isSome ∧ os.length = 1) →
          Builtin.objectMethod? name target os = pure none := by
    intro target os h₁ h₂
    unfold Builtin.objectMethod?
    split <;> simp_all
  have hlen := hs.length_eq
  have hsome : target.isSome = target'.isSome := optionRel_isSome ht
  rw [hname target os h₁ h₂, hname target' os' (by rwa [← hlen, ← hsome])
    (by rwa [← hlen, ← hsome])]
  exact .pure .none

/-- **Builtin functions of operands that run alike run alike.** -/
theorem builtin (method : Method) (hlists : method.name = "Contains" → κ.lists)
    (hs : List.Forall₂ (κ.Operands Q s s') os os') {target target' : Option Operand}
    (ht : Option.Rel (κ.Operands Q s s') target target') :
    κ.Runs s s' (Builtin.call method target os) (Builtin.call method target' os')
      Q := by
  have hfound : κ.Runs s s' (Builtin.find? method target os) (Builtin.find? method target' os')
      (Found Q) := by
    obtain ⟨declaring, name⟩ := method
    cases declaring with
    | queryable | userFunction | queryEscape | host => exact .pure .none
    | enumerable | list => exact sequenceMethod? hQ _ hlists hs ht
    | string =>
      cases ht with
      | none => exact staticStringMethod? hQ _ hs
      | some ht => exact stringMethod? hQ _ ht hs
    | math => exact mathMethod? hQ _ hs
    | typeCheck => exact typeCheck? hQ _ hs
    | object => exact objectMethod? hQ _ hs ht
  rw [Builtin.call_eq, Builtin.call_eq]
  refine .bind hfound fun t t' x y _ hxy => ?_
  rcases optionRel_cases hxy with ⟨rfl, rfl⟩ | ⟨a, b, rfl, rfl, hab⟩
  · exact .throw _ _
  · exact .pure hab

end

end Runs

end LambdaQuery.Setting
