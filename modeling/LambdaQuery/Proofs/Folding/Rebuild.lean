import LambdaQuery.Host.Expr.MapChildren
import Mathlib.Data.List.Forall2

/-!
# Nodes and their parts

`Expr.rebuild e ds` is the node `e` with the expressions `ds` in the places of its parts. Passing
the parts of a node through an action is running the action on the list of the parts and rebuilding
the node with what it gives (`Expr.mapChildren_eq`), so that facts about a traversal of expressions
are facts about lists.
-/

set_option autoImplicit false

namespace LambdaQuery

universe u

/-! ## Actions on lists -/

section

variable {α β γ : Type} {m : Type → Type u} [Monad m] [LawfulMonad m] {f : α → m β}

/-- What follows an action on every item sees as many results as there are items. -/
theorem mapM_bind_congr {as : List α} {k k' : List β → m γ}
    (h : ∀ bs : List β, bs.length = as.length → k bs = k' bs) :
    as.mapM f >>= k = as.mapM f >>= k' := by
  induction as generalizing k k' with
  | nil => simpa using h [] rfl
  | cons a as ih =>
    simp only [List.mapM_cons, bind_assoc, pure_bind]
    refine bind_congr fun b => ih fun bs hbs => h (b :: bs) ?_
    simp [hbs]

end

/-- An action that may fail gives the results that it gives for the items one by one. -/
theorem mapM_eq_ok {α β ε : Type} {f : α → Except ε β} {as : List α} {bs : List β} :
    as.mapM f = .ok bs ↔ List.Forall₂ (fun a b => f a = .ok b) as bs := by
  induction as generalizing bs with
  | nil => simp [pure, Except.pure, List.forall₂_nil_left_iff, eq_comm]
  | cons a as ih =>
    rw [List.mapM_cons, List.forall₂_cons_left_iff]
    constructor
    · intro h
      cases ha : f a with
      | error => simp [ha, bind, Except.bind] at h
      | ok b =>
        cases has : as.mapM f with
        | error => simp [ha, has, bind, Except.bind] at h
        | ok bs' =>
          obtain rfl : b :: bs' = bs := by simpa [ha, has, bind, Except.bind, pure, Except.pure]
            using h
          exact ⟨b, bs', rfl, ih.mp has, rfl⟩
    · rintro ⟨b, bs', hb, hbs', rfl⟩
      simp [hb, ih.mpr hbs', bind, Except.bind, pure, Except.pure]

/-! ## Rebuilding -/

mutual

/-- The binding with other expressions in it. -/
def Binding.rebuild : Binding → List Expr → Binding
  | .assign member value, ds => .assign member (ds.headD value)
  | .nested member bindings, ds => .nested member (Binding.rebuildAll bindings ds)
  | .collect member _, ds => .collect member ds

def Binding.rebuildAll : List Binding → List Expr → List Binding
  | [], _ => []
  | b :: bs, ds =>
    b.rebuild (ds.take b.children.length) ::
      Binding.rebuildAll bs (ds.drop b.children.length)

end

/-- The node with other parts, as many as it has. -/
def Expr.rebuild (e : Expr) (ds : List Expr) : Expr :=
  match e, ds with
  | .member (some _) accessed ty, d :: _ => .member (some d) accessed ty
  | .binary op _ _ ty, l :: r :: _ => .binary op l r ty
  | .unary op _ ty, d :: _ => .unary op d ty
  | .conditional _ _ _ ty, t :: a :: b :: _ => .conditional t a b ty
  | .call none method _ ty, ds => .call none method ds ty
  | .call (some _) method _ ty, t :: ds => .call (some t) method ds ty
  | .construct _ members ty, ds => .construct ds members ty
  | .memberInit _ bindings ty, b :: ds => .memberInit b (Binding.rebuildAll bindings ds) ty
  | .listInit _ _ ty, b :: ds => .listInit b ds ty
  | .newArray _ ty, ds => .newArray ds ty
  | .lambda params _, b :: _ => .lambda params b
  | .invoke _ _ ty, t :: ds => .invoke t ds ty
  | e, _ => e

mutual

theorem Binding.children_rebuild : ∀ (b : Binding) (ds : List Expr),
    ds.length = b.children.length → (b.rebuild ds).children = ds
  | .assign _ _, ds, h => by
    obtain ⟨d, rfl⟩ := List.length_eq_one_iff.mp h
    rfl
  | .nested _ bs, ds, h => Binding.childrenOfAll_rebuildAll bs ds h
  | .collect _ _, _, _ => rfl

theorem Binding.childrenOfAll_rebuildAll : ∀ (bs : List Binding) (ds : List Expr),
    ds.length = (Binding.childrenOfAll bs).length →
    Binding.childrenOfAll (Binding.rebuildAll bs ds) = ds
  | [], ds, h => (List.eq_nil_of_length_eq_zero h).symm
  | b :: bs, ds, h => by
    simp only [Binding.childrenOfAll, List.length_append] at h
    simp only [Binding.rebuildAll, Binding.childrenOfAll]
    rw [Binding.children_rebuild b _ (by simp; omega),
      Binding.childrenOfAll_rebuildAll bs _ (by simp; omega), List.take_append_drop]

end

theorem Expr.children_rebuild {e : Expr} {ds : List Expr} (h : ds.length = e.children.length) :
    (e.rebuild ds).children = ds := by
  cases e with
  | constant => exact (List.eq_nil_of_length_eq_zero h).symm
  | parameter => exact (List.eq_nil_of_length_eq_zero h).symm
  | member object =>
    cases object with
    | none => exact (List.eq_nil_of_length_eq_zero h).symm
    | some => obtain ⟨d, rfl⟩ := List.length_eq_one_iff.mp h; rfl
  | binary => obtain ⟨l, r, rfl⟩ := List.length_eq_two.mp h; rfl
  | unary => obtain ⟨d, rfl⟩ := List.length_eq_one_iff.mp h; rfl
  | conditional => obtain ⟨t, a, b, rfl⟩ := List.length_eq_three.mp h; rfl
  | call target =>
    cases target with
    | none => rfl
    | some => obtain ⟨t, ds, rfl⟩ := List.exists_cons_of_length_eq_add_one h; rfl
  | construct => rfl
  | memberInit base bindings =>
    obtain ⟨b, ds, rfl⟩ := List.exists_cons_of_length_eq_add_one h
    exact congrArg (b :: ·) 
      (Binding.childrenOfAll_rebuildAll bindings ds (by simpa [Expr.children] using h))
  | listInit => obtain ⟨b, ds, rfl⟩ := List.exists_cons_of_length_eq_add_one h; rfl
  | newArray => rfl
  | lambda => obtain ⟨b, rfl⟩ := List.length_eq_one_iff.mp h; rfl
  | invoke => obtain ⟨t, ds, rfl⟩ := List.exists_cons_of_length_eq_add_one h; rfl

mutual

theorem Binding.rebuild_children : ∀ b : Binding, b.rebuild b.children = b
  | .assign _ _ => rfl
  | .nested member bs => congrArg (Binding.nested member) (Binding.rebuildAll_childrenOfAll bs)
  | .collect _ _ => rfl

theorem Binding.rebuildAll_childrenOfAll : ∀ bs : List Binding,
    Binding.rebuildAll bs (Binding.childrenOfAll bs) = bs
  | [] => rfl
  | b :: bs => by
    simp only [Binding.childrenOfAll, Binding.rebuildAll, List.take_left, List.drop_left]
    rw [Binding.rebuild_children b, Binding.rebuildAll_childrenOfAll bs]

end

@[simp] theorem Expr.rebuild_children (e : Expr) : e.rebuild e.children = e := by
  cases e with
  | member object => cases object <;> rfl
  | call target => cases target <;> rfl
  | memberInit base bindings ty =>
    exact congrArg (Expr.memberInit base · ty) (Binding.rebuildAll_childrenOfAll bindings)
  | _ => rfl

mutual

theorem Binding.mapChildren_eq {m : Type → Type u} [Monad m] [LawfulMonad m] (f : Expr → m Expr) :
    ∀ b : Binding, b.mapChildren f = b.rebuild <$> b.children.mapM f
  | .assign _ _ => by simp [Binding.mapChildren, Binding.children, Binding.rebuild]
  | .nested _ bs => by
    simp [Binding.mapChildren, Binding.children, Binding.rebuild, Binding.mapAll_eq f bs]
  | .collect _ _ => by simp [Binding.mapChildren, Binding.children, Binding.rebuild]

theorem Binding.mapAll_eq {m : Type → Type u} [Monad m] [LawfulMonad m] (f : Expr → m Expr) :
    ∀ bs : List Binding,
      Binding.mapAll f bs = Binding.rebuildAll bs <$> (Binding.childrenOfAll bs).mapM f
  | [] => by simp [Binding.mapAll, Binding.childrenOfAll, Binding.rebuildAll]
  | b :: bs => by
    simp only [Binding.mapAll, Binding.childrenOfAll, Binding.rebuildAll,
      Binding.mapChildren_eq f b, Binding.mapAll_eq f bs, List.mapM_append, map_bind, map_pure,
      bind_map_left]
    -- the parts of `b` are the first of all parts because an action gives one result for each
    refine mapM_bind_congr fun ds hds => mapM_bind_congr fun ds' _ => ?_
    simp [← hds]

end

/-- Passing the parts of a node through an action is rebuilding it with the action's results. -/
theorem Expr.mapChildren_eq {m : Type → Type u} [Monad m] [LawfulMonad m] (f : Expr → m Expr)
    (e : Expr) : e.mapChildren f = e.rebuild <$> e.children.mapM f := by
  -- Both sides run the same actions; what they return is the same node.
  cases e with
  | member object => cases object <;> simp [Expr.mapChildren, Expr.children] <;> rfl
  | call target => cases target <;> simp [Expr.mapChildren, Expr.children] <;> rfl
  | memberInit base bindings =>
    simp [Expr.mapChildren, Expr.children, Binding.mapAll_eq f bindings]
    rfl
  | _ =>
    simp [Expr.mapChildren, Expr.children]
    rfl

@[simp] theorem Expr.ty_rebuild (e : Expr) (ds : List Expr) : (e.rebuild ds).ty = e.ty := by
  unfold Expr.rebuild
  split <;> rfl

end LambdaQuery
