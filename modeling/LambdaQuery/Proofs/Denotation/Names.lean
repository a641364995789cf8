import LambdaQuery.Proofs.Names

/-!
# Free names

`Scalar.free` lists the names that a scalar is given from outside: a source binds its name for the
sources after it and for the clauses of its query. `Scalar.queries` lists the nested queries, those
inside of others too. A substitution that no source interferes with takes the name away and brings
in the names of the replacement (`Scalar.mem_free_substitute`).
-/

set_option autoImplicit false

namespace LambdaQuery

mutual

/-- The names in a scalar that no source inside of it binds. -/
def Scalar.free : Scalar → List String
  | .literal _ | .parameter _ => []
  | .ref name => [name]
  | .index object key => object.free ++ key.free
  | .binary _ left right => left.free ++ right.free
  | .unary _ operand => operand.free
  | .call _ args _ => Scalar.freeAll args
  | .array items => Scalar.freeAll items
  | .object properties => Scalar.freeProperties properties
  | .conditional test ifTrue ifFalse => test.free ++ (ifTrue.free ++ ifFalse.free)
  | .isIn item items _ => item.free ++ Scalar.freeAll items
  | .exists query | .arrayOf query | .subquery query => query.free

def Scalar.freeAll : List Scalar → List String
  | [] => []
  | s :: ss => s.free ++ Scalar.freeAll ss

def Scalar.freeProperties : List (String × Scalar) → List String
  | [] => []
  | (_, s) :: ps => s.free ++ Scalar.freeProperties ps

def Projection.free : Projection → List String
  | .star => []
  | .value value => value.free

/-- The names in sources and in what comes after them that the sources do not bind. -/
def Source.freeBefore : List Source → List String → List String
  | [], rest => rest
  | .container name :: ss, rest => (Source.freeBefore ss rest).filter (· ≠ name)
  | .items name path :: ss, rest =>
    path.free ++ (Source.freeBefore ss rest).filter (· ≠ name)
  | .subquery name query :: ss, rest =>
    query.free ++ (Source.freeBefore ss rest).filter (· ≠ name)

def Scalar.freeOption : Option Scalar → List String
  | none => []
  | some s => s.free

def SortKey.freeAll : List SortKey → List String
  | [] => []
  | ⟨value, _⟩ :: ks => value.free ++ SortKey.freeAll ks

def Query.free : Query → List String
  | ⟨⟨projection, _, _⟩, sources, filter, groupBy, orderBy, _, _⟩ =>
    Source.freeBefore sources (projection.free ++ (Scalar.freeOption filter ++
      (Scalar.freeAll groupBy ++ SortKey.freeAll orderBy)))

end

mutual

/-- The nested queries in a scalar, those in their clauses included. -/
def Scalar.queries : Scalar → List Query
  | .literal _ | .ref _ | .parameter _ => []
  | .index object key => object.queries ++ key.queries
  | .binary _ left right => left.queries ++ right.queries
  | .unary _ operand => operand.queries
  | .call _ args _ => Scalar.queriesAll args
  | .array items => Scalar.queriesAll items
  | .object properties => Scalar.queriesProperties properties
  | .conditional test ifTrue ifFalse => test.queries ++ (ifTrue.queries ++ ifFalse.queries)
  | .isIn item items _ => item.queries ++ Scalar.queriesAll items
  | .exists query | .arrayOf query | .subquery query => query :: query.queries

def Scalar.queriesAll : List Scalar → List Query
  | [] => []
  | s :: ss => s.queries ++ Scalar.queriesAll ss

def Scalar.queriesProperties : List (String × Scalar) → List Query
  | [] => []
  | (_, s) :: ps => s.queries ++ Scalar.queriesProperties ps

def Projection.queries : Projection → List Query
  | .star => []
  | .value value => value.queries

def Source.queriesAll : List Source → List Query
  | [] => []
  | .container _ :: ss => Source.queriesAll ss
  | .items _ path :: ss => path.queries ++ Source.queriesAll ss
  | .subquery _ query :: ss => query :: (query.queries ++ Source.queriesAll ss)

def Scalar.queriesOption : Option Scalar → List Query
  | none => []
  | some s => s.queries

def SortKey.queriesAll : List SortKey → List Query
  | [] => []
  | ⟨value, _⟩ :: ks => value.queries ++ SortKey.queriesAll ks

/-- The nested queries in the clauses of a query. -/
def Query.queries : Query → List Query
  | ⟨⟨projection, _, _⟩, sources, filter, groupBy, orderBy, _, _⟩ =>
    Source.queriesAll sources ++ (projection.queries ++ (Scalar.queriesOption filter ++
      (Scalar.queriesAll groupBy ++ SortKey.queriesAll orderBy)))

end

/-! ## Substitution -/

namespace Substitution

variable (σ : Substitution)

/-- No source of the query binds the replaced name or a free name of the replacement. -/
def Avoids (q : Query) : Prop :=
  ∀ s ∈ q.sources, s.name ≠ σ.name ∧ s.name ∉ σ.replacement.free

/-- `after` has the names that the substitution makes of those in `before`. -/
def Renews (before after : List String) : Prop :=
  ∀ n, n ∈ after ↔ n ∈ before ∧ n ≠ σ.name ∨ σ.name ∈ before ∧ n ∈ σ.replacement.free

variable {σ}

theorem Renews.nil : σ.Renews [] [] := fun n => by simp

theorem Renews.append {l l' m m' : List String} (hl : σ.Renews l l') (hm : σ.Renews m m') :
    σ.Renews (l ++ m) (l' ++ m') := fun n => by
  have hln := hl n
  have hmn := hm n
  simp only [List.mem_append]
  grind

/-- A source that binds another name, which is not free in the replacement. -/
theorem Renews.bind {l l' : List String} (h : σ.Renews l l') {name : String}
    (hname : name ≠ σ.name) (hfree : name ∉ σ.replacement.free) :
    σ.Renews (l.filter (· ≠ name)) (l'.filter (· ≠ name)) := fun n => by
  have hn := h n
  have hne : n ∈ σ.replacement.free → n ≠ name := fun hm he => hfree (he ▸ hm)
  simp only [List.mem_filter, decide_eq_true_eq]
  constructor
  · rintro ⟨hmem, hnot⟩
    exact (hn.mp hmem).imp (fun ⟨hl, hx⟩ => ⟨⟨hl, hnot⟩, hx⟩) fun ⟨hx, hr⟩ => ⟨⟨hx, hname.symm⟩, hr⟩
  · rintro (⟨⟨hl, hnot⟩, hx⟩ | ⟨⟨hx, -⟩, hr⟩)
    · exact ⟨hn.mpr (.inl ⟨hl, hx⟩), hnot⟩
    · exact ⟨hn.mpr (.inr ⟨hx, hr⟩), hne hr⟩

theorem Renews.ref (name : String) : σ.Renews [name] ((Scalar.ref name).substitute σ).free :=
  fun n => by
    rw [Scalar.substitute]
    split
    · rename_i h
      subst h
      simp
    · rename_i h
      simp only [Scalar.free, List.mem_singleton]
      exact ⟨fun hn => .inl ⟨hn, hn ▸ h⟩,
        fun hn => hn.elim And.left fun ⟨hx, _⟩ => absurd hx.symm h⟩

end Substitution

section

variable {σ : Substitution}

section

variable {α : Type} {p : α → Prop} {l m : List α}

theorem forall_mem_left (h : ∀ a ∈ l ++ m, p a) : ∀ a ∈ l, p a := (List.forall_mem_append.mp h).1

theorem forall_mem_right (h : ∀ a ∈ l ++ m, p a) : ∀ a ∈ m, p a := (List.forall_mem_append.mp h).2

end

mutual

theorem Scalar.renews_free : ∀ s : Scalar, (∀ q ∈ s.queries, σ.Avoids q) →
    σ.Renews s.free (s.substitute σ).free
  | .literal _, _ | .parameter _, _ => .nil
  | .ref name, _ => .ref name
  | .index object key, h =>
    (object.renews_free (forall_mem_left h)).append (key.renews_free (forall_mem_right h))
  | .binary _ left right, h =>
    (left.renews_free (forall_mem_left h)).append (right.renews_free (forall_mem_right h))
  | .unary _ operand, h => operand.renews_free h
  | .call _ args _, h => Scalar.renews_freeAll args h
  | .array items, h => Scalar.renews_freeAll items h
  | .object properties, h => Scalar.renews_freeProperties properties h
  | .conditional test ifTrue ifFalse, h =>
    (test.renews_free (forall_mem_left h)).append
      ((ifTrue.renews_free (forall_mem_left (forall_mem_right h))).append
        (ifFalse.renews_free (forall_mem_right (forall_mem_right h))))
  | .isIn item items _, h =>
    (item.renews_free (forall_mem_left h)).append
      (Scalar.renews_freeAll items (forall_mem_right h))
  | .exists query, h | .arrayOf query, h | .subquery query, h =>
    query.renews_free (List.forall_mem_cons.mp h).1 (List.forall_mem_cons.mp h).2

theorem Scalar.renews_freeAll : ∀ ss : List Scalar, (∀ q ∈ Scalar.queriesAll ss, σ.Avoids q) →
    σ.Renews (Scalar.freeAll ss) (Scalar.freeAll (Scalar.substituteAll σ ss))
  | [], _ => .nil
  | s :: ss, h =>
    (s.renews_free (forall_mem_left h)).append (Scalar.renews_freeAll ss (forall_mem_right h))

theorem Scalar.renews_freeProperties : ∀ ps : List (String × Scalar),
    (∀ q ∈ Scalar.queriesProperties ps, σ.Avoids q) →
      σ.Renews (Scalar.freeProperties ps)
        (Scalar.freeProperties (Scalar.substituteProperties σ ps))
  | [], _ => .nil
  | (_, s) :: ps, h =>
    (s.renews_free (forall_mem_left h)).append
      (Scalar.renews_freeProperties ps (forall_mem_right h))

theorem Projection.renews_free : ∀ p : Projection, (∀ q ∈ p.queries, σ.Avoids q) →
    σ.Renews p.free (p.substitute σ).free
  | .star, _ => .nil
  | .value value, h => value.renews_free h

theorem Source.renews_freeBefore : ∀ (ss : List Source) {rest rest' : List String},
    (∀ s ∈ ss, s.name ≠ σ.name ∧ s.name ∉ σ.replacement.free) →
      (∀ q ∈ Source.queriesAll ss, σ.Avoids q) → σ.Renews rest rest' →
        σ.Renews (Source.freeBefore ss rest)
          (Source.freeBefore (Source.substituteAll σ ss) rest')
  | [], _, _, _, _, hrest => hrest
  | .container _ :: ss, _, _, hs, h, hrest =>
    have ⟨hname, hss⟩ := List.forall_mem_cons.mp hs
    (Source.renews_freeBefore ss hss h hrest).bind hname.1 hname.2
  | .items _ path :: ss, _, _, hs, h, hrest =>
    have ⟨hname, hss⟩ := List.forall_mem_cons.mp hs
    (path.renews_free (forall_mem_left h)).append
      ((Source.renews_freeBefore ss hss (forall_mem_right h) hrest).bind hname.1 hname.2)
  | .subquery _ query :: ss, _, _, hs, h, hrest =>
    have ⟨hname, hss⟩ := List.forall_mem_cons.mp hs
    have ⟨hquery, hinner⟩ := List.forall_mem_cons.mp h
    (query.renews_free hquery (forall_mem_left hinner)).append
      ((Source.renews_freeBefore ss hss (forall_mem_right hinner) hrest).bind hname.1 hname.2)

theorem Scalar.renews_freeOption : ∀ s : Option Scalar,
    (∀ q ∈ Scalar.queriesOption s, σ.Avoids q) →
      σ.Renews (Scalar.freeOption s) (Scalar.freeOption (Scalar.substituteOption σ s))
  | none, _ => .nil
  | some s, h => s.renews_free h

theorem SortKey.renews_freeAll : ∀ ks : List SortKey, (∀ q ∈ SortKey.queriesAll ks, σ.Avoids q) →
    σ.Renews (SortKey.freeAll ks) (SortKey.freeAll (SortKey.substituteAll σ ks))
  | [], _ => .nil
  | ⟨value, _⟩ :: ks, h =>
    (value.renews_free (forall_mem_left h)).append
      (SortKey.renews_freeAll ks (forall_mem_right h))

theorem Query.renews_free : ∀ q : Query, σ.Avoids q → (∀ q' ∈ q.queries, σ.Avoids q') →
    σ.Renews q.free (q.substitute σ).free
  | ⟨⟨projection, _, _⟩, sources, filter, groupBy, orderBy, _, _⟩, hq, h =>
    have hselected := forall_mem_right h
    have hfiltered := forall_mem_right hselected
    have hgrouped := forall_mem_right hfiltered
    Source.renews_freeBefore sources hq (forall_mem_left h)
      ((projection.renews_free (forall_mem_left hselected)).append
        ((Scalar.renews_freeOption filter (forall_mem_left hfiltered)).append
          ((Scalar.renews_freeAll groupBy (forall_mem_left hgrouped)).append
            (SortKey.renews_freeAll orderBy (forall_mem_right hgrouped)))))

end

end

end LambdaQuery
