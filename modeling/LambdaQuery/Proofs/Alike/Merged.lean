import LambdaQuery.Proofs.Alike.Flatten
import LambdaQuery.Proofs.Fresh

/-!
# Names of merged layers

A name that no source may bind occurs in alike scalars only where it is a reference, and a
substitution leaves none of those (`Scalar.Alike.notMem_substitute`). So the query of a stage has no
name of a layer that was merged (`Stage.Alike.notMem_merged`).
-/

set_option autoImplicit false

namespace LambdaQuery

variable {c : Likeness} {Γ Δ : Context} {σ : Substitution} {x : String}

/-- No source in scalars that are alike in `Γ` binds `x`, and `σ` replaces every reference to it. -/
structure Likeness.Clears (c : Likeness) (Γ : Context) (σ : Substitution) (x : String) : Prop where
  bound : x ∈ c.left ∨ ∃ p ∈ Γ, p.1 = x
  leaf : ∀ a b, c.leaf a b → x ∉ a.names
  replacement : x ∉ σ.replacement.names
  ref : ∀ p ∈ Γ, p.1 = x → σ.name = x

namespace Likeness.Clears

variable (hx : c.Clears Γ σ x)

include hx

theorem ne_fresh {n m : String} (hn : c.Fresh Γ n m) : n ≠ x := by
  rintro rfl
  rcases hx.bound with h | ⟨p, hp, he⟩
  · exact hn.left h
  · exact (hn.unbound p hp).1 he

theorem cons {n m : String} (hn : c.Fresh Γ n m) : c.Clears ((n, m) :: Γ) σ x where
  bound := hx.bound.imp_right fun ⟨p, hp, he⟩ => ⟨p, List.mem_cons_of_mem _ hp, he⟩
  leaf := hx.leaf
  replacement := hx.replacement
  ref p hp he := by
    rcases List.mem_cons.mp hp with rfl | hp
    · exact absurd he (hx.ne_fresh hn)
    · exact hx.ref p hp he

/-- What follows some sources is cleared as they are. -/
theorem sources {ss ts : List Source} (h : Source.AllAlike c Γ ss ts Δ) : c.Clears Δ σ x := by
  induction ss generalizing Γ ts with
  | nil =>
    cases h
    exact hx
  | cons s ss ih =>
    cases h with
    | container hn h => exact ih (hx.cons hn) h
    | items hp hn h => exact ih (hx.cons hn) h
    | subquery hq hn h => exact ih (hx.cons hn) h

end Likeness.Clears

theorem notMem_append {ns ms : List String} (h : x ∉ ns) (h' : x ∉ ms) : x ∉ ns ++ ms := fun hm =>
  (List.mem_append.mp hm).elim h h'

mutual

/-- **The name does not occur any more.** -/
theorem Scalar.Alike.notMem_substitute : ∀ {Γ : Context} {a b : Scalar}, Scalar.Alike c Γ a b →
    c.Clears Γ σ x → x ∉ (a.substitute σ).names
  | _, a, _, .leaf h, hx => fun hm => (a.mem_names_substitute hm).elim (hx.leaf _ _ h)
    hx.replacement
  | _, _, _, .literal value, _ => List.not_mem_nil
  | _, _, _, .ref (n := n) h, hx => by
    rw [Scalar.substitute]
    split
    · exact hx.replacement
    · rename_i hne
      intro hm
      obtain rfl := List.mem_singleton.mp hm
      exact hne (hx.ref _ h rfl).symm
  | _, _, _, .index h hk, hx =>
    notMem_append (h.notMem_substitute hx) (hk.notMem_substitute hx)
  | _, _, _, .binary op h h', hx =>
    notMem_append (h.notMem_substitute hx) (h'.notMem_substitute hx)
  | _, _, _, .unary op h, hx => h.notMem_substitute hx
  | _, _, _, .notIn hn h, hx => h.notMem_substitute hx
  | _, _, _, .negated h, hx => h.notMem_substitute hx
  | _, _, _, .call name udf h, hx => h.notMem_substitute hx
  | _, _, _, .array h, hx => h.notMem_substitute hx
  | _, _, _, .object h, hx => h.notMem_substitute hx
  | _, _, _, .conditional h h₁ h₂, hx =>
    notMem_append (h.notMem_substitute hx)
      (notMem_append (h₁.notMem_substitute hx) (h₂.notMem_substitute hx))
  | _, _, _, .isIn negated h hs, hx =>
    notMem_append (h.notMem_substitute hx) (hs.notMem_substitute hx)
  | _, _, _, .exists h, hx => h.notMem_substitute hx
  | _, _, _, .arrayOf h, hx => h.notMem_substitute hx
  | _, _, _, .subquery h, hx => h.notMem_substitute hx

theorem Scalar.AllAlike.notMem_substitute : ∀ {Γ : Context} {as bs : List Scalar},
    Scalar.AllAlike c Γ as bs → c.Clears Γ σ x →
      x ∉ Scalar.namesAll (Scalar.substituteAll σ as)
  | _, _, _, .nil, _ => List.not_mem_nil
  | _, _, _, .cons h hs, hx => notMem_append (h.notMem_substitute hx) (hs.notMem_substitute hx)

theorem Scalar.PropertiesAlike.notMem_substitute :
    ∀ {Γ : Context} {ps qs : List (String × Scalar)}, Scalar.PropertiesAlike c Γ ps qs →
      c.Clears Γ σ x → x ∉ Scalar.namesProperties (Scalar.substituteProperties σ ps)
  | _, _, _, .nil, _ => List.not_mem_nil
  | _, _, _, .cons name h hs, hx =>
    notMem_append (h.notMem_substitute hx) (hs.notMem_substitute hx)

theorem Source.AllAlike.notMem_substitute : ∀ {Γ Δ : Context} {ss ts : List Source},
    Source.AllAlike c Γ ss ts Δ → c.Clears Γ σ x →
      x ∉ Source.namesAll (Source.substituteAll σ ss)
  | _, _, _, _, .nil, _ => List.not_mem_nil
  | _, _, _, _, .container hn h, hx =>
    notMem_append (fun hm => hx.ne_fresh hn (List.mem_singleton.mp hm).symm)
      (h.notMem_substitute (hx.cons hn))
  | _, _, _, _, .items hp hn h, hx =>
    notMem_append (fun hm => (List.mem_cons.mp hm).elim (fun he => hx.ne_fresh hn he.symm)
      (hp.notMem_substitute hx)) (h.notMem_substitute (hx.cons hn))
  | _, _, _, _, .subquery hq hn h, hx =>
    notMem_append (fun hm => (List.mem_cons.mp hm).elim (fun he => hx.ne_fresh hn he.symm)
      (hq.notMem_substitute hx)) (h.notMem_substitute (hx.cons hn))

theorem Query.Alike.notMem_substitute : ∀ {Γ : Context} {q r : Query}, Query.Alike c Γ q r →
    c.Clears Γ σ x → x ∉ (q.substitute σ).names
  | _, ⟨selection, sources, filter, groupBy, orderBy, offset, limit⟩, _,
    .mk hsources value _ hfilter hgroupBy horderBy _ _ _ _, hx => by
    have hΔ := hx.sources hsources
    have hv : x ∉ Scalar.namesAll (selection.substitute σ).value?.toList := by
      rw [Selection.value?_substitute]
      exact value.notMem_substitute hΔ
    have hf : x ∉ Scalar.namesAll (Scalar.substituteOption σ filter).toList := by
      rw [Scalar.toList_substituteOption]
      exact hfilter.notMem_substitute hΔ
    have ho : x ∉ Scalar.namesAll ((SortKey.substituteAll σ orderBy).map (·.value)) := by
      rw [SortKey.values_substituteAll]
      exact horderBy.notMem_substitute hΔ
    intro hm
    rcases (Query.mem_names _).mp hm with hm | hm | hm | hm | hm
    · exact hsources.notMem_substitute hx hm
    · exact hv hm
    · exact hf hm
    · exact hgroupBy.notMem_substitute hΔ hm
    · exact ho hm

end

/-! ## Names without references -/

/-- A substitution that changes nothing in what has the given names, and brings in none. -/
theorem exists_idle (ns : List String) :
    ∃ σ : Substitution, σ.name ∉ ns ∧ σ.replacement.names = [] := by
  obtain ⟨k, -, hk⟩ := Scope.exists_number ns "" 0
  exact ⟨⟨_, .literal .null⟩, hk, rfl⟩

/-- No source binds `x`, and no reference is to it. -/
structure Likeness.Avoids (c : Likeness) (Γ : Context) (x : String) : Prop where
  left : x ∈ c.left
  leaf : ∀ a b, c.leaf a b → x ∉ a.names
  ref : ∀ p ∈ Γ, p.1 ≠ x

theorem Likeness.Avoids.clears (hx : c.Avoids Γ x) (h : σ.replacement.names = []) :
    c.Clears Γ σ x where
  bound := .inl hx.left
  leaf := hx.leaf
  replacement hm := by
    rw [h] at hm
    cases hm
  ref p hp he := absurd he (hx.ref p hp)

theorem Scalar.Alike.notMem {a b : Scalar} (h : Scalar.Alike c Γ a b) (hx : c.Avoids Γ x) :
    x ∉ a.names := by
  obtain ⟨σ, hσ, hr⟩ := exists_idle a.names
  have := h.notMem_substitute (hx.clears hr)
  rwa [a.substitute_of_not_mem hσ] at this

theorem Scalar.AllAlike.notMem {as bs : List Scalar} (h : Scalar.AllAlike c Γ as bs)
    (hx : c.Avoids Γ x) : x ∉ Scalar.namesAll as := by
  obtain ⟨σ, hσ, hr⟩ := exists_idle (Scalar.namesAll as)
  have := h.notMem_substitute (hx.clears hr)
  rwa [Scalar.substituteAll_of_not_mem as hσ] at this

theorem Query.Alike.notMem {q r : Query} (h : Query.Alike c Γ q r) (hx : c.Avoids Γ x) :
    x ∉ q.names := by
  obtain ⟨σ, hσ, hr⟩ := exists_idle q.names
  have := h.notMem_substitute (hx.clears hr)
  rwa [q.substitute_of_not_mem hσ] at this

/-! ## Layers -/

theorem LayerSource.Alike.notMem {s t : LayerSource} (h : LayerSource.Alike c s t)
    (hx : c.Avoids [] x) : x ∉ s.names := by
  cases h with
  | container => exact List.not_mem_nil
  | items hp => exact hp.notMem hx
  | subquery hq => exact hq.notMem hx

theorem JoinsAlike.fresh {js ks : List (String × Scalar)} (h : JoinsAlike c Γ js ks) :
    ∀ j ∈ js, j.1 ∉ c.left ∧ ∀ p ∈ Γ, p.1 ≠ j.1 := by
  induction h with
  | nil => exact fun _ hj => nomatch hj
  | cons hp hn h ih =>
    intro j hj
    rcases List.mem_cons.mp hj with rfl | hj
    · exact ⟨hn.left, fun p hp => (hn.unbound p hp).1⟩
    · exact ⟨(ih j hj).1, fun p hp => (ih j hj).2 p (List.mem_cons_of_mem _ hp)⟩

theorem JoinsAlike.paths {js ks : List (String × Scalar)} (h : JoinsAlike c Γ js ks) :
    ∀ j ∈ js, ∃ Δ t, Γ ⊆ Δ ∧ Δ ⊆ joinContext Γ js ks ∧ Scalar.Alike c Δ j.2 t := by
  induction h with
  | nil => exact fun _ hj => nomatch hj
  | @cons Γ n m p q js ks hp hn h ih =>
    intro j hj
    rcases List.mem_cons.mp hj with rfl | hj
    · exact ⟨Γ, q, List.Subset.refl _,
        List.Subset.trans (List.subset_cons_self ..) h.subset, hp⟩
    · obtain ⟨Δ, t, hΓ, hΔ, ht⟩ := ih j hj
      exact ⟨Δ, t, List.Subset.trans (List.subset_cons_self ..) hΓ, hΔ, ht⟩

theorem Scalar.AllAlike.exists_alike {as bs : List Scalar} (h : Scalar.AllAlike c Γ as bs)
    {a : Scalar} (ha : a ∈ as) : ∃ b, Scalar.Alike c Γ a b := by
  induction as generalizing bs with
  | nil => cases ha
  | cons a' as ih =>
    cases h with
    | cons hab h =>
      rcases List.mem_cons.mp ha with rfl | ha
      · exact ⟨_, hab⟩
      · exact ih h ha

namespace Layer

variable {l l' : Layer}

section

variable (h : Layer.Alike c l l')

include h

/-- Every clause sees the name of the layer and at most the names of the joins besides. -/
theorem Alike.clause {s : Scalar} (hs : s ∈ l.clauses) :
    ∃ Δ t, [(l.name, l'.name)] ⊆ Δ ∧ Δ ⊆ l.context l' ∧ Scalar.Alike c Δ s t := by
  have hall : [(l.name, l'.name)] ⊆ l.context l' := h.joins.subset
  rcases mem_clauses.mp hs with ⟨j, hj, rfl⟩ | hv | hf | ⟨k, hk, rfl⟩
  · exact h.joins.paths j hj
  · obtain ⟨sel, hsel, hv⟩ := Option.bind_eq_some_iff.mp hv
    rcases optionRel_cases h.selection with ⟨h₁, -⟩ | ⟨x, y, h₁, -, hxy⟩
    · rw [h₁] at hsel
      cases hsel
    · rw [h₁] at hsel
      obtain rfl := Option.some.inj hsel
      rcases optionRel_cases hxy.value with ⟨h₁, -⟩ | ⟨v, w, h₁, -, hvw, -⟩
      · rw [h₁] at hv
        cases hv
      · rw [h₁] at hv
        obtain rfl := Option.some.inj hv
        exact ⟨_, w, hall, List.Subset.refl _, hvw⟩
  · rcases optionRel_cases h.filter with ⟨h₁, -⟩ | ⟨f, g, h₁, -, hfg⟩
    · rw [h₁] at hf
      cases hf
    · rw [h₁] at hf
      obtain rfl := Option.some.inj hf
      exact ⟨_, g, hall, List.Subset.refl _, hfg⟩
  · obtain ⟨t, ht⟩ := h.orderBy.exists_alike (List.mem_map_of_mem hk)
    exact ⟨_, t, hall, List.Subset.refl _, ht⟩

theorem Alike.context_fresh {p : String × String} (hp : p ∈ l.context l') : p.1 ∉ c.left := by
  have hjoins : ∀ {Γ : Context} {js ks : List (String × Scalar)}, JoinsAlike c Γ js ks →
      (∀ p ∈ Γ, p.1 ∉ c.left) → ∀ p ∈ joinContext Γ js ks, p.1 ∉ c.left := by
    intro Γ js ks h
    induction h with
    | nil => exact fun hΓ => hΓ
    | cons hp hn h ih =>
      refine fun hΓ => ih fun p hp => ?_
      rcases List.mem_cons.mp hp with rfl | hp
      · exact hn.left
      · exact hΓ p hp
  refine hjoins h.joins (fun q hq => ?_) p hp
  obtain rfl := List.mem_singleton.mp hq
  exact h.name.left

/-- A reserved name that no leaf has does not occur. -/
theorem Alike.notMem (hx : x ∈ c.left) (hleaf : ∀ a b, c.leaf a b → x ∉ a.names) :
    x ∉ l.names := by
  have hcontext : c.Avoids (l.context l') x :=
    ⟨hx, hleaf, fun p hp he => h.context_fresh hp (he ▸ hx)⟩
  have hclauses : ∀ s ∈ l.clauses, x ∉ s.names := by
    intro s hs
    obtain ⟨Δ, t, -, hΔ, ht⟩ := h.clause hs
    exact ht.notMem ⟨hx, hleaf, fun p hp => hcontext.ref p (hΔ hp)⟩
  have hempty : c.Avoids [] x := ⟨hx, hleaf, fun _ hp => nomatch hp⟩
  intro hm
  rcases mem_names.mp hm with rfl | hm | hm | ⟨s, hs, hm⟩ | hm | hm | hm
  · exact h.name.left hx
  · exact h.source.notMem hempty hm
  · obtain ⟨j, hj, hm⟩ := List.mem_flatMap.mp hm
    rcases List.mem_cons.mp hm with rfl | hm
    · exact (h.joins.fresh j hj).1 hx
    · exact hclauses j.2 (mem_clauses.mpr (.inl ⟨j, hj, rfl⟩)) hm
  · obtain ⟨projection, distinct, top⟩ := s
    cases projection with
    | star => cases hm
    | value v => exact hclauses v (mem_clauses.mpr (.inr (.inl (by rw [hs]; rfl)))) hm
  · obtain ⟨f, hf, hm⟩ := Scalar.mem_namesOption.mp hm
    exact hclauses f (mem_clauses.mpr (.inr (.inr (.inl hf)))) hm
  · exact h.groupBy.notMem hcontext hm
  · obtain ⟨k, hk, hm⟩ := SortKey.mem_namesAll.mp hm
    exact hclauses _ (mem_clauses.mpr (.inr (.inr (.inr ⟨k, hk, rfl⟩)))) hm

end

/-- The name of a merged layer does not occur in what it is merged into. -/
theorem Alike.notMem_merge {L L' : List String} {b m : Layer}
    (h : Layer.Alike (c.reserve L L') l l') (hL : b.names ⊆ L) (hm : l.merge b = .ok m) :
    l.name ∉ m.names := by
  have hname : l.name ∉ c.left ++ L := h.name.left
  have hb : ∀ n ∈ b.names, n ≠ l.name := fun n hn he =>
    hname (he ▸ List.mem_append_right _ (hL hn))
  have hj : ∀ j ∈ l.joins, j.1 ≠ l.name := fun j hj he =>
    (h.joins.fresh j hj).2 _ (List.mem_singleton_self _) he.symm
  refine fun hmem => names_of_merge hb hj (fun s hs n hn he => ?_) hm l.name hmem rfl
  obtain ⟨Δ, t, hΔ, -, ht⟩ := h.clause hs
  refine ht.notMem_substitute ⟨.inr ⟨_, hΔ (List.mem_singleton_self _), rfl⟩, ?_, ?_, ?_⟩ (he ▸ hn)
  · exact fun a b hab hn => hname (List.mem_append_left _ ((c.leaf_names a b hab).1 hn))
  · exact fun hn => hb _ (b.names_row hn) rfl
  · exact fun p _ he => rfl

/-- The names of the layers that are merged are unused, and new where the layers are. -/
theorem AllAlike.notMem_merged {ls ls' : List Layer} (h : Layer.AllAlike c (l :: ls) (l' :: ls'))
    {m : Layer} (hm : l.flattenAll ls = .ok m) (hx : x ∈ l.mergedAll ls) :
    x ∉ m.names ∧ x ∉ c.left ∧ x ∈ allNames (l :: ls) := by
  induction ls generalizing l l' ls' m with
  | nil => cases hx
  | cons b ls ih =>
    obtain ⟨below, hbelow, hm⟩ := bind_eq_ok.mp hm
    cases h with
    | cons h hs =>
      cases ls' with
      | nil => cases hs
      | cons b' ls' =>
        have hlower : x ∈ b.mergedAll ls →
            x ∉ m.names ∧ x ∉ c.left ∧ x ∈ allNames (l :: b :: ls) := by
          intro hx
          obtain ⟨hnot, hleft, hall⟩ := ih hs hbelow hx
          have hl : x ∉ l.names := h.notMem (List.mem_append_right _ hall)
            fun a b hab hn => hleft ((c.leaf_names a b hab).1 hn)
          refine ⟨fun hmem => ?_, hleft, List.mem_append_right _ hall⟩
          rcases List.mem_append.mp (names_flattenOnto hm hmem) with hn | hn
          · exact hl hn
          · exact hnot hn
        rw [mergedAll, hbelow] at hx
        dsimp only at hx
        obtain ⟨-, hmerge⟩ := flattenOnto_eq_ok.mp hm
        by_cases hsub : l.needsSubquery below = true
        · rw [if_pos hsub] at hx
          exact hlower hx
        · rw [if_neg hsub] at hx hmerge
          rcases List.mem_cons.mp hx with rfl | hx
          · exact ⟨h.notMem_merge (names_flattenAll hbelow) hmerge,
              fun hn => h.name.left (List.mem_append_left _ hn),
              List.mem_append_left _ l.name_mem_names⟩
          · exact hlower hx

end Layer

/-- **No name of a merged layer occurs in the query of a stage.** -/
theorem Stage.Alike.notMem_merged {s s' : Stage} (h : Stage.Alike c s s') {q : Query}
    (hq : s.toQuery = .ok q) (hx : x ∈ s.merged) :
    x ∉ q.names ∧ x ∉ c.left ∧ x ∈ Layer.allNames s.layers := by
  obtain ⟨l, hl, hq⟩ := bind_eq_ok.mp hq
  obtain rfl := Except.ok.inj hq
  obtain ⟨hnot, hleft, hall⟩ := Layer.AllAlike.notMem_merged h hl hx
  exact ⟨fun hn => hnot (l.names_toQuery hn), hleft, hall⟩

end LambdaQuery
