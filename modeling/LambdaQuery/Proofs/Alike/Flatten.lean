import LambdaQuery.Proofs.Alike.Stage
import LambdaQuery.Proofs.Edits

/-!
# Flattening alike stages

`Layer.Alike.flattenOnto` is the step: of alike layers over alike layers both are merged or both
keep the lower one as a subquery, and what comes out is alike. `Stage.Alike.toQuery` follows by
induction on the layers.
-/

set_option autoImplicit false

namespace LambdaQuery

variable {c : Likeness} {Γ Δ : Context}

theorem bind_eq_ok {ε α β : Type} {x : Except ε α} {f : α → Except ε β} {b : β} :
    (x >>= f) = .ok b ↔ ∃ a, x = .ok a ∧ f a = .ok b := by
  cases x with
  | error e => exact iff_of_false nofun fun ⟨_, h, _⟩ => nomatch h
  | ok a =>
    refine ⟨fun h => ⟨a, rfl, h⟩, ?_⟩
    rintro ⟨_, ⟨⟩, h⟩
    exact h

/-! ## Counts -/

/-- Where bounds that are alike to others are combined, the others are, and so are the results. -/
theorem Count.Combines.alike {f : Option Count → Option Count → Except CompileError (Option Count)}
    {g : Int64 → Int64 → Int64} {e : CompileError} (hf : Count.Combines f g e)
    {a b a' b' : Option Count} (ha : Option.Rel c.count a a') (hb : Option.Rel c.count b b')
    {z' : Option Count} (h : f a' b' = .ok z') :
    ∃ z, f a b = .ok z ∧ Option.Rel c.count z z' := by
  rcases hf.eq_ok h with ⟨rfl, rfl⟩ | ⟨rfl, rfl⟩ | ⟨m, n, rfl, rfl, rfl⟩
  · cases ha
    exact ⟨b, hf.none_left b, hb⟩
  · cases hb
    exact ⟨a, hf.none_right a, ha⟩
  · cases ha with
    | @some x _ hx =>
      cases hb with
      | @some y _ hy =>
        obtain rfl := (c.count_literal x m).mp hx
        obtain rfl := (c.count_literal y n).mp hy
        exact ⟨_, hf.literals m n, .some ((c.count_literal _ _).mpr rfl)⟩

/-! ## Shapes -/

/-- A scalar is the bare name exactly when the other one is the name bound with it. -/
theorem Scalar.Alike.isRef {a b : Scalar} (h : Scalar.Alike c Γ a b) {n m : String}
    (hn : n ∉ c.left) (hm : m ∉ c.right) (hΓ : ∀ p ∈ Γ, p.1 = n ↔ p.2 = m) :
    a.isRef n = b.isRef m := by
  have hne : ∀ {s : Scalar} {x : String}, x ∉ s.names → s.isRef x = false := by
    intro s x hx
    cases s with
    | ref y =>
      have hy : y ≠ x := fun h => hx (h ▸ List.mem_singleton_self _)
      simp [Scalar.isRef, hy]
    | _ => rfl
  cases h with
  | leaf h =>
    obtain ⟨ha, hb⟩ := c.leaf_names _ _ h
    rw [hne fun h => hn (ha h), hne fun h => hm (hb h)]
  | @ref _ x y h =>
    have hxy : x = n ↔ y = m := hΓ _ h
    rw [Scalar.isRef, Scalar.isRef, Bool.eq_iff_iff, beq_iff_eq, beq_iff_eq]
    exact hxy
  | _ => rfl

/-- Replacing a name by what is no aggregate makes and breaks no aggregate. -/
theorem Scalar.isAggregate_substitute {σ : Substitution}
    (hσ : σ.replacement.isAggregate = false) : ∀ s : Scalar,
    (s.substitute σ).isAggregate = s.isAggregate
  | .binary _ left right => by
    simp only [Scalar.substitute, Scalar.isAggregate, left.isAggregate_substitute hσ,
      right.isAggregate_substitute hσ]
  | .ref name => by
    simp only [Scalar.substitute]
    split
    · exact hσ
    · rfl
  | .literal _ | .index .. | .unary .. | .call .. | .array _ | .object _ | .conditional ..
  | .isIn .. | .parameter _ | .exists _ | .arrayOf _ | .subquery _ => rfl

theorem Selection.Alike.hasAggregate {s t : Selection} (h : Selection.Alike c Γ s t) :
    s.hasAggregate = t.hasAggregate := by
  unfold Selection.hasAggregate
  rcases optionRel_cases h.value with ⟨h₁, h₂⟩ | ⟨v, w, h₁, h₂, hv⟩
  · rw [h₁, h₂]
  · rw [h₁, h₂]
    exact hv.2

theorem Scalar.AllAlike.isEmpty {as bs : List Scalar} (h : Scalar.AllAlike c Γ as bs) :
    as.isEmpty = bs.isEmpty := by
  cases h <;> rfl

theorem JoinsAlike.isEmpty {js ks : List (String × Scalar)} (h : JoinsAlike c Γ js ks) :
    js.isEmpty = ks.isEmpty := by
  cases h <;> rfl

/-! ## Queries of layers -/

theorem toList_alike {x y : Option Scalar} (h : Option.Rel (Scalar.Alike c Γ) x y) :
    Scalar.AllAlike c Γ x.toList y.toList := by
  cases h with
  | none => exact .nil
  | some h => exact .cons h .nil

theorem JoinsAlike.sources {js ks : List (String × Scalar)} (h : JoinsAlike c Γ js ks) :
    Source.AllAlike c Γ (js.map fun (name, path) => .items name path)
      (ks.map fun (name, path) => .items name path) (joinContext Γ js ks) := by
  induction h with
  | nil => exact .nil
  | cons hp hn h ih => exact .items hp hn ih

theorem Layer.Alike.toQuery {l l' : Layer} (h : Layer.Alike c l l') :
    Query.Alike c [] l.toQuery l'.toQuery := by
  have hsources : Source.AllAlike c [] l.toQuery.sources l'.toQuery.sources (l.context l') := by
    have hs := h.source
    unfold Layer.toQuery Layer.toSource
    cases h₁ : l.source <;> cases h₂ : l'.source <;> rw [h₁, h₂] at hs <;> cases hs
    · exact .container h.name h.joins.sources
    · rename_i hp
      exact .items hp h.name h.joins.sources
    · rename_i hq
      exact .subquery hq h.name h.joins.sources
  have hsel : Option.Rel (Scalar.Alike c (l.context l')) l.toQuery.selection.value?
      l'.toQuery.selection.value? ∧
        l.toQuery.selection.distinct = l'.toQuery.selection.distinct := by
    unfold Layer.toQuery
    rcases optionRel_cases h.selection with ⟨h₁, h₂⟩ | ⟨s, t, h₁, h₂, hs⟩
    · rw [h₁, h₂]
      exact ⟨.some h.row, rfl⟩
    · rw [h₁, h₂]
      exact ⟨optionRel_mono (fun _ _ hv => hv.1) hs.value, hs.distinct⟩
  exact .mk hsources (toList_alike hsel.1) hsel.2 (toList_alike h.filter) h.groupBy h.orderBy
    h.descending h.top h.offset h.limit

/-! ## The parts of a merged layer -/

namespace Layer

/-- What the rows of `below` take the place of in the clauses of `l`. -/
def onto (l below : Layer) : Substitution := ⟨l.name, below.row⟩

def mergedSelection (l below : Layer) : Option Selection :=
  match below.selection, l.outerSelection.map (·.substitute (l.onto below)) with
  | inner, none => inner
  | none, some outer => some outer
  | some inner, some outer => some { outer with distinct := outer.distinct || inner.distinct }

def mergedFilter (l below : Layer) : Option Scalar :=
  match below.filter, l.filter.map (·.substitute (l.onto below)) with
  | some inner, some outer => some (.and inner outer)
  | inner, outer => inner.or outer

def mergedOrderBy (l below : Layer) : Except CompileError (List SortKey) :=
  match below.orderBy, l.orderBy with
  | _ :: _, _ :: _ => .error (.structural .secondOrderBy)
  | [], keys => .ok (keys.map (·.substitute (l.onto below)))
  | keys, [] => .ok keys

def mergedJoins (l below : Layer) : List (String × Scalar) :=
  below.joins ++ l.joins.map fun (name, path) => (name, path.substitute (l.onto below))

theorem merge_eq (l below : Layer) :
    l.merge below = (do
      let orderBy ← l.mergedOrderBy below
      let top ← Count.min? below.top l.top
      let offset ← Count.sum? below.offset l.offset
      let limit ← Count.min? below.limit l.limit
      return ⟨below.name, below.source, l.mergedJoins below, l.mergedSelection below,
        l.mergedFilter below, below.groupBy, orderBy, top, offset, limit⟩) := by
  unfold merge mergedOrderBy
  rcases below.orderBy with _ | ⟨k, ks⟩ <;> rcases l.orderBy with _ | ⟨j, js⟩ <;> rfl

theorem merge_eq_ok {l below m : Layer} :
    l.merge below = .ok m ↔ ∃ orderBy top offset limit,
      l.mergedOrderBy below = .ok orderBy ∧ Count.min? below.top l.top = .ok top ∧
        Count.sum? below.offset l.offset = .ok offset ∧
          Count.min? below.limit l.limit = .ok limit ∧
            m = ⟨below.name, below.source, l.mergedJoins below, l.mergedSelection below,
              l.mergedFilter below, below.groupBy, orderBy, top, offset, limit⟩ := by
  rw [merge_eq]
  constructor
  · intro h
    obtain ⟨orderBy, horder, h⟩ := bind_eq_ok.mp h
    obtain ⟨top, htop, h⟩ := bind_eq_ok.mp h
    obtain ⟨offset, hoffset, h⟩ := bind_eq_ok.mp h
    obtain ⟨limit, hlimit, h⟩ := bind_eq_ok.mp h
    exact ⟨orderBy, top, offset, limit, horder, htop, hoffset, hlimit, (Except.ok.inj h).symm⟩
  · rintro ⟨orderBy, top, offset, limit, horder, htop, hoffset, hlimit, rfl⟩
    rw [horder, htop, hoffset, hlimit]
    rfl

end Layer

/-! ## Merging alike layers -/

section

variable {d : Likeness} {x y : String} {r s : Scalar}

theorem joinContext_map {f g : Scalar → Scalar} (Γ : Context) (js ks : List (String × Scalar)) :
    joinContext Γ (js.map fun (name, path) => (name, f path))
      (ks.map fun (name, path) => (name, g path)) = joinContext Γ js ks := by
  induction js generalizing Γ ks with
  | nil => rfl
  | cons j js ih =>
    cases ks with
    | nil => rfl
    | cons k ks => exact ih _ ks

theorem JoinsAlike.substitute (hc : c.Replaces d x y r s) {js ks : List (String × Scalar)}
    (h : JoinsAlike c Γ js ks) (hΓ : Context.Replaces c d x y r s Γ Δ) :
    JoinsAlike d Δ (js.map fun (name, path) => (name, path.substitute ⟨x, r⟩))
      (ks.map fun (name, path) => (name, path.substitute ⟨y, s⟩)) ∧
        Context.Replaces c d x y r s (joinContext Γ js ks) (joinContext Δ js ks) := by
  induction h generalizing Δ with
  | nil => exact ⟨.nil, hΓ⟩
  | cons hp hn h ih =>
    obtain ⟨hj, hΓ'⟩ := ih (hΓ.cons hc hn)
    exact ⟨.cons (hp.substitute hc hΓ) (hΓ.fresh hc hn) hj, hΓ'⟩

/-- Joins bind no name that is reserved. -/
theorem JoinsAlike.unreserved {js ks : List (String × Scalar)} (h : JoinsAlike c Γ js ks)
    (Θ : Context) : ∀ p ∈ joinContext Θ js ks, p ∈ Θ ∨ p.1 ∉ c.left ∧ p.2 ∉ c.right := by
  induction h generalizing Θ with
  | nil => exact fun p hp => .inl hp
  | @cons Γ n m _ _ _ _ hp hn h ih =>
    intro p hmem
    rcases ih ((n, m) :: Θ) p hmem with hmem | hmem
    · rcases List.mem_cons.mp hmem with rfl | hmem
      · exact .inr ⟨hn.left, hn.right⟩
      · exact .inl hmem
    · exact .inr hmem

theorem joinContext_subset (Θ : Context) (js ks : List (String × Scalar)) :
    Θ ⊆ joinContext Θ js ks := by
  induction js generalizing Θ ks with
  | nil => exact List.Subset.refl _
  | cons j js ih =>
    cases ks with
    | nil => exact List.Subset.refl _
    | cons k ks => exact List.Subset.trans (List.subset_cons_self ..) (ih _ ks)

theorem Selection.Alike.substitute (hc : c.Replaces d x y r s)
    (hr : r.isAggregate = false) (hs : s.isAggregate = false) {t u : Selection}
    (h : Selection.Alike c Γ t u) (hΓ : Context.Replaces c d x y r s Γ Δ) :
    Selection.Alike d Δ (t.substitute ⟨x, r⟩) (u.substitute ⟨y, s⟩) := by
  obtain ⟨p, td, tt⟩ := t
  obtain ⟨q, ud, ut⟩ := u
  refine ⟨?_, h.distinct⟩
  have hv := h.value
  cases p <;> cases q
  · exact .none
  · cases hv
  · cases hv
  · cases hv with
    | some hv =>
      refine .some ⟨hv.1.substitute hc hΓ, ?_⟩
      rw [Scalar.isAggregate_substitute hr, Scalar.isAggregate_substitute hs]
      exact hv.2

end

namespace Layer

variable {l l' b b' : Layer} {L L' : List String}

theorem Alike.outerSelection (h : Layer.Alike c l l') :
    Option.Rel (Selection.Alike c (l.context l')) l.outerSelection l'.outerSelection := by
  unfold Layer.outerSelection
  rcases optionRel_cases h.selection with ⟨h₁, h₂⟩ | ⟨s, t, h₁, h₂, hs⟩
  · rcases optionRel_cases h.joins.getLast? with ⟨hj, hk⟩ | ⟨j, k, hj, hk, hjk⟩
    · rw [h₁, h₂, hj, hk]
      exact .none
    · rw [h₁, h₂, hj, hk]
      exact .some (.ofValue (.ref hjk) rfl)
  · rw [h₁, h₂]
    exact .some hs

section

variable (hl : Layer.Alike (c.reserve L L') l l') (hb : Layer.Alike c b b') (hL : b.names ⊆ L)
  (hL' : b'.names ⊆ L')

include hl hL hL'

theorem Alike.replaces : (c.reserve L L').Replaces c l.name l'.name b.row b'.row where
  leaf a a' h := by
    obtain ⟨ha, ha'⟩ := c.leaf_names a a' h
    exact ⟨h, fun hn => hl.name.left (List.mem_append_left _ (ha hn)),
      fun hn => hl.name.right (List.mem_append_left _ (ha' hn))⟩
  count _ _ h := h
  negation := id
  named := id
  left := List.subset_append_left ..
  right := List.subset_append_left ..
  names_left n hn := List.mem_append_right _ (hL (b.names_row hn))
  names_right n hn := List.mem_append_right _ (hL' (b'.names_row hn))

omit hl in
include hb in
/-- Before its joins the upper layer sees the rows of the lower one; in their place come the names
that the lower one binds. -/
theorem Alike.contextReplaces :
    Context.Replaces (c.reserve L L') c l.name l'.name b.row b'.row [(l.name, l'.name)]
      (b.context b') where
  pair := List.mem_singleton_self _
  agree p hp := by
    obtain rfl := List.mem_singleton.mp hp
    exact ⟨⟨fun _ => rfl, fun _ => rfl⟩, fun h => absurd rfl h⟩
  bound_left p hp := .inl (List.mem_append_right _ (hL (Layer.context_bound hp).1))
  bound_right p hp := .inl (List.mem_append_right _ (hL' (Layer.context_bound hp).2))
  alike := hb.row

/-- The lower layer binds none of the names that the joins of the upper one bind. -/
theorem Alike.apart : Context.Apart (b.context b')
    (joinContext (b.context b') l.joins l'.joins) b.names b'.names := fun p hp =>
  (hl.joins.unreserved _ p hp).imp_right fun ⟨h₁, h₂⟩ =>
    ⟨fun h => h₁ (List.mem_append_right _ (hL h)), fun h => h₂ (List.mem_append_right _ (hL' h))⟩

include hb

theorem Alike.mergedSelection (hagg : b.row.isAggregate = false)
    (hagg' : b'.row.isAggregate = false) :
    Option.Rel (Selection.Alike c (joinContext (b.context b') l.joins l'.joins))
      (l.mergedSelection b) (l'.mergedSelection b') := by
  have hc := hl.replaces hL hL'
  have hctx := (hl.joins.substitute hc (hb.contextReplaces hL hL')).2
  have hsub := joinContext_subset (b.context b') l.joins l'.joins
  have hin : ∀ s t, b.selection = some s → b'.selection = some t →
      Selection.Alike c (b.context b') s t →
        Selection.Alike c (joinContext (b.context b') l.joins l'.joins) s t := fun s t hs ht h =>
    h.weaken hsub ((hl.apart hL hL').mono
      (fun z hz => mem_names.mpr (.inr (.inr (.inr (.inl ⟨s, hs, hz⟩)))))
      fun z hz => mem_names.mpr (.inr (.inr (.inr (.inl ⟨t, ht, hz⟩)))))
  unfold Layer.mergedSelection
  rcases optionRel_cases hl.outerSelection with ⟨ho, ho'⟩ | ⟨u, u', ho, ho', hu⟩
  · rw [ho, ho']
    rcases optionRel_cases hb.selection with ⟨h₁, h₂⟩ | ⟨s, t, h₁, h₂, hs⟩
    · rw [h₁, h₂]
      exact .none
    · rw [h₁, h₂]
      exact .some (hin s t h₁ h₂ hs)
  · have hu' := hu.substitute hc hagg hagg' hctx
    rw [ho, ho']
    rcases optionRel_cases hb.selection with ⟨h₁, h₂⟩ | ⟨s, t, h₁, h₂, hs⟩
    · rw [h₁, h₂]
      exact .some hu'
    · rw [h₁, h₂]
      refine .some ⟨hu'.value, ?_⟩
      show (_ || _) = (_ || _)
      rw [show (u.substitute (l.onto b)).distinct = (u'.substitute (l'.onto b')).distinct from
        hu'.distinct, hs.distinct]

theorem Alike.mergedFilter :
    Option.Rel (Scalar.Alike c (joinContext (b.context b') l.joins l'.joins))
      (l.mergedFilter b) (l'.mergedFilter b') := by
  have hc := hl.replaces hL hL'
  have hctx := (hl.joins.substitute hc (hb.contextReplaces hL hL')).2
  have hsub := joinContext_subset (b.context b') l.joins l'.joins
  have hin : ∀ f g, b.filter = some f → b'.filter = some g →
      Scalar.Alike c (b.context b') f g →
        Scalar.Alike c (joinContext (b.context b') l.joins l'.joins) f g := fun f g hf hg h =>
    h.weaken (.refl c) hsub ((hl.apart hL hL').mono
      (fun z hz => mem_names.mpr (.inr (.inr (.inr (.inr (.inl (hf ▸ hz)))))))
      fun z hz => mem_names.mpr (.inr (.inr (.inr (.inr (.inl (hg ▸ hz)))))))
  unfold Layer.mergedFilter
  rcases optionRel_cases hl.filter with ⟨ho, ho'⟩ | ⟨u, u', ho, ho', hu⟩
  · rcases optionRel_cases hb.filter with ⟨h₁, h₂⟩ | ⟨f, g, h₁, h₂, hf⟩
    · rw [ho, ho', h₁, h₂]
      exact .none
    · rw [ho, ho', h₁, h₂]
      exact .some (hin f g h₁ h₂ hf)
  · have hu' := hu.substitute hc hctx
    rcases optionRel_cases hb.filter with ⟨h₁, h₂⟩ | ⟨f, g, h₁, h₂, hf⟩
    · rw [ho, ho', h₁, h₂]
      exact .some hu'
    · rw [ho, ho', h₁, h₂]
      exact .some (.binary _ (hin f g h₁ h₂ hf) hu')

theorem Alike.mergedOrderBy {ks' : List SortKey} (h : l'.mergedOrderBy b' = .ok ks') :
    ∃ ks, l.mergedOrderBy b = .ok ks ∧
      Scalar.AllAlike c (joinContext (b.context b') l.joins l'.joins) (ks.map (·.value))
        (ks'.map (·.value)) ∧ ks.map (·.descending) = ks'.map (·.descending) := by
  have hc := hl.replaces hL hL'
  have hctx := (hl.joins.substitute hc (hb.contextReplaces hL hL')).2
  have hsub := joinContext_subset (b.context b') l.joins l'.joins
  have hempty : ∀ {ks ks' : List SortKey}, ks.map (·.descending) = ks'.map (·.descending) →
      (ks = [] ↔ ks' = []) := fun {ks ks'} hd => by
    rw [← List.map_eq_nil_iff, hd, List.map_eq_nil_iff]
  unfold Layer.mergedOrderBy at h ⊢
  by_cases hbo : b.orderBy = []
  · have hbo' := (hempty hb.descending).mp hbo
    rw [hbo'] at h
    rw [hbo]
    obtain rfl : l'.orderBy.map (·.substitute (l'.onto b')) = ks' := Except.ok.inj h
    have hkeys := hl.orderBy.substitute hc hctx
    rw [← SortKey.values_substituteAll, ← SortKey.values_substituteAll] at hkeys
    have hmap : ∀ (σ : Substitution) (ks : List SortKey),
        ks.map (·.substitute σ) = SortKey.substituteAll σ ks := fun σ ks => by
      induction ks with
      | nil => rfl
      | cons k ks ih => rw [SortKey.substituteAll, List.map_cons, ih]
    refine ⟨_, rfl, ?_⟩
    rw [hmap, hmap, SortKey.descending_substituteAll, SortKey.descending_substituteAll]
    exact ⟨hkeys, hl.descending⟩
  · have hbo' := fun h => hbo ((hempty hb.descending).mpr h)
    obtain ⟨k, ks, hk⟩ := List.exists_cons_of_ne_nil hbo
    obtain ⟨k', js, hk'⟩ := List.exists_cons_of_ne_nil hbo'
    have hlo' : l'.orderBy = [] := by
      cases hlo : l'.orderBy with
      | nil => rfl
      | cons j' js' =>
        rw [hk', hlo] at h
        cases h
    have hlo := (hempty hl.descending).mpr hlo'
    rw [hk', hlo'] at h
    obtain rfl : k' :: js = ks' := Except.ok.inj h
    rw [hk, hlo]
    refine ⟨_, rfl, ?_⟩
    rw [← hk, ← hk']
    refine ⟨hb.orderBy.weaken (.refl c) hsub ((hl.apart hL hL').mono ?_ ?_), hb.descending⟩
    · rw [Scalar.namesAll_values]
      exact fun z hz => mem_names.mpr (.inr (.inr (.inr (.inr (.inr (.inr hz))))))
    · rw [Scalar.namesAll_values]
      exact fun z hz => mem_names.mpr (.inr (.inr (.inr (.inr (.inr (.inr hz))))))

/-- **Alike layers over alike layers are merged alike**, unless the lower ones select an
aggregate. -/
theorem Alike.merge (hagg : b.row.isAggregate = false) (hagg' : b'.row.isAggregate = false)
    {m' : Layer} (h : l'.merge b' = .ok m') : ∃ m, l.merge b = .ok m ∧ Layer.Alike c m m' := by
  have hc := hl.replaces hL hL'
  obtain ⟨hjoins, hctx⟩ := hl.joins.substitute hc (hb.contextReplaces hL hL')
  obtain ⟨ks', top', offset', limit', hks', htop', hoffset', hlimit', rfl⟩ := merge_eq_ok.mp h
  obtain ⟨ks, hks, hkeys, hdesc⟩ := hl.mergedOrderBy hb hL hL' hks'
  obtain ⟨top, htop, hrtop⟩ := Count.min?_combines.alike hb.top hl.top htop'
  obtain ⟨offset, hoffset, hroffset⟩ := Count.sum?_combines.alike hb.offset hl.offset hoffset'
  obtain ⟨limit, hlimit, hrlimit⟩ := Count.min?_combines.alike hb.limit hl.limit hlimit'
  refine ⟨_, merge_eq_ok.mpr ⟨ks, top, offset, limit, hks, htop, hoffset, hlimit, rfl⟩, ?_⟩
  have hcontext : joinContext [(b.name, b'.name)] (l.mergedJoins b) (l'.mergedJoins b') =
      joinContext (b.context b') l.joins l'.joins := by
    rw [mergedJoins, mergedJoins, hb.joins.joinContext_append]
    exact joinContext_map _ _ _
  refine ⟨hb.name, hb.source, hb.joins.append hjoins, ?_, ?_, ?_, ?_, hdesc, hrtop, hroffset,
    hrlimit⟩
  all_goals
    simp only [Layer.context]
    rw [hcontext]
  · exact hl.mergedSelection hb hL hL' hagg hagg'
  · exact hl.mergedFilter hb hL hL'
  · exact hb.groupBy.weaken (.refl c) (joinContext_subset ..) ((hl.apart hL hL').mono
      (fun z hz => mem_names.mpr (.inr (.inr (.inr (.inr (.inr (.inl hz)))))))
      fun z hz => mem_names.mpr (.inr (.inr (.inr (.inr (.inr (.inl hz)))))))
  · exact hkeys

end

/-! ## Flattening -/

/-- What is asked of a layer that `l` is merged with or reads as a subquery. -/
structure Composable (l below : Layer) : Prop where
  aggregate : below.selection.any (·.hasAggregate) = false
  limited : ((below.hasTop || below.offset.isSome) &&
    (l.filter.isSome || !l.orderBy.isEmpty)) = false
  offset : (below.hasTop && l.offset.isSome) = false

theorem flattenOnto_eq_ok {l below m : Layer} :
    l.flattenOnto below = .ok m ↔ l.Composable below ∧
      if l.needsSubquery below then m = { l with source := .subquery below.toQuery }
      else l.merge below = .ok m := by
  unfold flattenOnto
  cases h₁ : below.selection.any (·.hasAggregate) with
  | true =>
    refine ⟨fun h => (nomatch h), fun h => ?_⟩
    rw [h.1.aggregate] at h₁
    cases h₁
  | false =>
    cases h₂ : ((below.hasTop || below.offset.isSome) &&
        (l.filter.isSome || !l.orderBy.isEmpty)) with
    | true =>
      refine ⟨fun h => (nomatch h), fun h => ?_⟩
      rw [h.1.limited] at h₂
      cases h₂
    | false =>
      cases h₃ : (below.hasTop && l.offset.isSome) with
      | true =>
        refine ⟨fun h => (nomatch h), fun h => ?_⟩
        rw [h.1.offset] at h₃
        cases h₃
      | false =>
        rw [and_iff_right ⟨h₁, h₂, h₃⟩]
        cases l.needsSubquery below with
        | true => exact ⟨fun h => (Except.ok.inj h).symm, fun h => congrArg Except.ok h.symm⟩
        | false => rfl

theorem row_isAggregate {l : Layer} (h : l.selection.any (·.hasAggregate) = false) :
    l.row.isAggregate = false := by
  unfold row
  cases hs : l.selection with
  | none => rfl
  | some s =>
    rw [hs] at h
    simp only [Option.any_some, Selection.hasAggregate] at h
    cases hv : s.value? with
    | none => simp [hv, Scalar.isAggregate]
    | some v => simpa [hv] using h

theorem Alike.hasAggregate (h : Layer.Alike c l l') :
    l.selection.any (·.hasAggregate) = l'.selection.any (·.hasAggregate) := by
  rcases optionRel_cases h.selection with ⟨h₁, h₂⟩ | ⟨s, t, h₁, h₂, hs⟩
  · rw [h₁, h₂]
  · rw [h₁, h₂]
    exact hs.hasAggregate

theorem Alike.hasTop (h : Layer.Alike c l l') : l.hasTop = l'.hasTop := by
  rw [Layer.hasTop, Layer.hasTop, optionRel_isSome h.top, optionRel_isSome h.limit]

theorem Alike.orderBy_isEmpty (h : Layer.Alike c l l') :
    l.orderBy.isEmpty = l'.orderBy.isEmpty := by
  have hd := congrArg List.isEmpty h.descending
  rwa [List.isEmpty_map, List.isEmpty_map] at hd

theorem Alike.hasGroupBy (h : Layer.Alike c l l') : l.hasGroupBy = l'.hasGroupBy := by
  rw [Layer.hasGroupBy, Layer.hasGroupBy, h.groupBy.isEmpty]

theorem Alike.isDistinct (h : Layer.Alike c l l') : l.isDistinct = l'.isDistinct := by
  unfold Layer.isDistinct
  rcases optionRel_cases h.selection with ⟨h₁, h₂⟩ | ⟨s, t, h₁, h₂, hs⟩
  · rw [h₁, h₂]
  · rw [h₁, h₂]
    exact hs.distinct

theorem Alike.joins_isEmpty (h : Layer.Alike c l l') : l.joins.isEmpty = l'.joins.isEmpty :=
  h.joins.isEmpty

theorem Alike.needsSubquery (hl : Layer.Alike c l l') {d : Likeness}
    (hb : Layer.Alike d b b') : l.needsSubquery b = l'.needsSubquery b' := by
  have hpair : ∀ p ∈ l.context l', p.1 = l.name ↔ p.2 = l'.name :=
    hl.joins.pair_iff (List.mem_singleton_self _) fun p hp => by
      obtain rfl := List.mem_singleton.mp hp
      exact ⟨fun _ => rfl, fun _ => rfl⟩
  unfold Layer.needsSubquery
  rw [hl.hasGroupBy, hb.isDistinct, hl.joins_isEmpty]
  rcases optionRel_cases hl.selection with ⟨h₁, h₂⟩ | ⟨s, t, h₁, h₂, hs⟩
  · rw [h₁, h₂]
    rfl
  · rw [h₁, h₂, Option.any_some, Option.any_some, hs.hasAggregate]
    rcases optionRel_cases hs.value with ⟨hv, hw⟩ | ⟨v, w, hv, hw, hvw⟩
    · rw [hv, hw]
      rfl
    · rw [hv, hw, Option.any_some, Option.any_some,
        hvw.1.isRef hl.name.left hl.name.right hpair]

theorem names_toQuery (l : Layer) : l.toQuery.names ⊆ l.names := by
  intro n hn
  rw [Query.mem_names] at hn
  rw [mem_names]
  rcases hn with hn | hn | hn | hn | hn
  · obtain ⟨s, hs, hn⟩ := Source.mem_namesAll.mp hn
    rcases List.mem_cons.mp hs with rfl | hs
    · unfold toSource at hn
      cases hsrc : l.source with
      | container =>
        rw [hsrc] at hn
        exact .inl (List.mem_singleton.mp hn)
      | items path =>
        rw [hsrc] at hn
        exact (List.mem_cons.mp hn).imp_right .inl
      | subquery query =>
        rw [hsrc] at hn
        exact (List.mem_cons.mp hn).imp_right .inl
    · obtain ⟨⟨name, path⟩, hj, rfl⟩ := List.mem_map.mp hs
      exact .inr (.inr (.inl (List.mem_flatMap.mpr ⟨_, hj, hn⟩)))
  · have hrow : ∀ v, l.toQuery.selection.value? = some v → v.names ⊆ l.names := by
      intro v hv
      unfold toQuery at hv
      cases hs : l.selection with
      | none =>
        rw [hs] at hv
        obtain rfl : l.row = v := Option.some.inj hv
        exact l.names_row
      | some s =>
        rw [hs] at hv
        obtain ⟨projection, distinct, top⟩ := s
        cases projection with
        | star => cases hv
        | value w =>
          obtain rfl : w = v := Option.some.inj hv
          exact fun z hz => mem_names.mpr (.inr (.inr (.inr (.inl ⟨_, hs, hz⟩))))
    obtain ⟨v, hv, hn⟩ := Scalar.mem_namesAll.mp hn
    exact mem_names.mp (hrow v (Option.mem_toList.mp hv) hn)
  · have hf : Scalar.namesAll l.filter.toList = Scalar.namesOption l.filter := by
      cases l.filter <;> simp [Scalar.namesAll, Scalar.namesOption]
    exact .inr (.inr (.inr (.inr (.inl (hf ▸ hn)))))
  · exact .inr (.inr (.inr (.inr (.inr (.inl hn)))))
  · rw [show (l.toQuery.orderBy.map (·.value)) = l.orderBy.map (·.value) from rfl,
      Scalar.namesAll_values] at hn
    exact .inr (.inr (.inr (.inr (.inr (.inr hn)))))

/-- The scalars of a layer that merging puts rows into. -/
def clauses (l : Layer) : List Scalar :=
  l.joins.map (·.2) ++ ((l.selection.bind (·.value?)).toList ++
    (l.filter.toList ++ l.orderBy.map (·.value)))

theorem mem_clauses {s : Scalar} : s ∈ l.clauses ↔ (∃ j ∈ l.joins, j.2 = s) ∨
    l.selection.bind (·.value?) = some s ∨ l.filter = some s ∨ ∃ k ∈ l.orderBy, k.value = s := by
  simp [clauses]

theorem names_clauses {s : Scalar} (h : s ∈ l.clauses) : s.names ⊆ l.names := by
  intro n hn
  rw [mem_names]
  rcases mem_clauses.mp h with ⟨j, hj, rfl⟩ | hs | hf | ⟨k, hk, rfl⟩
  · exact .inr (.inr (.inl (List.mem_flatMap.mpr ⟨j, hj, List.mem_cons_of_mem _ hn⟩)))
  · obtain ⟨⟨projection, distinct, top⟩, hsel, hv⟩ := Option.bind_eq_some_iff.mp hs
    refine .inr (.inr (.inr (.inl ⟨_, hsel, ?_⟩)))
    cases projection with
    | star => cases hv
    | value v =>
      obtain rfl : v = s := Option.some.inj hv
      exact hn
  · exact .inr (.inr (.inr (.inr (.inl (hf ▸ hn)))))
  · exact .inr (.inr (.inr (.inr (.inr (.inr (SortKey.mem_namesAll.mpr ⟨k, hk, hn⟩))))))

section

/-! What holds of all names of the lower layer, of those of the joins and of those of the clauses
with the rows in them, holds of all names of the merged layer. -/

variable {P : String → Prop} (hb : ∀ n ∈ b.names, P n) (hj : ∀ j ∈ l.joins, P j.1)
  (hl : ∀ s ∈ l.clauses, ∀ n ∈ (s.substitute (l.onto b)).names, P n)

include hb hl

include hj in
theorem names_outerSelection {s : Selection} (h : l.outerSelection = some s) {n : String}
    (hn : n ∈ (s.substitute (l.onto b)).names) : P n := by
  unfold outerSelection at h
  split at h
  · rename_i name path hs hlast
    obtain rfl := Option.some.inj h
    rcases (Scalar.ref name).mem_names_substitute hn with hn | hn
    · obtain rfl := List.mem_singleton.mp hn
      exact hj _ (List.mem_of_getLast? hlast)
    · exact hb n (b.names_row hn)
  · obtain ⟨projection, distinct, top⟩ := s
    cases projection with
    | star => cases hn
    | value v => exact hl v (mem_clauses.mpr (.inr (.inl (by rw [h]; rfl)))) n hn

include hj in
theorem names_mergedSelection {s : Selection} (h : l.mergedSelection b = some s) {n : String}
    (hn : n ∈ s.names) : P n := by
  unfold mergedSelection at h
  cases ho : l.outerSelection with
  | none =>
    rw [ho] at h
    have hs : b.selection = some s := by
      cases hb : b.selection <;> simp_all
    exact hb n (mem_names.mpr (.inr (.inr (.inr (.inl ⟨s, hs, hn⟩)))))
  | some t =>
    rw [ho] at h
    cases hsel : b.selection with
    | none =>
      rw [hsel] at h
      obtain rfl := Option.some.inj h
      exact names_outerSelection hb hj hl ho hn
    | some u =>
      rw [hsel] at h
      obtain rfl := Option.some.inj h
      obtain ⟨projection, distinct, top⟩ := t
      exact names_outerSelection hb hj hl ho hn

theorem names_mergedFilter {n : String} (hn : n ∈ Scalar.namesOption (l.mergedFilter b)) :
    P n := by
  have hin : ∀ f, b.filter = some f → n ∈ f.names → P n := fun f hf hn =>
    hb n (mem_names.mpr (.inr (.inr (.inr (.inr (.inl (hf ▸ hn)))))))
  have hout : ∀ f, l.filter = some f → n ∈ (f.substitute (l.onto b)).names → P n := fun f hf hn =>
    hl f (mem_clauses.mpr (.inr (.inr (.inl hf)))) n hn
  unfold mergedFilter at hn
  cases hb : b.filter with
  | none =>
    cases hl : l.filter with
    | none =>
      rw [hb, hl] at hn
      cases hn
    | some f =>
      rw [hb, hl] at hn
      exact hout f hl hn
  | some g =>
    cases hl : l.filter with
    | none =>
      rw [hb, hl] at hn
      exact hin g hb hn
    | some f =>
      rw [hb, hl] at hn
      rcases List.mem_append.mp hn with hn | hn
      · exact hin g hb hn
      · exact hout f hl hn

theorem names_mergedOrderBy {n : String} {ks : List SortKey} (h : l.mergedOrderBy b = .ok ks)
    (hn : n ∈ SortKey.namesAll ks) : P n := by
  obtain ⟨k, hk, hkn⟩ := SortKey.mem_namesAll.mp hn
  unfold mergedOrderBy at h
  split at h
  · cases h
  · obtain rfl := Except.ok.inj h
    obtain ⟨⟨value, descending⟩, hmem, rfl⟩ := List.mem_map.mp hk
    exact hl value (mem_clauses.mpr (.inr (.inr (.inr ⟨_, hmem, rfl⟩)))) n hkn
  · obtain rfl := Except.ok.inj h
    exact hb n (mem_names.mpr (.inr (.inr (.inr (.inr (.inr (.inr
      (SortKey.mem_namesAll.mpr ⟨k, hk, hkn⟩))))))))

include hj in
theorem names_of_merge {m : Layer} (h : l.merge b = .ok m) : ∀ n ∈ m.names, P n := by
  obtain ⟨ks, top, offset, limit, hks, -, -, -, rfl⟩ := merge_eq_ok.mp h
  intro n hn
  rcases mem_names.mp hn with rfl | hn | hn | hn | hn | hn | hn
  · exact hb _ b.name_mem_names
  · exact hb n (mem_names.mpr (.inr (.inl hn)))
  · rw [mergedJoins, joinNames, List.flatMap_append, List.mem_append] at hn
    rcases hn with hn | hn
    · exact hb n (mem_names.mpr (.inr (.inr (.inl hn))))
    · obtain ⟨_, hmap, hn⟩ := List.mem_flatMap.mp hn
      obtain ⟨⟨name, path⟩, hmem, rfl⟩ := List.mem_map.mp hmap
      rcases List.mem_cons.mp hn with rfl | hn
      · exact hj _ hmem
      · exact hl path (mem_clauses.mpr (.inl ⟨_, hmem, rfl⟩)) n hn
  · obtain ⟨s, hs, hn⟩ := hn
    exact names_mergedSelection hb hj hl hs hn
  · exact names_mergedFilter hb hl hn
  · exact hb n (mem_names.mpr (.inr (.inr (.inr (.inr (.inr (.inl hn)))))))
  · exact names_mergedOrderBy hb hl hks hn

end

/-- Merging brings in no names. -/
theorem names_merge {m : Layer} (h : l.merge b = .ok m) : m.names ⊆ l.names ++ b.names := by
  refine names_of_merge (fun n hn => List.mem_append_right _ hn) (fun j hj => ?_)
    (fun s hs n hn => ?_) h
  · exact List.mem_append_left _ (mem_names.mpr (.inr (.inr (.inl
      (List.mem_flatMap.mpr ⟨j, hj, List.mem_cons_self⟩)))))
  · rcases s.mem_names_substitute hn with hn | hn
    · exact List.mem_append_left _ (names_clauses hs hn)
    · exact List.mem_append_right _ (b.names_row hn)

theorem names_flattenOnto {m : Layer} (h : l.flattenOnto b = .ok m) :
    m.names ⊆ l.names ++ b.names := by
  obtain ⟨-, hm⟩ := flattenOnto_eq_ok.mp h
  split at hm
  · subst hm
    intro n hn
    rw [List.mem_append]
    rw [mem_names] at hn ⊢
    rcases hn with hn | hn | hn
    · exact .inl (.inl hn)
    · exact .inr (b.names_toQuery hn)
    · exact .inl (.inr (.inr hn))
  · exact names_merge hm

/-- **Alike layers over alike layers are flattened alike.** -/
theorem Alike.flattenOnto (hl : Layer.Alike (c.reserve L L') l l') (hb : Layer.Alike c b b')
    (hL : b.names ⊆ L) (hL' : b'.names ⊆ L') {m' : Layer} (h : l'.flattenOnto b' = .ok m') :
    ∃ m, l.flattenOnto b = .ok m ∧ Layer.Alike c m m' := by
  obtain ⟨hcomp, hm'⟩ := flattenOnto_eq_ok.mp h
  have hcomp' : l.Composable b :=
    ⟨hb.hasAggregate ▸ hcomp.aggregate, by
      rw [hb.hasTop, optionRel_isSome hb.offset, optionRel_isSome hl.filter, hl.orderBy_isEmpty]
      exact hcomp.limited, by
      rw [hb.hasTop, optionRel_isSome hl.offset]
      exact hcomp.offset⟩
  rw [← hl.needsSubquery hb] at hm'
  split at hm'
  · rename_i hs
    subst hm'
    refine ⟨_, flattenOnto_eq_ok.mpr ⟨hcomp', by rw [if_pos hs]⟩, ?_⟩
    exact { hl.mono (c.reserve_le L L') with source := .subquery hb.toQuery }
  · rename_i hs
    obtain ⟨m, hm, hmm'⟩ := hl.merge hb hL hL' (row_isAggregate hcomp'.aggregate)
      (row_isAggregate hcomp.aggregate) hm'
    exact ⟨m, flattenOnto_eq_ok.mpr ⟨hcomp', by rw [if_neg hs, hm]⟩, hmm'⟩

theorem names_flattenAll {ls : List Layer} {m : Layer} (h : l.flattenAll ls = .ok m) :
    m.names ⊆ l.names ++ allNames ls := by
  induction ls generalizing l m with
  | nil =>
    obtain rfl := Except.ok.inj h
    exact List.subset_append_left ..
  | cons b ls ih =>
    obtain ⟨below, hbelow, h⟩ := bind_eq_ok.mp h
    intro n hn
    rcases List.mem_append.mp (names_flattenOnto h hn) with hn | hn
    · exact List.mem_append_left _ hn
    · exact List.mem_append_right _ (ih hbelow hn)

/-- Alike layers over alike layers are flattened alike. -/
theorem AllAlike.flattenAll {ls ls' : List Layer} (h : Layer.AllAlike c (l :: ls) (l' :: ls'))
    {m' : Layer} (hm : l'.flattenAll ls' = .ok m') :
    ∃ m, l.flattenAll ls = .ok m ∧ Layer.Alike c m m' := by
  induction ls generalizing l l' ls' m' with
  | nil =>
    cases h with
    | cons h hs =>
      cases hs
      obtain rfl := Except.ok.inj hm
      exact ⟨l, rfl, h.mono (c.reserve_le _ _)⟩
  | cons b ls ih =>
    cases h with
    | cons h hs =>
      cases ls' with
      | nil => cases hs
      | cons b' ls' =>
        obtain ⟨below', hbelow', hm⟩ := bind_eq_ok.mp hm
        obtain ⟨below, hbelow, hb⟩ := ih hs hbelow'
        obtain ⟨m, hm, halike⟩ := h.flattenOnto hb (names_flattenAll hbelow)
          (names_flattenAll hbelow') hm
        exact ⟨m, bind_eq_ok.mpr ⟨below, hbelow, hm⟩, halike⟩

end Layer

/-- **Alike stages have alike queries.** -/
theorem Stage.Alike.toQuery {s s' : Stage} (h : Stage.Alike c s s') {q' : Query}
    (hq : s'.toQuery = .ok q') : ∃ q, s.toQuery = .ok q ∧ Query.Alike c [] q q' := by
  obtain ⟨l', hl', hq⟩ := bind_eq_ok.mp hq
  obtain ⟨l, hl, halike⟩ := Layer.AllAlike.flattenAll h hl'
  obtain rfl := Except.ok.inj hq
  exact ⟨_, bind_eq_ok.mpr ⟨l, hl, rfl⟩, halike.toQuery⟩

/-- Compiling a stage brings in no names. -/
theorem Stage.names_toQuery {s : Stage} {q : Query} (h : s.toQuery = .ok q) :
    q.names ⊆ Layer.allNames s.layers := by
  obtain ⟨l, hl, hq⟩ := bind_eq_ok.mp h
  obtain rfl := Except.ok.inj hq
  exact List.Subset.trans l.names_toQuery (Layer.names_flattenAll hl)

end LambdaQuery
