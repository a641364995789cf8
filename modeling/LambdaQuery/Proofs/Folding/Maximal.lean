import LambdaQuery.Proofs.Folding.Foldable
import Mathlib

/-!
# What folding asks for

A part of an expression is named by its position: the numbers of the children that lead to it. An
expression is foldable if none of its nodes is live (`Expr.Foldable`). The first pass of folding
marks these parts (`Expr.marked_foldable`). Folding asks for the largest of them that are no
constants, each one once and from left to right, puts constants of their types in their places, and
leaves all else as it was (`Expr.fold_asks_maximal`). That holds in any monad; for an evaluator that
may fail it means that folding ends with the first error.
-/

set_option autoImplicit false

namespace LambdaQuery

/-- The marks at a position. -/
def Nomination.at? : Nomination → List Nat → Option Nomination
  | mark, [] => some mark
  | mark, i :: p => mark.children[i]?.bind fun child => child.at? p

namespace Expr

/-! ## Positions -/

/-- The part of an expression at a position. -/
def at? : Expr → List Nat → Option Expr
  | e, [] => some e
  | e, i :: p => e.children[i]?.bind fun d => d.at? p

/-- The node is another one with other parts; a node without parts is the other one. -/
def SameNode (e e' : Expr) : Prop :=
  e'.children.length = e.children.length ∧ e' = e.rebuild e'.children

/-- Whether a node keeps its expression from being evaluated on the host: a parameter, a lambda, a
quote, an object initialiser, a call of the query surface, or a query that is no constant. -/
def IsLive (e : Expr) : Prop :=
  e.kind ∈ [.parameter, .lambda, .unary .quote, .memberInit] ∨
  (∃ target declaring name args ty, e = .call target ⟨declaring, name⟩ args ty ∧
    declaring ∈ [.queryable, .userFunction, .queryEscape, .typeCheck]) ∨
  e.kind ≠ .constant ∧ ∃ element, e.ty = .documentQuery element

/-- No node of the expression is live. -/
def Foldable (e : Expr) : Prop := ∀ p d, e.at? p = some d → ¬ d.IsLive

/-- At the position is a foldable part that is no constant, and around it is no foldable part. -/
def IsMaximal (e : Expr) (p : List Nat) : Prop :=
  (∃ d, e.at? p = some d ∧ d.Foldable ∧ d.kind ≠ .constant) ∧
    ∀ q, q <+: p → q ≠ p → ∀ c, e.at? q = some c → ¬ c.Foldable

theorem isLocal_iff (e : Expr) : e.isLocal ↔ ¬ e.IsLive := by
  have hquery : ∀ ty : HostType, ty.isDocumentQuery ↔ ∃ element, ty = .documentQuery element := by
    intro ty
    cases ty <;> simp [HostType.isDocumentQuery]
  cases e with
  | unary op operand ty => cases op <;> simp [isLocal, IsLive, kind, ← hquery, Expr.ty]
  | call target method args ty =>
    obtain ⟨declaring, name⟩ := method
    cases declaring <;> simp [isLocal, IsLive, kind, ← hquery, Expr.ty, Declaring.isQuerySurface]
  | _ => simp [isLocal, IsLive, kind, ← hquery, Expr.ty]

theorem foldable_iff (e : Expr) :
    e.Foldable ↔ (∀ d ∈ e.children, d.Foldable) ∧ ¬ e.IsLive := by
  constructor
  · refine fun h => ⟨fun d hd p c hc => ?_, h [] e rfl⟩
    obtain ⟨i, hi⟩ := List.mem_iff_getElem?.mp hd
    exact h (i :: p) c (by simp [at?, hi, hc])
  · rintro ⟨hparts, hnode⟩ p d hp
    cases p with
    | nil =>
      obtain rfl : e = d := by simpa [at?] using hp
      exact hnode
    | cons i p =>
      obtain ⟨c, hc, hd⟩ := Option.bind_eq_some_iff.mp hp
      exact hparts c (List.mem_of_getElem? hc) p d hd

theorem isFoldable_iff (e : Expr) : e.isFoldable ↔ e.Foldable := by
  rw [isFoldable_eq, Bool.and_eq_true, List.all_eq_true, isLocal_iff, foldable_iff]
  exact and_congr_left' (forall₂_congr fun d hd => isFoldable_iff d)
termination_by sizeOf e
decreasing_by exact sizeOf_child hd

/-- At the position of a part are its marks, and where there is no part there are no marks. -/
theorem nominate_at? (e : Expr) (p : List Nat) : e.nominate.at? p = (e.at? p).map nominate := by
  induction p generalizing e with
  | nil => rfl
  | cons i p ih =>
    rw [Nomination.at?, at?, getElem?_nominate, Option.bind_map, Option.map_bind]
    exact congrArg _ (funext ih)

/-- The first pass marks the foldable parts. -/
theorem marked_foldable (e : Expr) (p : List Nat) :
    Option.Rel (fun d mark => mark.candidate ↔ d.Foldable) (e.at? p) (e.nominate.at? p) := by
  rw [nominate_at?]
  cases e.at? p with
  | none => exact .none
  | some d => exact .some (isFoldable_iff d)

/-! ## The positions of the largest foldable parts -/

/-- Positions in the items of a list, of which the first has the number `i`. -/
def numbered (i : Nat) : List (List (List Nat)) → List (List Nat)
  | [] => []
  | ps :: pss => ps.map (i :: ·) ++ numbered (i + 1) pss

/-- The positions of the largest foldable parts that are no constants, from left to right. -/
def foldPositions (e : Expr) : List (List Nat) :=
  if e.kind = .constant then []
  else if e.isFoldable then [[]]
  else numbered 0 (e.children.attach.map fun d => d.1.foldPositions)
termination_by sizeOf e
decreasing_by exact sizeOf_child d.2

/-- The parts that folding asks for. -/
def asked (e : Expr) : List Expr := e.foldPositions.filterMap e.at?

variable {e : Expr}

theorem foldPositions_constant (h : e.kind = .constant) : e.foldPositions = [] := by
  rw [foldPositions, if_pos h]

theorem foldPositions_foldable (h : e.kind ≠ .constant) (hf : e.isFoldable) :
    e.foldPositions = [[]] := by
  rw [foldPositions, if_neg h, if_pos hf]

theorem foldPositions_parts (hf : e.isFoldable = false) :
    e.foldPositions = numbered 0 (e.children.map foldPositions) := by
  have h : e.kind ≠ .constant := fun h => by simp [isFoldable_of_constant h] at hf
  rw [foldPositions, if_neg h, if_neg (by simp [hf])]
  simp

theorem mem_numbered {i : Nat} {pss : List (List (List Nat))} {p : List Nat} :
    p ∈ numbered i pss ↔ ∃ j q ps, p = (i + j) :: q ∧ pss[j]? = some ps ∧ q ∈ ps := by
  induction pss generalizing i with
  | nil => simp [numbered]
  | cons ps pss ih =>
    simp only [numbered, List.mem_append, List.mem_map, ih]
    constructor
    · rintro (⟨q, hq, rfl⟩ | ⟨j, q, ps', rfl, hps, hq⟩)
      · exact ⟨0, q, ps, rfl, rfl, hq⟩
      · exact ⟨j + 1, q, ps', by rw [Nat.add_right_comm, Nat.add_assoc], hps, hq⟩
    · rintro ⟨j, q, ps', rfl, hps, hq⟩
      cases j with
      | zero =>
        obtain rfl : ps = ps' := by simpa using hps
        exact .inl ⟨q, hq, rfl⟩
      | succ j => exact .inr ⟨j, q, ps', by rw [Nat.add_right_comm, Nat.add_assoc], hps, hq⟩

theorem pairwise_numbered {i : Nat} {pss : List (List (List Nat))}
    (h : ∀ ps ∈ pss, ps.Pairwise (· < ·)) : (numbered i pss).Pairwise (· < ·) := by
  induction pss generalizing i with
  | nil => exact .nil
  | cons ps pss ih =>
    rw [List.forall_mem_cons] at h
    refine List.pairwise_append.mpr ⟨?_, ih h.2, ?_⟩
    · exact h.1.map _ fun p q hpq => List.cons_lt_cons_iff.mpr (.inr ⟨rfl, hpq⟩)
    · intro p hp q hq
      obtain ⟨p, -, rfl⟩ := List.mem_map.mp hp
      obtain ⟨j, q, -, rfl, -, -⟩ := mem_numbered.mp hq
      exact List.cons_lt_cons_iff.mpr (.inl (by omega))

theorem pairwise_foldPositions (e : Expr) : e.foldPositions.Pairwise (· < ·) := by
  rw [foldPositions]
  split
  · exact .nil
  split
  · exact List.pairwise_singleton _ _
  · refine pairwise_numbered fun ps hps => ?_
    obtain ⟨⟨d, hd⟩, -, rfl⟩ := List.mem_map.mp hps
    exact pairwise_foldPositions d
termination_by sizeOf e
decreasing_by exact sizeOf_child hd

theorem isMaximal_cons (hf : ¬ e.Foldable) (i : Nat) (p : List Nat) :
    e.IsMaximal (i :: p) ↔ ∃ d, e.children[i]? = some d ∧ d.IsMaximal p := by
  constructor
  · rintro ⟨⟨c, hc, hcf⟩, hmax⟩
    obtain ⟨d, hd, hc⟩ := Option.bind_eq_some_iff.mp hc
    refine ⟨d, hd, ⟨c, hc, hcf⟩, fun q hq hne b hb => ?_⟩
    refine hmax (i :: q) (List.cons_prefix_cons.mpr ⟨rfl, hq⟩) (by simpa using hne) b ?_
    simp [at?, hd, hb]
  · rintro ⟨d, hd, ⟨c, hc, hcf⟩, hmax⟩
    refine ⟨⟨c, by simp [at?, hd, hc], hcf⟩, fun q hq hne b hb => ?_⟩
    cases q with
    | nil =>
      obtain rfl : e = b := by simpa [at?] using hb
      exact hf
    | cons j q =>
      obtain ⟨rfl, hq'⟩ := List.cons_prefix_cons.mp hq
      obtain ⟨d', hd', hb⟩ := Option.bind_eq_some_iff.mp hb
      obtain rfl : d = d' := by simpa [hd] using hd'
      exact hmax q hq' (by simpa using hne) b hb

theorem mem_foldPositions (e : Expr) (p : List Nat) : p ∈ e.foldPositions ↔ e.IsMaximal p := by
  cases hf : e.isFoldable with
  | true =>
    have hfold := (isFoldable_iff e).mp hf
    -- nothing lies below a foldable expression
    have hroot : e.IsMaximal p ↔ p = [] ∧ e.kind ≠ .constant := by
      constructor
      · rintro ⟨⟨d, hd, -, hc⟩, hmax⟩
        obtain rfl : p = [] := by
          by_contra hne
          exact hmax [] List.nil_prefix (Ne.symm hne) e rfl hfold
        obtain rfl : e = d := by simpa [at?] using hd
        exact ⟨rfl, hc⟩
      · rintro ⟨rfl, hc⟩
        exact ⟨⟨e, rfl, hfold, hc⟩, fun q hq hne => absurd (List.prefix_nil.mp hq) hne⟩
    rw [hroot]
    by_cases hc : e.kind = .constant
    · simp [foldPositions_constant hc, hc]
    · simp [foldPositions_foldable hc hf, hc]
  | false =>
    have hfold : ¬ e.Foldable := by simp [← isFoldable_iff, hf]
    rw [foldPositions_parts hf, mem_numbered]
    cases p with
    | nil =>
      refine iff_of_false (by simp) ?_
      rintro ⟨⟨d, hd, hdf, -⟩, -⟩
      obtain rfl : e = d := by simpa [at?] using hd
      exact hfold hdf
    | cons i p =>
      rw [isMaximal_cons hfold]
      constructor
      · rintro ⟨j, q, ps, hp, hps, hq⟩
        obtain ⟨rfl, rfl⟩ : i = j ∧ p = q := by simpa using hp
        obtain ⟨d, hd, rfl⟩ := Option.map_eq_some_iff.mp (List.getElem?_map .. ▸ hps)
        exact ⟨d, hd, (mem_foldPositions d p).mp hq⟩
      · rintro ⟨d, hd, hp⟩
        exact ⟨i, p, d.foldPositions, by simp, by simp [hd], (mem_foldPositions d p).mpr hp⟩
termination_by sizeOf e
decreasing_by all_goals exact sizeOf_child (List.mem_of_getElem? hd)

/-! ## The questions -/

theorem asked_constant (h : e.kind = .constant) : e.asked = [] := by
  simp [asked, foldPositions_constant h]

theorem asked_foldable (h : e.kind ≠ .constant) (hf : e.isFoldable) : e.asked = [e] := by
  simp [asked, foldPositions_foldable h hf, at?]

theorem filterMap_numbered (e : Expr) (i : Nat) (ds : List Expr) (h : e.children.drop i = ds) :
    (numbered i (ds.map foldPositions)).filterMap e.at? = ds.flatMap asked := by
  induction ds generalizing i with
  | nil => rfl
  | cons d ds ih =>
    have hd : e.children[i]? = some d := by
      rw [← List.head?_drop, h, List.head?_cons]
    have hds : e.children.drop (i + 1) = ds := by
      rw [← List.tail_drop, h, List.tail_cons]
    simp only [List.map_cons, numbered, List.filterMap_append, List.filterMap_map, ih (i + 1) hds,
      List.flatMap_cons]
    congr 1
    exact List.filterMap_congr fun p _ => by simp [at?, hd]

theorem asked_parts (hf : e.isFoldable = false) : e.asked = e.children.flatMap asked := by
  rw [asked, foldPositions_parts hf, filterMap_numbered e 0 _ (List.drop_zero ..)]

theorem length_asked (e : Expr) : e.asked.length = e.foldPositions.length := by
  refine List.filterMap_length_eq_length.mpr fun p hp => ?_
  obtain ⟨⟨d, hd, -⟩, -⟩ := (mem_foldPositions e p).mp hp
  exact hd ▸ rfl

/-! ## The answers -/

/-- `e'` is `e` with constants at the positions `ps`: they hold the values `vs` and have the types
of what they replace. Beside them every node is what it was. -/
structure Replaced (e : Expr) (ps : List (List Nat)) (vs : List Value) (e' : Expr) : Prop where
  answered : ∀ p v, (p, v) ∈ ps.zip vs → ∃ d, e.at? p = some d ∧ e'.at? p = some (.constant v d.ty)
  kept : ∀ p, (∀ q ∈ ps, ¬ q <+: p) → Option.Rel SameNode (e.at? p) (e'.at? p)

/-- The parts of a list, each with constants for its own share of the values. -/
inductive AllReplaced : List Expr → List Value → List Expr → Prop
  | nil : AllReplaced [] [] []
  | cons {d d' : Expr} {ds ds' : List Expr} {vs vs' : List Value} :
    vs.length = d.foldPositions.length → d.Replaced d.foldPositions vs d' →
    AllReplaced ds vs' ds' → AllReplaced (d :: ds) (vs ++ vs') (d' :: ds')

variable {ds ds' : List Expr} {vs : List Value}

theorem AllReplaced.length_eq (h : AllReplaced ds vs ds') : ds'.length = ds.length := by
  induction h with
  | nil => rfl
  | cons _ _ _ ih => simp [ih]

theorem AllReplaced.get? (h : AllReplaced ds vs ds') {j : Nat} {d : Expr} (hd : ds[j]? = some d) :
    ∃ d' us, ds'[j]? = some d' ∧ d.Replaced d.foldPositions us d' := by
  induction h generalizing j with
  | nil => simp at hd
  | @cons c c' _ _ us _ _ hc _ ih =>
    cases j with
    | zero =>
      obtain rfl : c = d := by simpa using hd
      exact ⟨c', us, rfl, hc⟩
    | succ j => exact ih hd

theorem AllReplaced.answered (h : AllReplaced ds vs ds') {i : Nat} {p : List Nat} {v : Value}
    (hp : (p, v) ∈ (numbered i (ds.map foldPositions)).zip vs) :
    ∃ j q d d' c, p = (i + j) :: q ∧ ds[j]? = some d ∧ ds'[j]? = some d' ∧
      d.at? q = some c ∧ d'.at? q = some (.constant v c.ty) := by
  induction h generalizing i with
  | nil => simp at hp
  | @cons d d' ds ds' us vs' hlen hd _ ih =>
    rw [List.map_cons, numbered, List.zip_append (by simp [hlen]), List.mem_append] at hp
    rcases hp with hp | hp
    · rw [List.zip_map_left, List.mem_map] at hp
      obtain ⟨⟨q, w⟩, hq, hqv⟩ := hp
      obtain ⟨rfl, rfl⟩ : i :: q = p ∧ w = v := by simpa using hqv
      obtain ⟨c, hc, hc'⟩ := hd.answered q w hq
      exact ⟨0, q, d, d', c, rfl, rfl, rfl, hc, hc'⟩
    · obtain ⟨j, q, b, b', c, rfl, hb, hb', hc, hc'⟩ := ih hp
      exact ⟨j + 1, q, b, b', c, by rw [Nat.add_right_comm, Nat.add_assoc], hb, hb', hc, hc'⟩

/-- Constants in the parts of a node that is not foldable are constants in the node. -/
theorem AllReplaced.rebuild (h : AllReplaced e.children vs ds) (hf : e.isFoldable = false) :
    e.Replaced e.foldPositions vs (e.rebuild ds) where
  answered p v hp := by
    rw [foldPositions_parts hf] at hp
    obtain ⟨j, q, d, d', c, rfl, hd, hd', hc, hc'⟩ := h.answered hp
    refine ⟨c, ?_, ?_⟩
    · simp [at?, hd, hc]
    · simp [at?, children_rebuild h.length_eq, hd', hc']
  kept p hp := by
    have hchildren := children_rebuild h.length_eq
    cases p with
    | nil => exact .some ⟨by rw [hchildren, h.length_eq], by rw [hchildren]⟩
    | cons i p =>
      simp only [at?, hchildren]
      cases hd : e.children[i]? with
      | none =>
        have : ds[i]? = none := by
          rw [List.getElem?_eq_none_iff] at hd ⊢
          rwa [h.length_eq]
        rw [this]
        exact .none
      | some d =>
        obtain ⟨d', us, hd', hrep⟩ := h.get? hd
        rw [hd']
        refine hrep.kept p fun q hq hqp => hp (i :: q) ?_ (List.cons_prefix_cons.mpr ⟨rfl, hqp⟩)
        rw [foldPositions_parts hf, mem_numbered]
        exact ⟨i, q, d.foldPositions, by simp, by simp [hd], hq⟩

theorem SameNode.refl (e : Expr) : e.SameNode e := ⟨rfl, (rebuild_children e).symm⟩

theorem Replaced.refl (e : Expr) : e.Replaced [] [] e where
  answered p v hp := by simp at hp
  kept p _ := by
    cases e.at? p with
    | none => exact .none
    | some d => exact .some (.refl d)

theorem Replaced.root (e : Expr) (v : Value) : e.Replaced [[]] [v] (.constant v e.ty) where
  answered p w hp := by
    obtain ⟨rfl, rfl⟩ : p = [] ∧ w = v := by simpa using hp
    exact ⟨e, rfl, rfl⟩
  kept p hp := absurd List.nil_prefix (hp [] (List.mem_singleton.mpr rfl))

/-- Folding an expression by a monad's answers: the questions, and what the answers make. -/
def FoldsTo (e : Expr) (fill : List Value → Expr) : Prop :=
  (∀ vs, vs.length = e.foldPositions.length → e.Replaced e.foldPositions vs (fill vs)) ∧
    ∀ {m : Type → Type} [Monad m] [LawfulMonad m] (ask : Expr → m Value),
      e.fold ask = fill <$> e.asked.mapM ask

/-- Expressions that are folded one after the other share the list of answers. -/
theorem exists_foldsTo_all (ds : List Expr) (h : ∀ d ∈ ds, ∃ fill, FoldsTo d fill) :
    ∃ fill : List Value → List Expr,
      (∀ vs, vs.length = (ds.flatMap asked).length → AllReplaced ds vs (fill vs)) ∧
      ∀ {m : Type → Type} [Monad m] [LawfulMonad m] (ask : Expr → m Value),
        ds.mapM (·.fold ask) = fill <$> (ds.flatMap asked).mapM ask := by
  induction ds with
  | nil =>
    refine ⟨fun _ => [], fun vs hvs => ?_, fun ask => by simp⟩
    obtain rfl := List.eq_nil_of_length_eq_zero hvs
    exact .nil
  | cons d ds ih =>
    rw [List.forall_mem_cons] at h
    obtain ⟨fill, hfill, hfold⟩ := h.1
    obtain ⟨fillAll, hfillAll, hfoldAll⟩ := ih h.2
    refine ⟨fun vs => fill (vs.take d.asked.length) :: fillAll (vs.drop d.asked.length), ?_, ?_⟩
    · intro vs hvs
      rw [List.flatMap_cons, List.length_append] at hvs
      have htake : (vs.take d.asked.length).length = d.foldPositions.length := by
        rw [List.length_take, ← length_asked]
        omega
      have := AllReplaced.cons htake (hfill _ htake)
        (hfillAll (vs.drop d.asked.length) (by rw [List.length_drop]; omega))
      rwa [List.take_append_drop] at this
    · intro m _ _ ask
      simp only [List.mapM_cons, List.flatMap_cons, hfold, hfoldAll, List.mapM_append, map_bind,
        map_pure, bind_map_left]
      -- the first answers are those for `d`, as many as there are questions
      refine mapM_bind_congr fun us hus => ?_
      refine mapM_bind_congr fun us' _ => ?_
      simp [← hus]

theorem exists_foldsTo (e : Expr) : ∃ fill, FoldsTo e fill := by
  by_cases hc : e.kind = .constant
  · refine ⟨fun _ => e, fun vs hvs => ?_, fun ask => ?_⟩
    · rw [foldPositions_constant hc] at hvs ⊢
      obtain rfl := List.eq_nil_of_length_eq_zero hvs
      exact .refl e
    · simp [fold_constant _ hc, asked_constant hc]
  cases hf : e.isFoldable with
  | true =>
    refine ⟨fun vs => .constant (vs.headD .null) e.ty, fun vs hvs => ?_, fun ask => ?_⟩
    · rw [foldPositions_foldable hc hf] at hvs ⊢
      obtain ⟨v, rfl⟩ := List.length_eq_one_iff.mp hvs
      exact .root e v
    · simp [fold_foldable _ hc hf, asked_foldable hc hf]
  | false =>
    obtain ⟨fill, hfill, hfold⟩ := exists_foldsTo_all e.children fun d hd => exists_foldsTo d
    refine ⟨fun vs => e.rebuild (fill vs), fun vs hvs => ?_, fun ask => ?_⟩
    · rw [← length_asked, asked_parts hf] at hvs
      exact (hfill vs hvs).rebuild hf
    · rw [fold_parts _ hf, asked_parts hf, hfold, Functor.map_map]
termination_by sizeOf e
decreasing_by exact sizeOf_child hd

/-! ## Evaluators that may fail -/

/-- Answers as an evaluator does, and records the questions. -/
def recorded (ask : Evaluator) (d : Expr) : ExceptT HostError (StateM (List Expr)) Value :=
  fun log => (ask d, log ++ [d])

theorem map_run {α β : Type} (f : α → β) (act : ExceptT HostError (StateM (List Expr)) α)
    (log : List Expr) : (f <$> act).run log = ((act.run log).1.map f, (act.run log).2) := by
  rw [ExceptT.run_map]
  rfl

theorem mapM_recorded_of_ok {ask : Evaluator} {d : Expr} {v : Value} (h : ask d = .ok v)
    (ds log : List Expr) :
    ((d :: ds).mapM (recorded ask)).run log =
      ((v :: ·) <$> ds.mapM (recorded ask)).run (log ++ [d]) := by
  rw [List.mapM_cons]
  simp [recorded, h, ExceptT.run, bind, ExceptT.bind, ExceptT.mk, StateT.bind, ExceptT.bindCont,
    Functor.map, ExceptT.map, pure, ExceptT.pure]

theorem mapM_recorded_of_error {ask : Evaluator} {d : Expr} {error : HostError}
    (h : ask d = .error error) (ds log : List Expr) :
    ((d :: ds).mapM (recorded ask)).run log = (.error error, log ++ [d]) := by
  rw [List.mapM_cons]
  simp [recorded, h, ExceptT.run, bind, ExceptT.bind, ExceptT.mk, StateT.bind, ExceptT.bindCont,
    pure, StateT.pure]

theorem mapM_recorded_ok {ask : Evaluator} {ds : List Expr} {vs : List Value}
    (h : ds.map ask = vs.map .ok) (log : List Expr) :
    (ds.mapM (recorded ask)).run log = (.ok vs, log ++ ds) := by
  induction ds generalizing vs log with
  | nil =>
    obtain rfl : vs = [] := by simpa using h.symm
    simp
    rfl
  | cons d ds ih =>
    cases vs with
    | nil => simp at h
    | cons v vs =>
      rw [List.map_cons, List.map_cons, List.cons.injEq] at h
      rw [mapM_recorded_of_ok h.1, map_run, ih h.2]
      simp [Except.map]

theorem mapM_recorded_error {ask : Evaluator} {before after : List Expr} {d : Expr}
    {error : HostError} (hbefore : ∀ c ∈ before, ∃ v, ask c = .ok v) (hd : ask d = .error error)
    (log : List Expr) :
    ((before ++ d :: after).mapM (recorded ask)).run log =
      (.error error, log ++ before ++ [d]) := by
  induction before generalizing log with
  | nil => rw [List.nil_append, mapM_recorded_of_error hd, List.append_nil]
  | cons c before ih =>
    rw [List.forall_mem_cons] at hbefore
    obtain ⟨v, hv⟩ := hbefore.1
    rw [List.cons_append, mapM_recorded_of_ok hv, map_run, ih hbefore.2]
    simp [Except.map]

/-- Folding asks for the largest foldable parts that are no constants, once each and from left to
right, and for nothing else. With all answers the fold is the expression with constants in the
places of these parts. At the first error folding ends with it and asks for nothing more. The marks
that the two passes share have the shape of the expression, and those of foldable parts are set. -/
theorem fold_asks_maximal (e : Expr) :
    (∀ p, Option.Rel (fun d mark => mark.candidate ↔ d.Foldable) (e.at? p) (e.nominate.at? p)) ∧
    e.foldPositions.Pairwise (· < ·) ∧
    (∀ p, p ∈ e.foldPositions ↔ e.IsMaximal p) ∧
    ∃ fill : List Value → Expr,
      (∀ vs, vs.length = e.foldPositions.length → e.Replaced e.foldPositions vs (fill vs)) ∧
      (∀ {m : Type → Type} [Monad m] [LawfulMonad m] (ask : Expr → m Value),
        e.fold ask = fill <$> e.asked.mapM ask) ∧
      ∀ ask : Evaluator,
        (∀ vs, e.asked.map ask = vs.map .ok →
          (e.fold (recorded ask)).run [] = (.ok (fill vs), e.asked)) ∧
        (∀ before d after error, e.asked = before ++ d :: after →
          (∀ c ∈ before, ∃ v, ask c = .ok v) → ask d = .error error →
          (e.fold (recorded ask)).run [] = (.error error, before ++ [d])) := by
  obtain ⟨fill, hfill, hfold⟩ := exists_foldsTo e
  refine ⟨marked_foldable e, pairwise_foldPositions e, mem_foldPositions e, fill, hfill, hfold,
    fun ask => ⟨?_, ?_⟩⟩
  · intro vs hvs
    rw [hfold, map_run, mapM_recorded_ok hvs]
    rfl
  · intro before d after error hasked hbefore hd
    rw [hfold, map_run, hasked, mapM_recorded_error hbefore hd]
    rfl

end Expr

end LambdaQuery
