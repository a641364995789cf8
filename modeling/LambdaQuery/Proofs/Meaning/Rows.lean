import Mathlib.Data.List.Forall2
import Mathlib.Data.List.Sort

/-!
# Lists of rows

What the clauses of a query do to a list of rows, and which of them may be exchanged: a stable sort
commutes with filters (`filter_insertionSort`), with joins (`flatMap_insertionSort`) and with
dropping duplicates (`distinct_insertionSort`).
-/

set_option autoImplicit false

namespace LambdaQuery.Rows

variable {α β : Type}

/-- The first of every row. -/
def distinct [DecidableEq α] : List α → List α
  | [] => []
  | a :: as => a :: (distinct as).filter (· ≠ a)

/-- As many of the first rows as a bound allows. -/
def atMost : Option Nat → List α → List α
  | none, l => l
  | some n, l => l.take n

/-- The rows behind an offset. -/
def behind : Option Nat → List α → List α
  | none, l => l
  | some n, l => l.drop n

/-! ## Sorting -/

section

variable {r : α → α → Prop} [DecidableRel r]

theorem orderedInsert_filter_neg (p : α → Bool) {a : α} (ha : p a = false) (l : List α) :
    (l.orderedInsert r a).filter p = l.filter p := by
  induction l with
  | nil => simp [ha]
  | cons b l ih =>
    rw [List.orderedInsert_cons]
    split
    · rw [List.filter_cons_of_neg (by simp [ha])]
    · rw [List.filter_cons, List.filter_cons, ih]

/-- What is below all rows comes first. -/
theorem orderedInsert_of_forall {a : α} {l : List α} (h : ∀ b ∈ l, r a b) :
    l.orderedInsert r a = a :: l := by
  cases l with
  | nil => rfl
  | cons b l => exact List.orderedInsert_cons_of_le r l (h b List.mem_cons_self)

/-- What is below none of the first rows comes after them. -/
theorem orderedInsert_append {a : α} {l m : List α} (h : ∀ b ∈ l, ¬r a b) :
    (l ++ m).orderedInsert r a = l ++ m.orderedInsert r a := by
  induction l with
  | nil => rfl
  | cons b l ih =>
    obtain ⟨hb, hl⟩ := List.forall_mem_cons.mp h
    rw [List.cons_append, List.orderedInsert_of_not_le r _ hb, ih hl, List.cons_append]

variable [IsTrans α r]

theorem orderedInsert_filter_pos (p : α → Bool) {a : α} (ha : p a = true) {l : List α}
    (hl : l.Pairwise r) : (l.orderedInsert r a).filter p = (l.filter p).orderedInsert r a := by
  induction l with
  | nil => simp [ha]
  | cons b l ih =>
    obtain ⟨hb, hl⟩ := List.pairwise_cons.mp hl
    rw [List.orderedInsert_cons]
    split
    · rename_i hab
      have hall : ∀ c ∈ (b :: l).filter p, r a c := fun c hc => by
        rcases List.mem_cons.mp (List.mem_of_mem_filter hc) with rfl | hc
        · exact hab
        · exact trans_of r hab (hb c hc)
      rw [List.filter_cons_of_pos ha, orderedInsert_of_forall hall]
    · rename_i hab
      rw [List.filter_cons, List.filter_cons, ih hl]
      split
      · rw [List.orderedInsert_of_not_le r _ hab]
      · rfl

variable [Std.Total r]

theorem filter_insertionSort (p : α → Bool) (l : List α) :
    (l.insertionSort r).filter p = (l.filter p).insertionSort r := by
  induction l with
  | nil => rfl
  | cons a l ih =>
    rw [List.insertionSort_cons, List.filter_cons]
    split
    · rename_i ha
      rw [orderedInsert_filter_pos p ha (l.pairwise_insertionSort r), ih, List.insertionSort_cons]
    · rename_i ha
      rw [orderedInsert_filter_neg p (by simpa using ha), ih]

end

/-! ## Related rows -/

theorem forall₂_flatMap {α' β' : Type} {R : α → β → Prop} {S : α' → β' → Prop} {f : α → List α'}
    {g : β → List β'} {l : List α} {m : List β} (hlm : List.Forall₂ R l m)
    (h : ∀ a b, R a b → List.Forall₂ S (f a) (g b)) :
    List.Forall₂ S (l.flatMap f) (m.flatMap g) :=
  List.rel_flatMap hlm h

theorem forall₂_flatMap_same {S : β → β → Prop} {f g : α → List β} (l : List α)
    (h : ∀ a, List.Forall₂ S (f a) (g a)) : List.Forall₂ S (l.flatMap f) (l.flatMap g) :=
  forall₂_flatMap (List.forall₂_eq_eq_eq.symm ▸ rfl : List.Forall₂ Eq l l) fun a _ he => he ▸ h a

section

variable {R : α → β → Prop} {r : α → α → Prop} [DecidableRel r] {s : β → β → Prop} [DecidableRel s]
  (h : ∀ a b a' b', R a b → R a' b' → (r a a' ↔ s b b'))

include h

theorem forall₂_orderedInsert {a : α} {b : β} (hab : R a b) {l : List α} {m : List β}
    (hlm : List.Forall₂ R l m) :
    List.Forall₂ R (l.orderedInsert r a) (m.orderedInsert s b) := by
  induction hlm with
  | nil => exact .cons hab .nil
  | @cons a' b' _ _ hcd hlm ih =>
    have hrs := h a b a' b' hab hcd
    rw [List.orderedInsert_cons, List.orderedInsert_cons]
    by_cases hr : r a a'
    · rw [if_pos hr, if_pos (hrs.mp hr)]
      exact .cons hab (.cons hcd hlm)
    · rw [if_neg hr, if_neg fun hs => hr (hrs.mpr hs)]
      exact .cons hcd ih

/-- Sorting keeps related rows related. -/
theorem forall₂_insertionSort {l : List α} {m : List β} (hlm : List.Forall₂ R l m) :
    List.Forall₂ R (l.insertionSort r) (m.insertionSort s) := by
  induction hlm with
  | nil => exact .nil
  | cons hab _ ih => exact forall₂_orderedInsert h hab ih

end

/-! ## Joined rows -/

/-- Joined rows that are kept for what they are joined to. -/
theorem filter_flatMap {f : α → List β} {p : α → Bool} {q : β → Bool}
    (h : ∀ a, ∀ b ∈ f a, q b = p a) (l : List α) :
    (l.flatMap f).filter q = (l.filter p).flatMap f := by
  induction l with
  | nil => rfl
  | cons a l ih =>
    rw [List.flatMap_cons, List.filter_append, ih, List.filter_cons]
    split
    · rename_i ha
      rw [List.flatMap_cons, List.filter_eq_self.mpr fun b hb => (h a b hb).trans ha]
    · rename_i ha
      rw [List.filter_eq_nil_iff.mpr fun b hb => by rwa [h a b hb], List.nil_append]

section

variable {r : α → α → Prop} [DecidableRel r] [IsTrans α r] [Std.Total r]
  {s : β → β → Prop} [DecidableRel s] {f : α → List β}

/-- Rows below all others, none of which is below another, come first as they are. -/
theorem foldr_orderedInsert_of_forall {l m : List β} (hl : l.Pairwise s)
    (h : ∀ a ∈ l, ∀ b ∈ m, s a b) : l.foldr (List.orderedInsert s) m = l ++ m := by
  induction l with
  | nil => rfl
  | cons a l ih =>
    obtain ⟨ha, hl⟩ := List.pairwise_cons.mp hl
    obtain ⟨hm, h⟩ := List.forall_mem_cons.mp h
    rw [List.foldr_cons, ih hl h, List.cons_append]
    exact orderedInsert_of_forall fun b hb => (List.mem_append.mp hb).elim (ha b) (hm b)

theorem foldr_orderedInsert_append {l m n : List β} (h : ∀ a ∈ l, ∀ b ∈ m, ¬s a b) :
    l.foldr (List.orderedInsert s) (m ++ n) = m ++ l.foldr (List.orderedInsert s) n := by
  induction l with
  | nil => rfl
  | cons a l ih =>
    obtain ⟨ha, h⟩ := List.forall_mem_cons.mp h
    rw [List.foldr_cons, ih h, orderedInsert_append ha, List.foldr_cons]

variable (hs : ∀ a a' : α, ∀ b ∈ f a, ∀ b' ∈ f a', s b b' ↔ r a a')

include hs

/-- Inserting the rows that one row is joined to. -/
theorem foldr_orderedInsert_flatMap (a : α) {l : List α} (hl : l.Pairwise r) :
    (f a).foldr (List.orderedInsert s) (l.flatMap f) = (l.orderedInsert r a).flatMap f := by
  have hpair : (f a).Pairwise s :=
    List.pairwise_of_forall_mem_list fun b hb b' hb' => (hs a a b hb b' hb').mpr (refl_of r a)
  induction l with
  | nil => simpa using foldr_orderedInsert_of_forall hpair (m := []) fun _ _ _ hb => nomatch hb
  | cons c l ih =>
    obtain ⟨hc, hl⟩ := List.pairwise_cons.mp hl
    rw [List.orderedInsert_cons]
    split
    · rename_i hac
      refine foldr_orderedInsert_of_forall hpair fun b hb b' hb' => ?_
      obtain ⟨c', hc', hb'⟩ := List.mem_flatMap.mp hb'
      refine (hs a c' b hb b' hb').mpr ?_
      rcases List.mem_cons.mp hc' with rfl | hc'
      · exact hac
      · exact trans_of r hac (hc c' hc')
    · rename_i hac
      rw [List.flatMap_cons, List.flatMap_cons, ← ih hl]
      exact foldr_orderedInsert_append fun b hb b' hb' h => hac ((hs a c b hb b' hb').mp h)

/-- Sorting joined rows by what they are joined to. -/
theorem flatMap_insertionSort (l : List α) :
    (l.flatMap f).insertionSort s = (l.insertionSort r).flatMap f := by
  induction l with
  | nil => rfl
  | cons a l ih =>
    rw [List.flatMap_cons, List.insertionSort, List.foldr_append,
      ← List.insertionSort, ih, List.insertionSort_cons]
    exact foldr_orderedInsert_flatMap hs a (l.pairwise_insertionSort r)

end

/-! ## Dropping duplicates -/

section

variable [DecidableEq α]

@[simp] theorem mem_distinct {a : α} {l : List α} : a ∈ distinct l ↔ a ∈ l := by
  induction l with
  | nil => rfl
  | cons b l ih =>
    rw [distinct, List.mem_cons, List.mem_filter, ih, List.mem_cons]
    by_cases h : a = b <;> simp [h]

theorem distinct_filter (p : α → Bool) (l : List α) :
    (distinct l).filter p = distinct (l.filter p) := by
  induction l with
  | nil => rfl
  | cons a l ih =>
    rw [distinct, List.filter_cons, List.filter_cons, List.filter_comm, ih]
    split
    · rw [distinct]
    · rename_i ha
      refine List.filter_eq_self.mpr fun b hb => ?_
      have hp := (List.mem_filter.mp (mem_distinct.mp hb)).2
      simpa using fun h : b = a => ha (h ▸ hp)

theorem distinct_of_nodup {l : List α} (h : l.Nodup) : distinct l = l := by
  induction l with
  | nil => rfl
  | cons a l ih =>
    obtain ⟨ha, h⟩ := List.nodup_cons.mp h
    have hne : ∀ b ∈ l, b ≠ a := fun b hb he => ha (he ▸ hb)
    rw [distinct, ih h, List.filter_eq_self.mpr fun b hb => by simpa using hne b hb]

theorem nodup_distinct (l : List α) : (distinct l).Nodup := by
  induction l with
  | nil => exact List.nodup_nil
  | cons a l ih => exact List.nodup_cons.mpr ⟨by simp, ih.filter _⟩

@[simp] theorem distinct_distinct (l : List α) : distinct (distinct l) = distinct l :=
  distinct_of_nodup (nodup_distinct l)

theorem distinct_sublist (l : List α) : (distinct l).Sublist l := by
  induction l with
  | nil => exact List.Sublist.refl _
  | cons a l ih => exact (List.filter_sublist.trans ih).cons_cons a

variable {r : α → α → Prop} [DecidableRel r] [IsTrans α r] [Std.Total r]

/-- A row that is inserted stands before its equals. -/
theorem distinct_orderedInsert (a : α) {l : List α} (hl : l.Pairwise r) :
    distinct (l.orderedInsert r a) = ((distinct l).filter (· ≠ a)).orderedInsert r a := by
  induction l with
  | nil => rfl
  | cons b l ih =>
    obtain ⟨hb, hl'⟩ := List.pairwise_cons.mp hl
    rw [List.orderedInsert_cons]
    split
    · rename_i hab
      have hall : ∀ c ∈ (distinct (b :: l)).filter (· ≠ a), r a c := fun c hc => by
        rcases List.mem_cons.mp (mem_distinct.mp (List.mem_of_mem_filter hc)) with rfl | hc
        · exact hab
        · exact trans_of r hab (hb c hc)
      rw [distinct, orderedInsert_of_forall hall]
    · rename_i hab
      have hne : b ≠ a := fun h => hab (h ▸ refl_of r b)
      have hsorted : ((distinct l).filter (· ≠ a)).Pairwise r :=
        hl'.sublist (List.filter_sublist.trans (distinct_sublist l))
      rw [distinct, ih hl', orderedInsert_filter_pos (· ≠ b) (by simpa using hne.symm) hsorted,
        distinct, List.filter_cons_of_pos (by simpa using hne), List.filter_comm,
        List.orderedInsert_of_not_le r _ hab]

theorem distinct_insertionSort (l : List α) :
    distinct (l.insertionSort r) = (distinct l).insertionSort r := by
  induction l with
  | nil => rfl
  | cons a l ih =>
    rw [List.insertionSort_cons, distinct_orderedInsert a (l.pairwise_insertionSort r), ih,
      filter_insertionSort, distinct, List.insertionSort_cons]

end

end LambdaQuery.Rows
