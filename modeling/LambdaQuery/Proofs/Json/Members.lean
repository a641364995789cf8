import LambdaQuery.Json.Basic
import Mathlib.Data.List.Forall2
import Mathlib.Data.String.Basic

/-!
# Members by name

`Json.object` puts members one after the other at their places by name. What comes out is sorted
(`Json.pairwise_entered`), what is sorted comes out as it is (`Json.entered_of_pairwise`), and
values that correspond are put at the same places (`Json.forall₂_entered`).
-/

set_option autoImplicit false

namespace LambdaQuery.Json

/-- The members of the object with the given ones. -/
def entered (ms : List (String × Json)) : List (String × Json) :=
  ms.foldl (fun ms m => insert ms m.1 m.2) []

theorem object_eq (ms : List (String × Json)) : object ms = .obj (entered ms) := rfl

/-- Members in ascending order of their names, which are distinct. -/
abbrev Ascending (ms : List (String × Json)) : Prop := ms.Pairwise fun m m' => m.1 < m'.1

theorem forall_mem_insert {ms : List (String × Json)} {name : String} {v : Json}
    {p : String → Prop} (hname : p name) (h : ∀ m ∈ ms, p m.1) :
    ∀ m ∈ insert ms name v, p m.1 := by
  induction ms with
  | nil => simpa [insert] using hname
  | cons m ms ih =>
    obtain ⟨n, w⟩ := m
    have ⟨hn, hms⟩ := List.forall_mem_cons.mp h
    unfold insert
    split
    · exact List.forall_mem_cons.mpr ⟨hname, h⟩
    split
    · exact List.forall_mem_cons.mpr ⟨hname, hms⟩
    · exact List.forall_mem_cons.mpr ⟨hn, ih hms⟩

theorem Ascending.insert {ms : List (String × Json)} (h : Ascending ms) (name : String) (v : Json) :
    Ascending (insert ms name v) := by
  induction ms with
  | nil => exact List.pairwise_singleton _ _
  | cons m ms ih =>
    obtain ⟨n, w⟩ := m
    obtain ⟨hn, hms⟩ := List.pairwise_cons.mp h
    unfold Json.insert
    split
    · rename_i hlt
      refine List.pairwise_cons.mpr ⟨List.forall_mem_cons.mpr ⟨hlt, fun m hm => ?_⟩, h⟩
      exact lt_trans hlt (hn m hm)
    split
    · rename_i heq
      exact List.pairwise_cons.mpr ⟨fun m hm => heq ▸ hn m hm, hms⟩
    · rename_i hlt hne
      have hgt : n < name := lt_of_le_of_ne (not_lt.mp hlt) hne
      exact List.pairwise_cons.mpr ⟨forall_mem_insert hgt hn, ih hms⟩

theorem pairwise_entered (ms : List (String × Json)) : Ascending (entered ms) := by
  unfold entered
  suffices ∀ acc, Ascending acc → Ascending (ms.foldl (fun ms m => insert ms m.1 m.2) acc) from
    this [] .nil
  induction ms with
  | nil => exact fun acc h => h
  | cons m ms ih => exact fun acc h => ih _ (h.insert m.1 m.2)

/-- A name behind all others goes to the end. -/
theorem insert_of_forall_lt {ms : List (String × Json)} {name : String} {v : Json}
    (h : ∀ m ∈ ms, m.1 < name) : insert ms name v = ms ++ [(name, v)] := by
  induction ms with
  | nil => rfl
  | cons m ms ih =>
    obtain ⟨n, w⟩ := m
    obtain ⟨hn, hms⟩ := List.forall_mem_cons.mp h
    rw [insert, if_neg (lt_asymm hn), if_neg hn.ne, ih hms, List.cons_append]

theorem entered_of_pairwise {ms : List (String × Json)} (h : Ascending ms) : entered ms = ms := by
  unfold entered
  suffices ∀ acc, Ascending (acc ++ ms) →
      ms.foldl (fun ms m => insert ms m.1 m.2) acc = acc ++ ms from this [] h
  clear h
  induction ms with
  | nil => exact fun acc _ => (List.append_nil acc).symm
  | cons m ms ih =>
    intro acc h
    have hlt : ∀ m' ∈ acc, m'.1 < m.1 := fun m' hm' =>
      (List.pairwise_append.mp h).2.2 m' hm' m List.mem_cons_self
    rw [List.foldl_cons, insert_of_forall_lt hlt, ih _ (by rwa [List.append_assoc]),
      List.append_assoc]
    rfl

/-- Entering members twice is entering them once. -/
theorem entered_entered (ms : List (String × Json)) : entered (entered ms) = entered ms :=
  entered_of_pairwise (pairwise_entered ms)

/-- A new name is only put somewhere. -/
theorem insert_perm {ms : List (String × Json)} {name : String} (v : Json)
    (h : name ∉ ms.map (·.1)) : (insert ms name v).Perm ((name, v) :: ms) := by
  induction ms with
  | nil => exact .refl _
  | cons m ms ih =>
    obtain ⟨n, w⟩ := m
    simp only [List.map_cons, List.mem_cons, not_or] at h
    unfold insert
    split
    · exact .refl _
    · rw [if_neg (Ne.symm h.1)]
      exact ((ih h.2).cons _).trans (.swap ..)

theorem entered_perm {ms : List (String × Json)} (h : (ms.map (·.1)).Nodup) :
    (entered ms).Perm ms := by
  unfold entered
  suffices ∀ acc, ((acc ++ ms).map (·.1)).Nodup →
      (ms.foldl (fun ms m => insert ms m.1 m.2) acc).Perm (acc ++ ms) from this [] h
  clear h
  induction ms with
  | nil =>
    intro acc _
    rw [List.append_nil]
    exact .refl _
  | cons m ms ih =>
    intro acc h
    have hnew : m.1 ∉ acc.map (·.1) := fun hm => by
      rw [List.map_append, List.nodup_append] at h
      exact h.2.2 _ hm _ List.mem_cons_self rfl
    have hperm : (insert acc m.1 m.2 ++ ms).Perm (acc ++ m :: ms) :=
      ((insert_perm m.2 hnew).append_right ms).trans List.perm_middle.symm
    exact (ih _ ((hperm.map _).nodup_iff.mpr h)).trans hperm

/-- The order of members with distinct names does not count. -/
theorem entered_congr {ms ms' : List (String × Json)} (h : ms.Perm ms')
    (hnodup : (ms.map (·.1)).Nodup) : entered ms = entered ms' := by
  have hnodup' : (ms'.map (·.1)).Nodup := (h.map _).nodup_iff.mp hnodup
  refine List.Perm.eq_of_pairwise (fun m m' _ _ hlt hgt => absurd hgt (lt_asymm hlt))
    (pairwise_entered ms) (pairwise_entered ms') ?_
  exact (entered_perm hnodup).trans (h.trans (entered_perm hnodup').symm)

section

variable {r : Json → Json → Prop}

/-- Members of the same names with values that correspond. -/
abbrev Corresponding (r : Json → Json → Prop) (ms ms' : List (String × Json)) : Prop :=
  List.Forall₂ (fun m m' => m.1 = m'.1 ∧ r m.2 m'.2) ms ms'

theorem forall₂_insert {ms ms' : List (String × Json)} (h : Corresponding r ms ms') (name : String)
    {v v' : Json} (hv : r v v') : Corresponding r (insert ms name v) (insert ms' name v') := by
  induction h with
  | nil => exact .cons ⟨rfl, hv⟩ .nil
  | @cons m m' ms ms' hm hms ih =>
    obtain ⟨n, w⟩ := m
    obtain ⟨n', w'⟩ := m'
    obtain ⟨rfl, hw⟩ : n = n' ∧ r w w' := hm
    unfold insert
    split
    · exact .cons ⟨rfl, hv⟩ (.cons ⟨rfl, hw⟩ hms)
    split
    · exact .cons ⟨rfl, hv⟩ hms
    · exact .cons ⟨rfl, hw⟩ ih

theorem forall₂_entered {ms ms' : List (String × Json)} (h : Corresponding r ms ms') :
    Corresponding r (entered ms) (entered ms') := by
  unfold entered
  suffices ∀ acc acc', Corresponding r acc acc' →
      Corresponding r (ms.foldl (fun ms m => insert ms m.1 m.2) acc)
        (ms'.foldl (fun ms m => insert ms m.1 m.2) acc') from this [] [] .nil
  induction h with
  | nil => exact fun acc acc' h => h
  | @cons m m' ms ms' hm hms ih =>
    intro acc acc' h
    rw [List.foldl_cons, List.foldl_cons, ← hm.1]
    exact ih _ _ (forall₂_insert h m.1 hm.2)

end

end LambdaQuery.Json
