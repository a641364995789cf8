import LambdaQuery.Compilation.Scope
import Mathlib.Data.List.Nodup
import Mathlib.Data.List.Perm.Subperm
import Mathlib.Order.Nat

/-!
# Fresh names

`Scope.fresh` gives a name that is not in use: of as many numbers as there are names and one more,
one makes a new name (`exists_number`), and `freshNumber` finds the least such number
(`fresh_isLeast`).
-/

set_option autoImplicit false

namespace LambdaQuery.Scope

variable {s : Scope} {names : List String} {base : String}

theorem toString_injective {m n : Nat} (h : toString m = toString n) : m = n := by
  have hd := congrArg String.toList h
  rw [Nat.toString_eq_repr, Nat.toString_eq_repr, Nat.toList_repr, Nat.toList_repr] at hd
  rw [← @Nat.ofDigitChars_ten_toDigits m, hd, Nat.ofDigitChars_ten_toDigits]

/-- So many numbers cannot all make names in use. -/
theorem exists_number (names : List String) (base : String) (n : Nat) :
    ∃ k ≤ names.length, base ++ toString (n + k) ∉ names := by
  by_contra hall
  push Not at hall
  let made := (List.range (names.length + 1)).map fun k => base ++ toString (n + k)
  have hnodup : made.Nodup := by
    refine List.Nodup.map (fun j k h => ?_) List.nodup_range
    have hjk := toString_injective ((String.append_right_inj base).mp h)
    omega
  have hsub : made ⊆ names := by
    intro x hx
    obtain ⟨k, hk, rfl⟩ := List.mem_map.mp hx
    exact hall k (Nat.lt_succ_iff.mp (List.mem_range.mp hk))
  have hle := (hnodup.subperm hsub).length_le
  rw [List.length_map, List.length_range] at hle
  omega

/-- Of the numbers that make a name not in use there is a least. -/
theorem exists_isLeast (names : List String) (base : String) :
    ∃ n ≤ names.length, IsLeast {k | base ++ toString k ∉ names} n := by
  obtain ⟨k, hk, hnew⟩ := exists_number names base 0
  rw [Nat.zero_add] at hnew
  have hex : ∃ k, base ++ toString k ∉ names := ⟨k, hnew⟩
  exact ⟨Nat.find hex, Nat.le_trans (Nat.find_min' hex hnew) hk, Nat.isLeast_find hex⟩

/-- The search ends at the first number from `m` on that will do, however many more tries it has. -/
theorem freshNumber_eq {m n fuel : Nat} (hn : base ++ toString n ∉ names) (hm : m ≤ n)
    (hfuel : n ≤ m + fuel) (hbefore : ∀ k, m ≤ k → k < n → base ++ toString k ∈ names) :
    freshNumber names base m fuel = n := by
  induction fuel generalizing m with
  | zero =>
    obtain rfl : m = n := by omega
    rfl
  | succ fuel ih =>
    unfold freshNumber
    by_cases hc : base ++ toString m ∈ names
    · rw [if_pos (List.contains_iff_mem.mpr hc)]
      have hne : m ≠ n := fun h => hn (h ▸ hc)
      exact ih (by omega) (by omega) fun k hk => hbefore k (by omega)
    · rw [if_neg fun h => hc (List.contains_iff_mem.mp h)]
      by_contra hne
      exact hc (hbefore m (Nat.le_refl m) (by omega))

theorem fresh_isLeast (s : Scope) (base : String) :
    ∃ n ≤ s.names.length, IsLeast {k | base ++ toString k ∉ s.names} n ∧
      (s.fresh base).1 = base ++ toString n := by
  obtain ⟨n, hlength, hn, hleast⟩ := exists_isLeast s.names base
  refine ⟨n, hlength, ⟨hn, hleast⟩, ?_⟩
  have hbefore : ∀ k, 0 ≤ k → k < n → base ++ toString k ∈ s.names := by
    intro k _ hk
    by_contra hnew
    exact absurd (hleast hnew) (by omega)
  show base ++ toString (freshNumber s.names base 0 s.names.length) = _
  rw [freshNumber_eq hn (Nat.zero_le n) (by omega) hbefore]

theorem fresh_notMem (s : Scope) (base : String) : (s.fresh base).1 ∉ s.names := by
  obtain ⟨n, -, hn, hname⟩ := s.fresh_isLeast base
  rw [hname]
  exact hn.1

/-- Afterwards the name is in use, and nothing else has changed. -/
theorem fresh_eq (s : Scope) (base : String) :
    (s.fresh base).2 = { s with names := (s.fresh base).1 :: s.names } := by
  have h := s.fresh_notMem base
  show s.addName (s.fresh base).1 = _
  rw [addName, if_neg fun hc => h (List.contains_iff_mem.mp hc)]

theorem fresh_name {s t : Scope} (h : s.names = t.names) (base : String) :
    (s.fresh base).1 = (t.fresh base).1 := by
  simp only [fresh, h]

end LambdaQuery.Scope
