import LambdaQuery.Naming.CamelCase
import LambdaQuery.Proofs.Text.Case

/-!
# Names in camel case

Of the capitals at the front of a name, camel case lowers all but the last of several that a
lower-case character follows (`loweredCapitals`), and it leaves the rest of the name as it is
(`lowerCapitals_eq`). A name in camel case stays as it is (`lowerCapitals_idempotent`): behind a
capital that is its own lower case the search goes on as it did before, and any other lower case
starts with a character that ends it. Main statement: `camelCase_stable`.
-/

set_option autoImplicit false

namespace LambdaQuery

/-- The capitals that camel case lowers: those at the front of a name, without the last of several
that a lower-case character follows. -/
def loweredCapitals (cs : List Char) : List Char :=
  let capitals := cs.takeWhile Text.isUpper
  if 1 < capitals.length ∧ (cs.dropWhile Text.isUpper).head?.any Text.isLower then capitals.dropLast
  else capitals

variable {first : Bool} {c : Char} {cs rest : List Char}

/-! ## Steps of the search -/

/-- A capital ends the search, or it is lowered and the search goes on: the first one, and each one
that starts no word. -/
theorem lowerCapitals_step (first : Bool) (c : Char) (cs : List Char) :
    lowerCapitals first (c :: cs) =
      if Text.isUpper c = true ∧ (first = true ∨ cs.head?.any Text.isLower = false) then
        Text.lowerOf c ++ lowerCapitals false cs
      else c :: cs := by
  rw [lowerCapitals]
  cases Text.isUpper c <;> cases first <;> cases cs.head?.any Text.isLower <;> rfl

theorem lowerCapitals_cons (hc : Text.isUpper c = true)
    (h : first = true ∨ cs.head?.any Text.isLower = false) :
    lowerCapitals first (c :: cs) = Text.lowerOf c ++ lowerCapitals false cs := by
  rw [lowerCapitals_step, if_pos ⟨hc, h⟩]

theorem lowerCapitals_of_other (h : cs.head?.any Text.isUpper = false) :
    lowerCapitals first cs = cs := by
  cases cs with
  | nil => rfl
  | cons c cs => rw [lowerCapitals_step, if_neg fun hc => Bool.eq_false_iff.mp h hc.1]

/-- A capital that starts the next word ends the search. -/
theorem lowerCapitals_kept (h : cs.head?.any Text.isLower = true) :
    lowerCapitals false (c :: cs) = c :: cs := by
  rw [lowerCapitals_step, h, if_neg (by simp)]

/-! ## What is lowered -/

/-- Capitals that no lower-case character follows are lowered one by one. -/
theorem lowerCapitals_append {run : List Char} (hrun : ∀ c ∈ run, Text.isUpper c = true)
    (hrest : rest.head?.any Text.isLower = false) :
    lowerCapitals first (run ++ rest) =
      run.flatMap Text.lowerOf ++ lowerCapitals (first && run.isEmpty) rest := by
  induction run generalizing first with
  | nil => simp
  | cons c run ih =>
    obtain ⟨hc, hrun⟩ := List.forall_mem_cons.mp hrun
    have hnext : (run ++ rest).head?.any Text.isLower = false := by
      cases run with
      | nil => exact hrest
      | cons d run => exact Text.isLower_of_isUpper (hrun d List.mem_cons_self)
    rw [List.cons_append, lowerCapitals_cons hc (.inr hnext), ih hrun, List.flatMap_cons,
      List.append_assoc]
    simp

/-- The last of several capitals starts the word of the lower-case character that follows it. -/
theorem lowerCapitals_word {d : Char} {run : List Char}
    (hrun : ∀ e ∈ d :: run, Text.isUpper e = true) (hc : Text.isUpper c = true)
    (hrest : rest.head?.any Text.isLower = true) :
    lowerCapitals true (d :: run ++ c :: rest) =
      (d :: run).flatMap Text.lowerOf ++ c :: rest := by
  have hnext : (c :: rest).head?.any Text.isLower = false := Text.isLower_of_isUpper hc
  rw [lowerCapitals_append hrun hnext]
  exact congrArg _ (lowerCapitals_kept hrest)

theorem lowerCapitals_eq (cs : List Char) :
    ∃ rest, cs = loweredCapitals cs ++ rest ∧
      lowerCapitals true cs = (loweredCapitals cs).flatMap Text.lowerOf ++ rest := by
  have hcs : cs = cs.takeWhile Text.isUpper ++ cs.dropWhile Text.isUpper :=
    List.takeWhile_append_dropWhile.symm
  have hrun : ∀ c ∈ cs.takeWhile Text.isUpper, Text.isUpper c = true :=
    List.all_eq_true.mp List.all_takeWhile
  have hrest : (cs.dropWhile Text.isUpper).head?.any Text.isUpper = false := by
    have := List.head?_dropWhile_not Text.isUpper cs
    cases h : (cs.dropWhile Text.isUpper).head? with
    | none => rfl
    | some d => rwa [h] at this
  unfold loweredCapitals
  generalize cs.takeWhile Text.isUpper = run at *
  generalize cs.dropWhile Text.isUpper = rest at *
  subst hcs
  by_cases hlower : rest.head?.any Text.isLower = true
  · rcases List.eq_nil_or_concat run with rfl | ⟨before, c, rfl⟩
    · exact ⟨rest, rfl, lowerCapitals_of_other hrest⟩
    · rw [List.concat_eq_append] at hrun ⊢
      have hc : Text.isUpper c = true := hrun c (by simp)
      cases before with
      | nil =>
        refine ⟨rest, rfl, ?_⟩
        show lowerCapitals true (c :: rest) = Text.lowerOf c ++ [] ++ rest
        rw [lowerCapitals_cons hc (.inl rfl), lowerCapitals_of_other hrest, List.append_nil]
      | cons d before =>
        have hseveral : 1 < (d :: before ++ [c]).length := by simp
        have hbefore : ∀ e ∈ d :: before, Text.isUpper e = true :=
          fun e he => hrun e (List.mem_append_left _ he)
        dsimp only
        rw [if_pos ⟨hseveral, hlower⟩, List.dropLast_concat, List.append_assoc,
          List.singleton_append]
        exact ⟨c :: rest, rfl, lowerCapitals_word hbefore hc hlower⟩
  · dsimp only
    rw [if_neg fun h => hlower h.2]
    refine ⟨rest, rfl, ?_⟩
    rw [lowerCapitals_append hrun (Bool.eq_false_iff.mpr hlower), lowerCapitals_of_other hrest]

theorem lowerCapitals_idempotent (first : Bool) (cs : List Char) :
    lowerCapitals first (lowerCapitals first cs) = lowerCapitals first cs := by
  induction cs generalizing first with
  | nil => rfl
  | cons c cs ih =>
    rw [lowerCapitals_step first c cs]
    split
    · rcases Text.lowerOf_cases c with hc | ⟨d, ds, hc, hd⟩
      · rw [hc, List.singleton_append, lowerCapitals_step, hc, ih, List.singleton_append, ite_self]
      · rw [hc]
        exact lowerCapitals_of_other hd
    · rename_i hends
      rw [lowerCapitals_step, if_neg hends]

/-- **Camel case lowers the capitals at the front, once.** A name in camel case is the name with its
first capitals in lower case, one character after the other, and the rest of the name behind them;
put into camel case again, it is the same. -/
theorem camelCase_stable (name : String) :
    camelCase (camelCase name) = camelCase name ∧
      ∃ rest, name.toList = loweredCapitals name.toList ++ rest ∧
        (camelCase name).toList = (loweredCapitals name.toList).flatMap Text.lowerOf ++ rest := by
  constructor
  · unfold camelCase
    rw [String.toList_ofList, lowerCapitals_idempotent]
  · obtain ⟨rest, hname, hcamel⟩ := lowerCapitals_eq name.toList
    exact ⟨rest, hname, by rw [camelCase, String.toList_ofList, hcamel]⟩

example : camelCase "URLValue" = "urlValue" := by decide

end LambdaQuery
