/-!
# Records

A `Record` holds named entries in the order in which the names came up first. Setting a name again
replaces its entry in place.
-/

set_option autoImplicit false

namespace LambdaQuery

universe u

/-- Named entries in order; the operations keep the names distinct. -/
abbrev Record (α : Type u) := List (String × α)

namespace Record

variable {α : Type u}

def get? (r : Record α) (name : String) : Option α :=
  match r with
  | [] => none
  | (n, a) :: rest => if n = name then some a else get? rest name

/-- Sets the entry of a name: in place, or at the end if the name is new. -/
def set (r : Record α) (name : String) (a : α) : Record α :=
  match r with
  | [] => [(name, a)]
  | (n, b) :: rest => if n = name then (name, a) :: rest else (n, b) :: set rest name a

def names (r : Record α) : List String := r.map (·.1)

/-- Sets the entries of a list one after the other, so that the last entry of a name wins. -/
def setAll (r : Record α) (entries : List (String × α)) : Record α :=
  entries.foldl (fun r e => set r e.1 e.2) r

def ofList (entries : List (String × α)) : Record α := setAll [] entries

theorem get?_cons (e : String × α) (rest : Record α) (name : String) :
    get? (e :: rest) name = if e.1 = name then some e.2 else get? rest name := rfl

theorem set_cons (e : String × α) (rest : Record α) (name : String) (a : α) :
    set (e :: rest) name a = if e.1 = name then (name, a) :: rest else e :: set rest name a := rfl

@[simp] theorem get?_set (r : Record α) (name other : String) (a : α) :
    get? (set r name a) other = if name = other then some a else get? r other := by
  induction r with
  | nil => rfl
  | cons e rest ih =>
    obtain ⟨n, b⟩ := e
    by_cases h : n = name
    · subst h
      by_cases h' : n = other <;> simp [set_cons, get?_cons, h']
    · by_cases h' : n = other
      · subst h'
        simp [set_cons, get?_cons, h, Ne.symm h]
      · simp [set_cons, get?_cons, h, h', ih]

theorem mem_names_set (r : Record α) (name n : String) (a : α) (h : n ∈ names (set r name a)) :
    n = name ∨ n ∈ names r := by
  induction r with
  | nil => exact .inl (List.mem_singleton.mp h)
  | cons e rest ih =>
    by_cases he : e.1 = name
    · simp only [set_cons, he, if_true, names, List.map_cons, List.mem_cons] at h ⊢
      exact h.imp_right Or.inr
    · simp only [set_cons, he, if_false, names, List.map_cons, List.mem_cons] at h ⊢
      rcases h with h | h
      · exact Or.inr (Or.inl h)
      · exact (ih h).imp_right Or.inr

theorem nodup_names_set (r : Record α) (name : String) (a : α) (h : (names r).Nodup) :
    (names (set r name a)).Nodup := by
  induction r with
  | nil => exact List.pairwise_singleton _ name
  | cons e rest ih =>
    simp only [names, List.map_cons, List.nodup_cons] at h
    by_cases he : e.1 = name
    · simp only [set_cons, he, if_true, names, List.map_cons, List.nodup_cons]
      exact ⟨he ▸ h.1, h.2⟩
    · simp only [set_cons, he, if_false, names, List.map_cons, List.nodup_cons]
      refine ⟨fun hm => ?_, ih h.2⟩
      rcases mem_names_set rest name _ a hm with heq | hm
      · exact he heq
      · exact h.1 hm

/-- A new name goes to the end. -/
theorem set_of_notMem (r : Record α) (name : String) (a : α) (h : name ∉ names r) :
    set r name a = r ++ [(name, a)] := by
  induction r with
  | nil => rfl
  | cons e rest ih =>
    simp only [names, List.map_cons, List.mem_cons, not_or] at h
    simp only [set_cons, Ne.symm h.1, if_false, ih h.2, List.cons_append]

/-- Entries with distinct names are a record as they are. -/
theorem ofList_of_nodup (entries : List (String × α)) (h : (names entries).Nodup) :
    ofList entries = entries := by
  suffices ∀ r : Record α, (names (r ++ entries)).Nodup → setAll r entries = r ++ entries from
    this [] h
  clear h
  induction entries with
  | nil => exact fun r _ => (List.append_nil r).symm
  | cons e rest ih =>
    intro r h
    have he : e.1 ∉ names r := fun hm => by
      simp only [names, List.map_append, List.map_cons, List.nodup_append] at h
      exact h.2.2 e.1 hm e.1 List.mem_cons_self rfl
    have hset : set r e.1 e.2 ++ rest = r ++ e :: rest := by
      rw [set_of_notMem r e.1 e.2 he, List.append_assoc]
      rfl
    have hstep : setAll r (e :: rest) = setAll (set r e.1 e.2) rest := rfl
    rw [hstep, ih _ (hset ▸ h), hset]

end Record

end LambdaQuery
