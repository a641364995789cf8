import LambdaQuery.Host.Value.Json
import LambdaQuery.Proofs.Json.Members
import Mathlib.Data.List.Forall2
import Mathlib.Data.List.Induction
import Mathlib.Data.List.Nodup
import Mathlib.Data.String.Basic

/-!
# Records as objects

A record is built by setting one entry after the other, and a JSON object keeps the last of the
members with one name. Both say the same about every name (`Json.get?_entered`), so that the JSON
object of a record is the one of the entries that the record was built of (`Value.toJson_ofList`),
and entries that are all set again leave no trace in it (`Json.entered_append`). Under other keys it
is so for names that the keys keep apart (`Json.entered_map_ofList`).
-/

set_option autoImplicit false

namespace LambdaQuery

namespace Record

universe u

variable {α : Type u}

theorem setAll_ofList (es es' : List (String × α)) : setAll (ofList es) es' = ofList (es ++ es') :=
  List.foldl_append.symm

theorem nodup_names_setAll : ∀ (es : List (String × α)) {r : Record α}, (names r).Nodup →
    (names (setAll r es)).Nodup
  | [], _, h => h
  | e :: es, r, h => nodup_names_setAll es (nodup_names_set r e.1 e.2 h)

/-- A record built of its own entries is itself. -/
theorem ofList_ofList (es : List (String × α)) : ofList (ofList es) = ofList es :=
  ofList_of_nodup _ (nodup_names_setAll es .nil)

/-- Of the entries that are set, only those of the name count. -/
theorem get?_setAll (es : List (String × α)) (name : String) : ∀ r : Record α,
    get? (setAll r es) name = (get? (ofList es) name).or (get? r name) := by
  induction es with
  | nil => exact fun r => rfl
  | cons e es ih =>
    intro r
    have hstep : ∀ r : Record α, setAll r (e :: es) = setAll (set r e.1 e.2) es := fun _ => rfl
    rw [ofList, hstep, hstep, ih (set r e.1 e.2), ih (set [] e.1 e.2), get?_set, get?_set]
    cases get? (ofList es) name with
    | some a => rfl
    | none =>
      by_cases hname : e.1 = name
      · simp [hname]
      · simp [hname, get?]

theorem get?_eq_none {r : Record α} {name : String} : get? r name = none ↔ name ∉ names r := by
  induction r with
  | nil => simp [get?, names]
  | cons e r ih =>
    obtain ⟨n, a⟩ := e
    by_cases hn : n = name
    · simp [get?, names, hn]
    · simp only [get?, if_neg hn, ih, names, List.map_cons, List.mem_cons, not_or]
      exact ⟨fun h => ⟨Ne.symm hn, h⟩, fun h => h.2⟩

/-- The names of a record are those of the entries that it was built of. -/
theorem mem_names_ofList (es : List (String × α)) (name : String) :
    name ∈ names (ofList es) ↔ name ∈ names es := by
  induction es with
  | nil => rfl
  | cons e es ih =>
    have hstep : ofList (e :: es) = setAll (set [] e.1 e.2) es := rfl
    rw [← not_iff_not, ← get?_eq_none, hstep, get?_setAll, Option.or_eq_none_iff, get?_eq_none, ih,
      get?_set]
    simp only [names, List.map_cons, List.mem_cons, not_or, get?, ite_eq_right_iff, reduceCtorEq,
      imp_false]
    exact ⟨fun h => ⟨Ne.symm h.2, h.1⟩, fun h => ⟨h.2, Ne.symm h.1⟩⟩

/-! ### Records under other keys -/

/-- A name that is set again shares its key with no other name. Under the keys, the last entry of
a key is then the last one of the record too. -/
def Separates (key : String → String) (ns : List String) : Prop :=
  ∀ a ∈ ns, ∀ b ∈ ns, key a = key b → a = b ∨ ns.count a = 1

instance (key : String → String) (ns : List String) : Decidable (Separates key ns) :=
  inferInstanceAs (Decidable (∀ a ∈ ns, ∀ b ∈ ns, key a = key b → a = b ∨ ns.count a = 1))

variable (p : String → Bool)

theorem filter_set (r : Record α) (name : String) (a : α) :
    (set r name a).filter (p ·.1) =
      if p name then set (r.filter (p ·.1)) name a else r.filter (p ·.1) := by
  induction r with
  | nil => cases hp : p name <;> simp [set, hp]
  | cons e r ih =>
    obtain ⟨n, b⟩ := e
    by_cases hn : n = name
    · subst hn
      cases hp : p n <;> simp [set, hp]
    · rw [set, if_neg hn, List.filter_cons, List.filter_cons, ih]
      cases hp : p n <;> cases hp' : p name <;> simp [set, hn]

/-- The entries of some names are a record of their own. -/
theorem filter_ofList (es : List (String × α)) :
    (ofList es).filter (p ·.1) = ofList (es.filter (p ·.1)) := by
  unfold ofList setAll
  suffices ∀ r : Record α, (es.foldl (fun r e => set r e.1 e.2) r).filter (p ·.1) =
      (es.filter (p ·.1)).foldl (fun r e => set r e.1 e.2) (r.filter (p ·.1)) from this []
  induction es with
  | nil => exact fun r => rfl
  | cons e es ih =>
    intro r
    rw [List.foldl_cons, ih, filter_set, List.filter_cons]
    cases p e.1 <;> rfl

theorem get?_filter (r : Record α) (name : String) :
    get? (r.filter (·.1 == name)) name = get? r name := by
  induction r with
  | nil => rfl
  | cons e r ih =>
    obtain ⟨n, a⟩ := e
    by_cases hn : n = name <;> simp [get?, hn, ih]

/-- Of entries of one name the last one is left. -/
theorem ofList_of_same {es : List (String × α)} {name : String} (h : ∀ e ∈ es, e.1 = name) :
    ofList es = es.getLast?.toList := by
  induction es using List.reverseRecOn with
  | nil => rfl
  | append_singleton es e ih =>
    obtain ⟨hes, he⟩ := List.forall_mem_append.mp h
    have hstep : ofList (es ++ [e]) = set (ofList es) e.1 e.2 := List.foldl_append
    have hname : e.1 = name := he e (List.mem_singleton_self e)
    rw [hstep, ih hes, List.getLast?_concat]
    cases hlast : es.getLast? with
    | none => rfl
    | some d =>
      have hd : d.1 = e.1 := (hes d (List.mem_of_getLast? hlast)).trans hname.symm
      simp [set, hd]

theorem mem_of_mem_ofList {es : List (String × α)} {e : String × α} (h : e ∈ ofList es) :
    e ∈ es := by
  have hname : e ∈ ofList (es.filter (·.1 == e.1)) := by
    rw [← filter_ofList (· == e.1)]
    exact List.mem_filter.mpr ⟨h, by simp⟩
  have hsame : ∀ d ∈ es.filter (·.1 == e.1), d.1 = e.1 := fun d hd => by
    simpa using (List.mem_filter.mp hd).2
  rw [ofList_of_same hsame, Option.mem_toList] at hname
  exact List.mem_of_mem_filter (List.mem_of_getLast? hname)

section

variable {β : Type u} {key : String → String} {f : String × α → β} {es : List (String × α)}

/-- The entries of a key have one name, or no two of them have. -/
theorem Separates.same_or_nodup (h : Separates key (names es)) (k : String) :
    (∃ name, ∀ e ∈ es.filter (key ·.1 == k), e.1 = name) ∨
      (names (es.filter (key ·.1 == k))).Nodup := by
  have hkey : ∀ e ∈ es.filter (key ·.1 == k), e.1 ∈ names es ∧ key e.1 = k := fun e he =>
    ⟨List.mem_map_of_mem (List.mem_of_mem_filter he), by simpa using (List.mem_filter.mp he).2⟩
  by_cases hsame : ∃ name, ∀ e ∈ es.filter (key ·.1 == k), e.1 = name
  · exact .inl hsame
  refine .inr (List.nodup_iff_count_le_one.mpr fun name => ?_)
  by_cases hname : name ∈ names (es.filter (key ·.1 == k))
  · obtain ⟨e, he, rfl⟩ := List.mem_map.mp hname
    obtain ⟨d, hd, hne⟩ : ∃ d ∈ es.filter (key ·.1 == k), d.1 ≠ e.1 := by
      by_contra hnone
      exact hsame ⟨e.1, fun d hd => by_contra fun hne => hnone ⟨d, hd, hne⟩⟩
    have hkeys : key e.1 = key d.1 := (hkey e he).2.trans (hkey d hd).2.symm
    have hcount : (names es).count e.1 = 1 :=
      (h _ (hkey e he).1 _ (hkey d hd).1 hkeys).resolve_left (Ne.symm hne)
    rw [← hcount]
    exact (List.filter_sublist.map _).count_le _
  · exact (List.count_eq_zero.mpr hname).trans_le zero_le_one

/-- **A record under other keys has the last entry of every key.** -/
theorem get?_ofList_map (h : Separates key (names es)) (k : String) :
    get? (ofList ((ofList es).map fun e => (key e.1, f e))) k =
      get? (ofList (es.map fun e => (key e.1, f e))) k := by
  -- Only the entries of the key count.
  have hfilter : ∀ ds : List (String × α),
      get? (ofList (ds.map fun e => (key e.1, f e))) k =
        get? (ofList ((ds.filter (key ·.1 == k)).map fun e => (key e.1, f e))) k := by
    intro ds
    rw [← get?_filter, filter_ofList (· == k), List.filter_map]
    rfl
  rw [hfilter (ofList es), hfilter es, filter_ofList (key · == k)]
  rcases h.same_or_nodup k with ⟨name, hname⟩ | hnodup
  · have hlast : ofList ((es.filter (key ·.1 == k)).map fun e => (key e.1, f e)) =
        ((es.filter (key ·.1 == k)).map fun e => (key e.1, f e)).getLast?.toList := by
      have hkey : ∀ m ∈ (es.filter (key ·.1 == k)).map fun e => (key e.1, f e), m.1 = key name :=
        List.forall_mem_map.mpr fun e he => congrArg key (hname e he)
      exact ofList_of_same hkey
    rw [hlast, ofList_of_same hname, List.getLast?_map]
    cases (es.filter (key ·.1 == k)).getLast? <;> rfl
  · rw [ofList_of_nodup _ hnodup]

end

end Record

namespace Json

theorem get?_insert (ms : List (String × Json)) (name other : String) (v : Json) :
    Record.get? (insert ms name v) other =
      if name = other then some v else Record.get? ms other := by
  induction ms with
  | nil => rfl
  | cons m ms ih =>
    obtain ⟨n, w⟩ := m
    unfold insert
    split
    · rfl
    split
    · rename_i heq
      subst heq
      by_cases hother : n = other <;> simp [Record.get?, hother]
    · rename_i hne
      by_cases hother : n = other
      · subst hother
        simp [Record.get?, Ne.symm hne]
      · simp [Record.get?, hother, ih]

/-- An object and a record that are built of the same entries have the same values. -/
theorem get?_entered (ms : List (String × Json)) (name : String) :
    Record.get? (entered ms) name = Record.get? (Record.ofList ms) name := by
  unfold entered Record.ofList Record.setAll
  suffices ∀ acc r : List (String × Json), Record.get? acc name = Record.get? r name →
      Record.get? (ms.foldl (fun ms m => insert ms m.1 m.2) acc) name =
        Record.get? (ms.foldl (fun r e => Record.set r e.1 e.2) r) name from this [] [] rfl
  induction ms with
  | nil => exact fun acc r h => h
  | cons m ms ih =>
    intro acc r h
    refine ih _ _ ?_
    rw [get?_insert, Record.get?_set, h]

theorem Ascending.mem_iff {ms : List (String × Json)} (h : Ascending ms) (m : String × Json) :
    m ∈ ms ↔ Record.get? ms m.1 = some m.2 := by
  induction ms with
  | nil => simp [Record.get?]
  | cons m' ms ih =>
    obtain ⟨name, v⟩ := m
    obtain ⟨n, w⟩ := m'
    obtain ⟨hn, hms⟩ := List.pairwise_cons.mp h
    rw [List.mem_cons, ih hms, Record.get?]
    by_cases hname : n = name
    · subst hname
      have hnone : Record.get? ms n = none := Record.get?_eq_none.mpr fun hm => by
        obtain ⟨m', hm', heq⟩ := List.mem_map.mp hm
        exact (hn m' hm').ne heq.symm
      simp [hnone, eq_comm]
    · simp [hname, Ne.symm hname]

/-- An object is known by the values of its names. -/
theorem entered_ext {ms ms' : List (String × Json)}
    (h : ∀ name, Record.get? (Record.ofList ms) name = Record.get? (Record.ofList ms') name) :
    entered ms = entered ms' := by
  have hasc := pairwise_entered ms
  have hasc' := pairwise_entered ms'
  have hnodup : ∀ {ms : List (String × Json)}, Ascending ms → ms.Nodup := fun h =>
    h.imp fun hlt heq => absurd (congrArg Prod.fst heq) hlt.ne
  refine List.Perm.eq_of_pairwise (fun m m' _ _ hlt hgt => absurd hgt (lt_asymm hlt)) hasc hasc' ?_
  refine (List.perm_ext_iff_of_nodup (hnodup hasc) (hnodup hasc')).mpr fun m => ?_
  rw [hasc.mem_iff, hasc'.mem_iff, get?_entered, get?_entered, h]

theorem entered_ofList (ms : List (String × Json)) : entered (Record.ofList ms) = entered ms :=
  entered_ext fun name => by rw [Record.ofList_ofList]

/-- The object of a record under other keys is the one of the entries under them. -/
theorem entered_map_ofList {α : Type} {key : String → String} {f : String × α → Json}
    {es : List (String × α)} (h : Record.Separates key (Record.names es)) :
    entered ((Record.ofList es).map fun e => (key e.1, f e)) =
      entered (es.map fun e => (key e.1, f e)) :=
  entered_ext (Record.get?_ofList_map h)

/-- Members that are all given again leave no trace. -/
theorem entered_append {ms ms' : List (String × Json)}
    (h : ∀ name ∈ Record.names ms, name ∈ Record.names ms') :
    entered (ms ++ ms') = entered ms' := by
  refine entered_ext fun name => ?_
  rw [← Record.setAll_ofList, Record.get?_setAll]
  cases hget : Record.get? (Record.ofList ms') name with
  | some v => rfl
  | none =>
    rw [Option.none_or, Record.get?_eq_none, Record.mem_names_ofList]
    rw [Record.get?_eq_none, Record.mem_names_ofList] at hget
    exact fun hname => hget (h name hname)

end Json

namespace Value

theorem toJsonFields_eq (fields : List (String × Value)) :
    toJsonFields fields = fields.map fun f => (f.1, f.2.toJson) := by
  induction fields with
  | nil => rfl
  | cons f fields ih => rw [toJsonFields, ih, List.map_cons]

theorem names_toJsonFields (fields : List (String × Value)) :
    (toJsonFields fields).map (·.1) = Record.names fields := by
  rw [toJsonFields_eq, List.map_map]
  rfl

theorem toJsonFields_set (fields : List (String × Value)) (name : String) (v : Value) :
    toJsonFields (Record.set fields name v) = Record.set (toJsonFields fields) name v.toJson := by
  induction fields with
  | nil => rfl
  | cons f fields ih =>
    obtain ⟨n, w⟩ := f
    by_cases hn : n = name
    · simp [Record.set_cons, toJsonFields, hn]
    · simp [Record.set_cons, toJsonFields, hn, ih]

theorem toJsonFields_setAll : ∀ (entries fields : List (String × Value)),
    toJsonFields (Record.setAll fields entries) =
      Record.setAll (toJsonFields fields) (toJsonFields entries)
  | [], _ => rfl
  | (name, v) :: entries, fields => by
    have hstep := toJsonFields_setAll entries (Record.set fields name v)
    rw [toJsonFields_set] at hstep
    exact hstep

/-- **The JSON object of a record is the one of its entries**: the last of a name counts. -/
theorem toJson_ofList (entries : List (String × Value)) :
    (Value.object (Record.ofList entries)).toJson = Json.object (toJsonFields entries) := by
  rw [toJson, Record.ofList, toJsonFields_setAll, Json.object_eq, Json.object_eq]
  exact congrArg Json.obj (Json.entered_ofList _)

end Value

end LambdaQuery
