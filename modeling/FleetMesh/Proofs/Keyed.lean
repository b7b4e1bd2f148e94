/-
What a table holds after each operation.

`Keyed.find?` is the view of a table: for a table in key order it says which
entries there are (`mem_of_find?`, `find?_of_mem`), and each operation has its
equation in terms of it.
-/
import FleetMesh.Keyed

namespace FleetMesh
namespace Keyed

variable {α β : Type}

/-! ## Entries -/

theorem mem_of_find? {key : String} {a : α} {table : List (String × α)}
    (h : find? key table = some a) : (key, a) ∈ table := by
  induction table with
  | nil => simp [find?] at h
  | cons entry rest ih =>
    obtain ⟨k, b⟩ := entry
    by_cases hk : k = key
    · subst hk
      rw [find?, if_pos rfl] at h
      exact Option.some.inj h ▸ List.mem_cons_self
    · rw [find?, if_neg hk] at h
      exact List.mem_cons_of_mem _ (ih h)

theorem find?_of_mem {key : String} {a : α} {table : List (String × α)}
    (hord : Ordered table) (h : (key, a) ∈ table) : find? key table = some a := by
  induction table with
  | nil => simp at h
  | cons entry rest ih =>
    obtain ⟨k, b⟩ := entry
    have hlt : ∀ entry ∈ rest, k < entry.1 := (List.pairwise_cons.mp hord).1
    rcases List.mem_cons.mp h with h | h
    · obtain ⟨rfl, rfl⟩ := Prod.mk.inj h
      rw [find?, if_pos rfl]
    · have hne : k ≠ key := fun e => String.lt_irrefl key (e ▸ hlt _ h)
      rw [find?, if_neg hne]
      exact ih (List.pairwise_cons.mp hord).2 h

theorem contains_iff {key : String} {table : List (String × α)} :
    contains key table = true ↔ ∃ a, find? key table = some a := by
  rw [contains, Option.isSome_iff_exists]

theorem not_contains_iff {key : String} {table : List (String × α)} :
    ¬ contains key table = true ↔ find? key table = none := by
  rw [contains, Bool.not_eq_true, Option.isSome_eq_false_iff, Option.isNone_iff_eq_none]

theorem contains_insert (key other : String) (value : α) (table : List (String × α)) :
    contains other (insert key value table) = true ↔ key = other ∨ contains other table = true := by
  rw [contains, find?_insert]
  by_cases h : key = other <;> simp [h, contains]

theorem contains_erase {table : List (String × α)} (hord : Ordered table) (key other : String) :
    contains other (erase key table) = true ↔ key ≠ other ∧ contains other table = true := by
  rw [contains, find?_erase hord, contains]
  by_cases h : key = other <;> simp [h]

/-! ## Values -/

theorem find?_mapValues (f : α → β) (key : String) (table : List (String × α)) :
    find? key (mapValues f table) = (find? key table).map f := by
  induction table with
  | nil => rfl
  | cons entry rest ih =>
    obtain ⟨k, a⟩ := entry
    show find? key ((k, f a) :: mapValues f rest) = _
    by_cases hk : k = key
    · rw [find?, find?, if_pos hk, if_pos hk]
      rfl
    · rw [find?, find?, if_neg hk, if_neg hk, ih]

theorem keys_mapValues (f : α → β) (table : List (String × α)) :
    keys (mapValues f table) = keys table := by
  rw [keys, keys, mapValues, List.map_map]
  rfl

/-- Two ways of mapping values twice. -/
theorem mapValues_swap {γ δ : Type} {f : α → β} {g : β → δ} {f' : α → γ} {g' : γ → δ}
    {table : List (String × α)} (h : ∀ entry ∈ table, g (f entry.2) = g' (f' entry.2)) :
    mapValues g (mapValues f table) = mapValues g' (mapValues f' table) := by
  rw [mapValues, mapValues, mapValues, mapValues, List.map_map, List.map_map]
  exact List.map_congr_left fun entry he => congrArg (Prod.mk entry.1) (h entry he)

/-- What leaves a table as it is leaves every value as it is. -/
theorem mapValues_eq_self_iff {f : α → α} {table : List (String × α)} :
    mapValues f table = table ↔ ∀ entry ∈ table, f entry.2 = entry.2 := by
  induction table with
  | nil => exact ⟨fun _ _ he => absurd he List.not_mem_nil, fun _ => rfl⟩
  | cons entry rest ih =>
    obtain ⟨k, a⟩ := entry
    show (k, f a) :: mapValues f rest = (k, a) :: rest ↔ _
    rw [List.cons.injEq, Prod.mk.injEq, ih, List.forall_mem_cons]
    simp

theorem find?_modify (f : α → α) (key other : String) (table : List (String × α)) :
    find? other (modify key f table) =
      if key = other then (find? other table).map f else find? other table := by
  induction table with
  | nil => simp [modify, find?]
  | cons entry rest ih =>
    obtain ⟨k, a⟩ := entry
    by_cases hk : k = key
    · subst hk
      by_cases ho : k = other <;> simp [modify, find?, ho]
    · by_cases ho : k = other
      · subst ho
        simp [modify, find?, hk, Ne.symm hk]
      · simp [modify, find?, hk, ho, ih]

theorem map_modify {g : String × α → β} {f : α → α}
    (h : ∀ k a, g (k, f a) = g (k, a)) (key : String) (table : List (String × α)) :
    (modify key f table).map g = table.map g := by
  induction table with
  | nil => rfl
  | cons entry rest ih =>
    obtain ⟨k, a⟩ := entry
    rw [modify]
    split
    · rw [List.map_cons, List.map_cons, h]
    · rw [List.map_cons, List.map_cons, ih]

theorem keys_modify (key : String) (f : α → α) (table : List (String × α)) :
    keys (modify key f table) = keys table :=
  map_modify (g := Prod.fst) (f := f) (fun _ _ => rfl) key table

theorem mem_modify {f : α → α} {key : String} {table : List (String × α)}
    {entry : String × α} (h : entry ∈ modify key f table) :
    entry ∈ table ∨ ∃ a, (entry.1, a) ∈ table ∧ entry.2 = f a := by
  induction table with
  | nil => exact absurd h List.not_mem_nil
  | cons head rest ih =>
    obtain ⟨k, a⟩ := head
    rw [modify] at h
    split at h
    · rcases List.mem_cons.mp h with rfl | h
      · exact Or.inr ⟨a, List.mem_cons_self, rfl⟩
      · exact Or.inl (List.mem_cons_of_mem _ h)
    · rcases List.mem_cons.mp h with rfl | h
      · exact Or.inl List.mem_cons_self
      · rcases ih h with h | ⟨b, hb, hf⟩
        · exact Or.inl (List.mem_cons_of_mem _ h)
        · exact Or.inr ⟨b, List.mem_cons_of_mem _ hb, hf⟩

/-- A table without the values that are not kept. -/
theorem find?_filter {table : List (String × α)} (hord : Ordered table) (keep : α → Bool)
    (key : String) :
    find? key (table.filter (fun entry => keep entry.2)) = (find? key table).filter keep := by
  induction table with
  | nil => rfl
  | cons entry rest ih =>
    obtain ⟨k, a⟩ := entry
    obtain ⟨hlt, hrest⟩ := List.pairwise_cons.mp hord
    rw [List.filter_cons, find?]
    by_cases hk : k = key
    · subst hk
      have hnone : find? k rest = none := find?_eq_none_of_lt hlt
      cases hkeep : keep a with
      | true => simp [find?, Option.filter, hkeep]
      | false => simp [ih hrest, Option.filter, hnone, hkeep]
    · rw [if_neg hk, ← ih hrest]
      split
      · rw [find?, if_neg hk]
      · rfl

/-- What is made of the one entry under a key. -/
theorem flatMap_key {table : List (String × α)} (hord : Ordered table) (key : String)
    (f : α → List β) :
    table.flatMap (fun entry => if entry.1 = key then f entry.2 else []) =
      ((find? key table).map f).getD [] := by
  induction table with
  | nil => rfl
  | cons entry rest ih =>
    obtain ⟨k, a⟩ := entry
    obtain ⟨hlt, hrest⟩ := List.pairwise_cons.mp hord
    rw [List.flatMap_cons, ih hrest, find?]
    by_cases hk : k = key
    · subst hk
      simp [find?_eq_none_of_lt hlt]
    · simp [hk]

/-! ## Order -/

/-- Order is a matter of the keys alone. -/
theorem ordered_iff_keys {table : List (String × α)} :
    Ordered table ↔ (keys table).Pairwise (fun a b => a < b) := by
  rw [Ordered, keys, List.pairwise_map]

/-- Order is about the keys alone. -/
theorem ordered_mapValues {f : α → β} {table : List (String × α)} :
    Ordered (mapValues f table) ↔ Ordered table := by
  rw [ordered_iff_keys, keys_mapValues, ← ordered_iff_keys]

theorem ordered_ofList (entries : List (String × α)) : Ordered (ofList entries) := by
  have hfold : ∀ table : List (String × α), Ordered table →
      Ordered (entries.foldl (fun table entry => insert entry.1 entry.2 table) table) := by
    induction entries with
    | nil => exact fun _ h => h
    | cons entry rest ih => exact fun table h => ih _ (ordered_insert h entry.1 entry.2)
  exact hfold [] List.Pairwise.nil

theorem mem_ofList {entries : List (String × α)} {entry : String × α}
    (h : entry ∈ ofList entries) : entry ∈ entries := by
  have hfold : ∀ table : List (String × α),
      entry ∈ entries.foldl (fun table e => insert e.1 e.2 table) table →
        entry ∈ table ∨ entry ∈ entries := by
    clear h
    induction entries with
    | nil => exact fun table h => Or.inl h
    | cons head rest ih =>
      intro table h
      rcases ih _ h with h | h
      · rcases mem_insert h with rfl | h
        · exact Or.inr List.mem_cons_self
        · exact Or.inl h
      · exact Or.inr (List.mem_cons_of_mem _ h)
  exact (hfold [] h).resolve_left List.not_mem_nil

theorem insert_last {key : String} {value : α} {table : List (String × α)}
    (h : ∀ entry ∈ table, entry.1 < key) : insert key value table = table ++ [(key, value)] := by
  induction table with
  | nil => rfl
  | cons head rest ih =>
    obtain ⟨k, a⟩ := head
    have hk : k < key := h (k, a) List.mem_cons_self
    have hnot : ¬ key < k := fun hlt => String.lt_irrefl k (String.lt_trans hk hlt)
    have hne : k ≠ key := fun e => String.lt_irrefl key (e ▸ hk)
    rw [insert, if_neg hnot, if_neg hne, ih fun e he => h e (List.mem_cons_of_mem _ he)]
    rfl

/-- A table in key order is the table of its entries. -/
theorem ofList_of_ordered {table : List (String × α)} (h : Ordered table) :
    ofList table = table := by
  have hfold : ∀ rest done : List (String × α), Ordered (done ++ rest) →
      rest.foldl (fun table entry => insert entry.1 entry.2 table) done = done ++ rest := by
    intro rest
    induction rest with
    | nil => exact fun done _ => (List.append_nil done).symm
    | cons entry rest ih =>
      intro done hord
      have hlast : ∀ e ∈ done, e.1 < entry.1 := fun e he =>
        (List.pairwise_append.mp hord).2.2 e he entry List.mem_cons_self
      rw [List.foldl_cons, insert_last hlast, ih _ (by rwa [List.append_assoc]),
        List.append_assoc]
      rfl
  exact hfold table [] h

theorem insert_mapValues (f : α → β) (key : String) (value : α) (table : List (String × α)) :
    insert key (f value) (mapValues f table) = mapValues f (insert key value table) := by
  induction table with
  | nil => rfl
  | cons entry rest ih =>
    obtain ⟨k, a⟩ := entry
    show insert key (f value) ((k, f a) :: mapValues f rest) = _
    rw [insert, insert, ih]
    split
    · rfl
    · split <;> rfl

theorem ofList_mapValues (f : α → β) (entries : List (String × α)) :
    ofList (mapValues f entries) = mapValues f (ofList entries) := by
  have hfold : ∀ done : List (String × α),
      (mapValues f entries).foldl (fun table entry => insert entry.1 entry.2 table)
          (mapValues f done)
        = mapValues f (entries.foldl (fun table entry => insert entry.1 entry.2 table) done) := by
    induction entries with
    | nil => exact fun _ => rfl
    | cons entry rest ih =>
      intro done
      refine Eq.trans ?_ (ih (insert entry.1 entry.2 done))
      rw [← insert_mapValues]
      rfl
  exact hfold []

theorem length_insert_le (key : String) (value : α) (table : List (String × α)) :
    (insert key value table).length ≤ table.length + 1 := by
  induction table with
  | nil => exact Nat.le_refl 1
  | cons head rest ih =>
    obtain ⟨k, a⟩ := head
    rw [insert]
    split
    · exact Nat.le_refl _
    · split
      · exact Nat.le_succ _
      · exact Nat.succ_le_succ ih

theorem contains_of_mem {table : List (String × α)} {entry : String × α} (h : entry ∈ table) :
    contains entry.1 table = true := by
  induction table with
  | nil => exact absurd h List.not_mem_nil
  | cons head rest ih =>
    obtain ⟨k, a⟩ := head
    rw [contains, find?]
    by_cases hk : k = entry.1
    · rw [if_pos hk]
      rfl
    · rw [if_neg hk]
      rcases List.mem_cons.mp h with rfl | h
      · exact absurd rfl hk
      · exact ih h

/-- What a table contains is a matter of its keys alone. -/
theorem contains_iff_mem_keys {key : String} {table : List (String × α)} :
    contains key table = true ↔ key ∈ keys table := by
  rw [keys, List.mem_map]
  constructor
  · intro h
    obtain ⟨a, ha⟩ := contains_iff.mp h
    exact ⟨(key, a), mem_of_find? ha, rfl⟩
  · intro h
    obtain ⟨entry, he, rfl⟩ := h
    exact contains_of_mem he

/-- Tables in key order are the same list if they hold the same. -/
theorem ext_find? {a b : List (String × α)} (ha : Ordered a) (hb : Ordered b)
    (h : ∀ key, find? key a = find? key b) : a = b := by
  induction a generalizing b with
  | nil =>
    cases b with
    | nil => rfl
    | cons entry rest =>
      have hfind := h entry.1
      rw [find?, find?, if_pos rfl] at hfind
      cases hfind
  | cons entry rest ih =>
    obtain ⟨k, x⟩ := entry
    have hk := h k
    rw [find?, if_pos rfl] at hk
    cases b with
    | nil => cases hk
    | cons entry' rest' =>
      obtain ⟨j, y⟩ := entry'
      obtain ⟨hlt, hrest⟩ := List.pairwise_cons.mp ha
      obtain ⟨hlt', hrest'⟩ := List.pairwise_cons.mp hb
      -- the least keys agree, for neither table has anything below its first entry
      have hjk : j = k := by
        apply Classical.byContradiction
        intro hne
        have hj := h j
        rw [find?, if_neg hne] at hk
        rw [find?, find?, if_pos rfl, if_neg (Ne.symm hne)] at hj
        have hless : j < k := hlt' _ (mem_of_find? hk.symm)
        exact String.lt_irrefl j (String.lt_trans hless (hlt _ (mem_of_find? hj)))
      subst hjk
      rw [find?, if_pos rfl] at hk
      obtain rfl := Option.some.inj hk
      refine congrArg (List.cons (j, x)) (ih hrest hrest' fun key => ?_)
      by_cases hkey : j = key
      · subst hkey
        rw [find?_eq_none_of_lt hlt, find?_eq_none_of_lt hlt']
      · have hfind := h key
        rwa [find?, find?, if_neg hkey, if_neg hkey] at hfind

/-- Storing what a table holds leaves it as it is. -/
theorem insert_of_find? {key : String} {value : α} {table : List (String × α)}
    (h : Ordered table) (hfind : find? key table = some value) : insert key value table = table := by
  refine ext_find? (ordered_insert h key value) h fun other => ?_
  rw [find?_insert]
  split
  · rename_i hkey
    rw [← hkey, hfind]
  · rfl

theorem erase_sublist (key : String) (table : List (String × α)) :
    (erase key table).Sublist table := by
  induction table with
  | nil => exact List.Sublist.refl []
  | cons entry rest ih =>
    obtain ⟨k, a⟩ := entry
    rw [erase]
    split
    · exact List.sublist_cons_self _ _
    · exact ih.cons_cons _

end Keyed
end FleetMesh
