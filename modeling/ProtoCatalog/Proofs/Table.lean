import ProtoCatalog.Proofs.Keys
import ProtoCatalog.Table

/-!
# Looking names up in tables

What a table finds after many entries are put into it: with replacement the last value of a name,
without replacement the first.  A table is known by its names and by what it finds, so joining
tables is associative.
-/

namespace ProtoCatalog.Table

variable {α : Type}

theorem contains_eq_isSome (t : Table α) (key : String) :
    t.contains key = (t.find? key).isSome := by
  rw [Bool.eq_iff_iff, contains_iff, find?, Option.isSome_map, List.find?_isSome, keys]
  simp [List.mem_map]

theorem find?_empty (key : String) : (empty : Table α).find? key = none := rfl

-- The names of a table are those that have a value.
theorem mem_keys_iff {t : Table α} {key : String} : key ∈ t.keys ↔ ∃ v, t.find? key = some v := by
  rw [← contains_iff, contains_eq_isSome, Option.isSome_iff_exists]

theorem find?_eq_none_iff {t : Table α} {key : String} : t.find? key = none ↔ key ∉ t.keys := by
  rw [mem_keys_iff, Option.eq_none_iff_forall_ne_some, not_exists]

theorem nodup_keys (t : Table α) : t.keys.Nodup := t.distinct

theorem eraseDups_keys (t : Table α) : t.keys.eraseDups = t.keys :=
  Keys.eraseDups_of_nodup t.nodup_keys

-- The names of a table and one more, which may be among them.
theorem eraseDups_keys_append (t : Table α) (key : String) :
    (t.keys ++ [key]).eraseDups = if t.contains key then t.keys else t.keys ++ [key] := by
  rw [List.eraseDups_append, eraseDups_keys, List.removeAll, List.filter_singleton]
  by_cases h : key ∈ t.keys
  · simp [contains, h]
  · simp [contains, h, Keys.eraseDups_of_nodup (List.nodup_singleton key)]

theorem isEmpty_iff {t : Table α} : t.isEmpty = true ↔ t.keys = [] := by
  rw [isEmpty, keys, List.isEmpty_iff, List.map_eq_nil_iff]

-- Where each entry adds its name if it is new, names stay in the order in which they first come.
theorem keys_foldl {put : Table α → String × α → Table α}
    (hput : ∀ t e, (put t e).keys = (t.keys ++ [e.1]).eraseDups) (t : Table α)
    (entries : List (String × α)) :
    (entries.foldl put t).keys = (t.keys ++ entries.map (·.1)).eraseDups := by
  induction entries generalizing t with
  | nil => rw [List.foldl_nil, List.map_nil, List.append_nil, eraseDups_keys]
  | cons e rest ih =>
    rw [List.foldl_cons, ih, hput, Keys.eraseDups_eraseDups_append, List.append_assoc]
    rfl

/-! ## Replacing -/

theorem find?_foldl_insert (t : Table α) (entries : List (String × α)) (key : String) :
    (entries.foldl (fun t e ↦ t.insert e.1 e.2) t).find? key =
      ((entries.filter (·.1 == key)).getLast?.map (·.2)).or (t.find? key) := by
  -- The table is any, as it grows from entry to entry; later entries go before it.
  induction entries generalizing t with
  | nil => rfl
  | cons e rest ih =>
    rw [List.foldl_cons, ih, find?_insert, List.filter_cons]
    by_cases hk : key = e.1
    · rw [if_pos hk, if_pos (beq_iff_eq.mpr hk.symm), List.getLast?_cons]
      cases (rest.filter (·.1 == key)).getLast? <;> rfl
    · rw [if_neg hk, if_neg (fun h ↦ hk (beq_iff_eq.mp h).symm)]

/-- Names stay in the order in which they first come. -/
theorem keys_ofList (entries : List (String × α)) :
    (ofList entries).keys = (entries.map (·.1)).eraseDups := by
  have hput : ∀ (t : Table α) (e : String × α),
      (t.insert e.1 e.2).keys = (t.keys ++ [e.1]).eraseDups := by
    intro t e
    rw [keys_insert, eraseDups_keys_append]
  exact keys_foldl hput empty entries

/-- The last entry with a name gives its value. -/
theorem find?_ofList (entries : List (String × α)) (key : String) :
    (ofList entries).find? key = (entries.filter (·.1 == key)).getLast?.map (·.2) := by
  rw [ofList, find?_foldl_insert, find?_empty, Option.or_none]

theorem find?_ofList_append (front back : List (String × α)) (key : String) :
    (ofList (front ++ back)).find? key =
      ((ofList back).find? key).or ((ofList front).find? key) := by
  rw [find?_ofList, find?_ofList, find?_ofList, List.filter_append, List.getLast?_append,
    Option.map_or]

-- Entries that are made of other things: the last of these with the name gives the value.
theorem find?_ofList_map {β : Type} (name : β → String) (value : β → α) (l : List β)
    (key : String) : (ofList (l.map fun b ↦ (name b, value b))).find? key =
      (l.filter (name · == key)).getLast?.map value := by
  rw [find?_ofList, List.filter_map, List.getLast?_map, Option.map_map]
  rfl

/-- Where entries come in order, the value of a name is that of the greatest of its entries. -/
theorem find?_ofList_of_pairwise {R : String × α → String × α → Prop}
    {entries : List (String × α)} (hR : entries.Pairwise R) {key : String} {value : α}
    (h : (ofList entries).find? key = some value) :
    (key, value) ∈ entries ∧ ∀ e ∈ entries, e.1 = key → e = (key, value) ∨ R e (key, value) := by
  rw [find?_ofList] at h
  obtain ⟨last, hlast, rfl⟩ := Option.map_eq_some_iff.mp h
  obtain ⟨front, hfront⟩ := List.getLast?_eq_some_iff.mp hlast
  obtain ⟨hin, hk⟩ := List.mem_filter.mp (List.mem_of_getLast? hlast)
  obtain rfl : last.1 = key := beq_iff_eq.mp hk
  have hpair := hR.filter (·.1 == last.1)
  rw [hfront, List.pairwise_append] at hpair
  refine ⟨hin, fun e he hek ↦ ?_⟩
  have hmem : e ∈ front ++ [last] := hfront ▸ List.mem_filter.mpr ⟨he, beq_iff_eq.mpr hek⟩
  rcases List.mem_append.mp hmem with hf | hl
  · exact .inr (hpair.2.2 e hf last List.mem_cons_self)
  · exact .inl (List.mem_singleton.mp hl)

theorem mem_keys_ofList {entries : List (String × α)} {key : String} :
    key ∈ (ofList entries).keys ↔ key ∈ entries.map (·.1) := by
  rw [mem_keys_iff, find?_ofList, ← Option.isSome_iff_exists, Option.isSome_map,
    List.getLast?_isSome, ne_eq, List.filter_eq_nil_iff, List.mem_map]
  simp only [beq_iff_eq, not_forall, not_not, exists_prop]

theorem find?_ofList_last {front rest : List (String × α)} {key : String} {value : α}
    (h : ∀ e ∈ rest, e.1 ≠ key) :
    (ofList (front ++ (key, value) :: rest)).find? key = some value := by
  have hrest : rest.filter (·.1 == key) = [] := by
    apply List.filter_eq_nil_iff.mpr
    intro e he hk
    exact h e he (beq_iff_eq.mp hk)
  rw [find?_ofList, List.filter_append, List.filter_cons, if_pos (beq_iff_eq.mpr rfl), hrest,
    List.getLast?_append]
  rfl

theorem mem_of_find?_ofList {entries : List (String × α)} {key : String} {value : α}
    (h : (ofList entries).find? key = some value) : (key, value) ∈ entries := by
  rw [find?_ofList] at h
  obtain ⟨e, he, rfl⟩ := Option.map_eq_some_iff.mp h
  obtain ⟨hin, hk⟩ := List.mem_filter.mp (List.mem_of_getLast? he)
  rw [← beq_iff_eq.mp hk]
  exact hin

-- Where no two entries have one name, each gives the value of its name.
theorem find?_ofList_of_mem {entries : List (String × α)} {key : String} {value : α}
    (hd : (entries.map (·.1)).Nodup) (h : (key, value) ∈ entries) :
    (ofList entries).find? key = some value := by
  rw [find?_ofList, Keys.filter_eq_singleton hd h]
  rfl

-- And then the order of the entries does not matter.
theorem find?_ofList_perm {entries entries' : List (String × α)} (hd : (entries.map (·.1)).Nodup)
    (hp : entries'.Perm entries) (key : String) :
    (ofList entries').find? key = (ofList entries).find? key := by
  apply Option.ext
  intro v
  constructor
  · intro hv
    exact find?_ofList_of_mem hd (hp.mem_iff.mp (mem_of_find?_ofList hv))
  · intro hv
    exact find?_ofList_of_mem ((hp.map (·.1)).symm.nodup hd)
      (hp.mem_iff.mpr (mem_of_find?_ofList hv))

/-! ## Keeping -/

theorem find?_insertNew (t : Table α) (key k : String) (value : α) :
    (t.insertNew key value).find? k = (t.find? k).or (if k = key then some value else none) := by
  rw [insertNew, contains_eq_isSome]
  by_cases hk : k = key
  · subst hk
    cases ht : t.find? k with
    | none => rw [if_neg (by simp), find?_insert, if_pos rfl]; simp
    | some v => rw [if_pos (by simp), ht]; simp
  · rw [if_neg hk, Option.or_none]
    split
    · rfl
    · rw [find?_insert, if_neg hk]

theorem find?_foldl_insertNew (t : Table α) (entries : List (String × α)) (key : String) :
    (entries.foldl (fun t e ↦ t.insertNew e.1 e.2) t).find? key =
      (t.find? key).or ((entries.find? (·.1 == key)).map (·.2)) := by
  induction entries generalizing t with
  | nil => rw [List.foldl_nil, List.find?_nil, Option.map_none, Option.or_none]
  | cons e rest ih =>
    rw [List.foldl_cons, ih, find?_insertNew, Option.or_assoc, List.find?_cons]
    by_cases hk : key = e.1
    · rw [if_pos hk, beq_iff_eq.mpr hk.symm]
      rfl
    · rw [if_neg hk, show (e.1 == key) = false from beq_eq_false_iff_ne.mpr fun h ↦ hk h.symm]
      rfl

theorem keys_insertNew (t : Table α) (key : String) (value : α) :
    (t.insertNew key value).keys = (t.keys ++ [key]).eraseDups := by
  rw [eraseDups_keys_append, insertNew]
  split
  · rfl
  · rename_i h
    rw [keys_insert, if_neg h]

/-- The names of both tables, each once: those of the first, then those that only the second has. -/
theorem keys_union (s t : Table α) : (s.union t).keys = (s.keys ++ t.keys).eraseDups :=
  keys_foldl (fun s e ↦ keys_insertNew s e.1 e.2) s t.entries

/-- A name that both tables have keeps the value of the first. -/
theorem find?_union (s t : Table α) (key : String) :
    (s.union t).find? key = (s.find? key).or (t.find? key) :=
  find?_foldl_insertNew s t.entries key

/-! ## Joining -/

-- An entry is its name with what is found for it.
theorem entries_eq_filterMap (t : Table α) :
    t.entries = t.keys.filterMap fun key ↦ (t.find? key).map (key, ·) := by
  have hentry : ∀ e ∈ t.entries, (t.find? e.1).map (e.1, ·) = some e := by
    intro e he
    rw [find?, Keys.find?_of_nodup t.distinct he]
    rfl
  rw [keys, List.filterMap_map]
  exact ((List.filterMap_congr hentry).trans List.filterMap_some).symm

/-- A table is known by its names, in their order, and by what it finds. -/
theorem ext_find? {s t : Table α} (hkeys : s.keys = t.keys)
    (hfind : ∀ key, s.find? key = t.find? key) : s = t := by
  apply Table.ext
  rw [entries_eq_filterMap s, entries_eq_filterMap t, hkeys, funext hfind]

theorem union_empty (t : Table α) : t.union empty = t := rfl

theorem empty_union (t : Table α) : empty.union t = t := by
  apply ext_find?
  · rw [keys_union]
    exact t.eraseDups_keys
  · intro key
    rw [find?_union, find?_empty, Option.none_or]

theorem union_assoc (r s t : Table α) : (r.union s).union t = r.union (s.union t) := by
  apply ext_find?
  · rw [keys_union, keys_union, keys_union, keys_union, Keys.eraseDups_eraseDups_append,
      Keys.eraseDups_append_eraseDups, List.append_assoc]
  · intro key
    rw [find?_union, find?_union, find?_union, find?_union, Option.or_assoc]

/-- A table that has all names of another gains nothing from it. -/
theorem union_eq_self {s t : Table α} (h : ∀ key ∈ t.keys, key ∈ s.keys) : s.union t = s := by
  have hnone : (t.keys.filter fun key ↦ !s.keys.contains key) = [] := by
    apply List.filter_eq_nil_iff.mpr
    intro key hkey
    simpa using h key hkey
  apply ext_find?
  · rw [keys_union, Keys.eraseDups_append_of_nodup s.nodup_keys t.nodup_keys, hnone,
      List.append_nil]
  · intro key
    rw [find?_union]
    cases hs : s.find? key with
    | some v => rfl
    | none => rw [Option.none_or, find?_eq_none_iff.mpr (mt (h key) (find?_eq_none_iff.mp hs))]

end ProtoCatalog.Table
