import ProtoCatalog.Options.Map
import ProtoCatalog.Proofs.Table

/-!
# Merging option maps

A merged map has for each name the value of the first source that has it, and its names in the
order in which the sources first have them.  A table is known by just this, so merging is a monoid:
sources can be merged in groups, and those without options do not count.
-/

namespace ProtoCatalog.OptionMap

/-! ## One source -/

/-- The names of options, in their order. -/
def names (m : Option OptionMap) : List String := m.elim [] Table.keys

/-- A source without options: there is no map, or it is empty. -/
def IsVoid (s : Option OptionMap) : Prop := s = none ∨ s = some Table.empty

/-- The options of a source that need not have any. -/
def contents (s : Option OptionMap) : OptionMap := s.getD Table.empty

theorem keys_contents (s : Option OptionMap) : (contents s).keys = names s := by
  cases s <;> rfl

theorem find?_contents (s : Option OptionMap) (key : String) :
    Table.find? (contents s) key = find? s key := by
  cases s <;> rfl

theorem contains_names (s : Option OptionMap) (key : String) :
    (names s).contains key = (find? s key).isSome := by
  rw [← find?_contents, ← Table.contains_eq_isSome, ← keys_contents]
  rfl

theorem names_eq_nil_iff {s : Option OptionMap} : names s = [] ↔ IsVoid s := by
  cases s with
  | none => exact iff_of_true rfl (.inl rfl)
  | some m =>
    have hentries : m.entries = [] ↔ m = Table.empty :=
      ⟨fun h ↦ Table.ext h, congrArg Table.entries⟩
    show m.entries.map (·.1) = [] ↔ some m = none ∨ some m = some Table.empty
    rw [List.map_eq_nil_iff, hentries, Option.some_inj]
    exact (or_iff_right nofun).symm

theorem contents_of_isVoid {s : Option OptionMap} (h : IsVoid s) : contents s = Table.empty := by
  rcases h with rfl | rfl <;> rfl

-- A map is kept, or was empty and nothing of it is lost.
theorem contents_nonempty? (m : OptionMap) : contents (nonempty? m) = m := by
  unfold nonempty?
  split
  · rename_i h
    exact Table.ext (List.isEmpty_iff.mp h).symm
  · rfl

theorem nonempty?_contents (s : Option OptionMap) :
    nonempty? (contents s) = s.filter fun m ↦ !m.isEmpty := by
  cases s with
  | none => rfl
  | some m =>
    rw [contents, Option.getD_some, nonempty?, Option.filter_some]
    cases m.isEmpty <;> rfl

theorem nonempty?_eq_none_iff {m : OptionMap} : nonempty? m = none ↔ m.keys = [] := by
  rw [← Table.isEmpty_iff, nonempty?]
  split
  · rename_i h
    exact iff_of_true rfl h
  · rename_i h
    exact iff_of_false nofun h

theorem find?_nonempty? (m : OptionMap) (name : String) :
    find? (nonempty? m) name = Table.find? m name := by
  rw [← find?_contents, contents_nonempty?]

theorem names_nonempty? (m : OptionMap) : names (nonempty? m) = m.keys := by
  rw [← keys_contents, contents_nonempty?]

/-! ## One source after the other -/

/-- The maps of some sources as one, those in front first. -/
def joined : List (Option OptionMap) → OptionMap
  | [] => Table.empty
  | s :: rest => (contents s).union (joined rest)

-- After each source the table has what was there before, and then what the source adds.
theorem foldl_union (t : OptionMap) (sources : List (Option OptionMap)) :
    sources.foldl (fun m s ↦ m.union (contents s)) t = t.union (joined sources) := by
  induction sources generalizing t with
  | nil => rfl
  | cons s rest ih => rw [List.foldl_cons, ih, joined, Table.union_assoc]

theorem merge_eq (sources : List (Option OptionMap)) :
    merge sources = nonempty? (joined sources) :=
  congrArg nonempty? ((foldl_union Table.empty sources).trans (Table.empty_union _))

theorem joined_append (front back : List (Option OptionMap)) :
    joined (front ++ back) = (joined front).union (joined back) := by
  induction front with
  | nil => exact (Table.empty_union _).symm
  | cons s rest ih => rw [List.cons_append, joined, joined, ih, Table.union_assoc]

theorem contents_merge (sources : List (Option OptionMap)) :
    contents (merge sources) = joined sources := by
  rw [merge_eq, contents_nonempty?]

theorem keys_joined (sources : List (Option OptionMap)) :
    (joined sources).keys = (sources.flatMap names).eraseDups := by
  induction sources with
  | nil => rfl
  | cons s rest ih =>
    rw [joined, Table.keys_union, ih, Keys.eraseDups_append_eraseDups, keys_contents,
      List.flatMap_cons]

theorem find?_joined (sources : List (Option OptionMap)) (key : String) :
    Table.find? (joined sources) key =
      (sources.find? fun s ↦ (names s).contains key).bind (find? · key) := by
  induction sources with
  | nil => rfl
  | cons s rest ih =>
    rw [joined, Table.find?_union, ih, find?_contents, List.find?_cons, contains_names]
    -- The source has a value for the name, or the others decide.
    cases h : find? s key with
    | none => rfl
    | some v => exact h.symm

/-! ## What is merged -/

/-- Merged maps have the names of all of them, in the order in which they first come. -/
theorem names_merge (sources : List (Option OptionMap)) :
    names (merge sources) = (sources.flatMap names).eraseDups := by
  rw [merge_eq, names_nonempty?, keys_joined]

-- There is no map without names: it would be none.
theorem names_ne_nil {sources : List (Option OptionMap)} {m : OptionMap}
    (h : merge sources = some m) : m.keys ≠ [] := by
  unfold merge nonempty? at h
  split at h
  · cases h
  · rename_i hne
    cases h
    exact mt Table.isEmpty_iff.mpr hne

/-- Nothing comes of merging just where no source has a name. -/
theorem merge_eq_none_iff {sources : List (Option OptionMap)} :
    merge sources = none ↔ ∀ s ∈ sources, names s = [] := by
  rw [merge_eq, nonempty?_eq_none_iff, keys_joined, Keys.eraseDups_eq_nil_iff,
    List.flatMap_eq_nil_iff]

/-- Of three maps the first that has a name gives its value. -/
theorem find?_merge (a b c : OptionMap) (name : String) :
    find? (merge [some a, some b, some c]) name =
      (Table.find? a name).or ((Table.find? b name).or (Table.find? c name)) := by
  rw [merge, find?_nonempty?]
  simp only [List.foldl_cons, List.foldl_nil, Option.getD_some, Table.find?_union,
    Table.find?_empty, Option.none_or, Option.or_assoc]

-- Of three sources: the names of the first, then those that are new in the second and the third.
theorem names_merge_three (a b c : OptionMap) : names (merge [some a, some b, some c]) =
    a.keys ++ (b.keys.filter fun key ↦ !a.keys.contains key) ++
      c.keys.filter fun key ↦ !a.keys.contains key && !b.keys.contains key := by
  have hab := Keys.eraseDups_append_of_nodup a.nodup_keys b.nodup_keys
  have hnodup : (a.keys ++ b.keys.filter fun key ↦ !a.keys.contains key).Nodup :=
    hab ▸ Keys.nodup_eraseDups _
  have hflat : [some a, some b, some c].flatMap names = a.keys ++ b.keys ++ c.keys := by
    simp [names]
  rw [names_merge, hflat, ← Keys.eraseDups_eraseDups_append, hab,
    Keys.eraseDups_append_of_nodup hnodup c.nodup_keys]
  congr 1
  apply List.filter_congr
  intro key _
  rw [Bool.eq_iff_iff]
  by_cases ha : key ∈ a.keys <;> simp [ha]

/-! ## Sources in groups -/

theorem merge_group (front group back : List (Option OptionMap)) :
    merge (front ++ merge group :: back) = merge (front ++ group ++ back) := by
  rw [merge_eq, joined_append, joined, contents_merge, merge_eq, joined_append, joined_append,
    Table.union_assoc]

theorem merge_void {s : Option OptionMap} (h : IsVoid s) (front back : List (Option OptionMap)) :
    merge (front ++ s :: back) = merge (front ++ back) := by
  rw [merge_eq, merge_eq, joined_append, joined, contents_of_isVoid h, Table.empty_union,
    joined_append]

/-- A source that was there before adds nothing. -/
theorem merge_again (front middle back : List (Option OptionMap)) (s : Option OptionMap) :
    merge (front ++ s :: middle ++ s :: back) = merge (front ++ s :: middle ++ back) := by
  have hnames : ∀ key ∈ (contents s).keys, key ∈ (joined (front ++ s :: middle)).keys := by
    intro key hkey
    rw [keys_joined, List.mem_eraseDups]
    exact List.mem_flatMap.mpr
      ⟨s, List.mem_append_right front List.mem_cons_self, keys_contents s ▸ hkey⟩
  rw [merge_eq, merge_eq, joined_append, joined, ← Table.union_assoc, Table.union_eq_self hnames,
    ← joined_append]

theorem merge_singleton (s : Option OptionMap) : merge [s] = s.filter fun m ↦ !m.isEmpty := by
  rw [merge_eq, joined, joined, Table.union_empty, nonempty?_contents]

/-- Merging is a monoid in which the sources in front have priority.  Each name has the value of
the first source that has the name, and names come in the order in which the sources, one behind
the other, first have them.  Neighbouring sources can be merged before the others, sources without
options can be put in or left out anywhere, and a source that comes again changes nothing; merged
with itself it stays as it is, unless it is empty.  Nothing comes of merging just where no source
has options. -/
theorem merge_monoid (sources front group back : List (Option OptionMap)) (s : Option OptionMap) :
    (∀ key, find? (merge sources) key =
      (sources.find? fun t ↦ (names t).contains key).bind (find? · key)) ∧
    names (merge sources) = (sources.flatMap names).eraseDups ∧
    merge (front ++ merge group :: back) = merge (front ++ group ++ back) ∧
    (IsVoid s → merge (front ++ s :: back) = merge (front ++ back)) ∧
    merge (front ++ s :: group ++ s :: back) = merge (front ++ s :: group ++ back) ∧
    merge [s, s] = s.filter (fun m ↦ !m.isEmpty) ∧
    (merge sources = none ↔ ∀ t ∈ sources, IsVoid t) := by
  refine ⟨fun key ↦ ?_, names_merge sources, merge_group front group back,
    fun h ↦ merge_void h front back, merge_again front group back s, ?_, ?_⟩
  · rw [merge_eq, find?_nonempty?, find?_joined]
  · rw [← merge_singleton]
    exact merge_again [] [] [] s
  · simp only [merge_eq_none_iff, names_eq_nil_iff]

/-! ## Sources that share names -/

/-- Three maps, each with a name of the next one. -/
def sharing : List (Option OptionMap) :=
  [some (Table.ofList [("deprecated", .bool true)]),
    some (Table.ofList [("deprecated", .str "soon"), ("owner", .str "shop")]),
    some (Table.ofList [("level", .int 2), ("owner", .str "none")])]

/-- The first map that has a name gives its value, the last two maps can be merged before the first,
and a map that is missing between them changes nothing. -/
theorem merge_monoid_sharing :
    names (merge sharing) = ["deprecated", "owner", "level"] ∧
    find? (merge sharing) "owner" = some (.str "shop") ∧
    merge (sharing.take 1 ++ [merge (sharing.drop 1)]) = merge sharing ∧
    IsVoid none ∧ merge (sharing.take 2 ++ none :: sharing.drop 2) = merge sharing ∧
    merge sharing ≠ none := by
  obtain ⟨hvalue, horder, hgroup, -, -, -, hnone⟩ :=
    merge_monoid sharing (sharing.take 1) (sharing.drop 1) [] none
  obtain ⟨-, -, -, hvoid, -⟩ := merge_monoid sharing (sharing.take 2) [] (sharing.drop 2) none
  refine ⟨?_, ?_, hgroup, .inl rfl, hvoid (.inl rfl), ?_⟩
  · rw [horder]
    decide +kernel
  · rw [hvalue]
    decide +kernel
  · rw [ne_eq, hnone]
    exact fun h ↦ absurd (names_eq_nil_iff.mpr (h _ List.mem_cons_self)) (by decide +kernel)

end ProtoCatalog.OptionMap
