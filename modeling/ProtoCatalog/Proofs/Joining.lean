import ProtoCatalog.Proofs.FileOrder
import ProtoCatalog.Proofs.Links
import ProtoCatalog.Schema.Annotations

/-!
# Catalogs of two lists of files

Two lists of files are apart if no type is named in both, and no map field of the one has a
message of the other as its type.  Then neither settles anything of the other, and the catalog of
both is that of the one joined with that of the other: files stand behind each other, tables are
united, and a package that both have lists the declarations of both.
-/

namespace ProtoCatalog

/-- A table has the names of two others that share none, each with its value. -/
structure Table.IsDisjointUnion {α : Type} (t front back : Table α) : Prop where
  disjoint : ∀ key ∈ front.keys, key ∉ back.keys
  find? : ∀ key, t.find? key = (front.find? key).or (back.find? key)

/-- A package with the declarations of two, those of the second sorted in behind those of the
first, and with the notes of the first before those of the second. -/
def PackageDoc.join (p q : PackageDoc) : PackageDoc :=
  { name := p.name
    services := sortByName (·.names.full) (p.services ++ q.services)
    messages := sortByName (·.names.full) (p.messages ++ q.messages)
    enums := sortByName (·.names.full) (p.enums ++ q.enums)
    notes := p.notes ++ q.notes }

/-! ## Lists that are apart -/

namespace FileDecl

/-- The full names of the messages and enumerations of some files. -/
def typeNames (files : List FileDecl) : List String := messageNames files ++ enumNames files

/-- The full names that the map fields of some files have as their types. -/
def mapTypeNames (files : List FileDecl) : List String :=
  files.flatMap fun f => f.allMessages.flatMap fun m =>
    (m.decl.fields.filter fun d =>
      looksLikeMap (d.shownLabel f.isProto3) (d.typeNames f.package)).map fun d =>
        (d.typeNames f.package).full

/-- No type is named in both lists, and no map field of one has a message of the other as its
type. -/
structure Apart (front back : List FileDecl) : Prop where
  names : ∀ name ∈ typeNames front, name ∉ typeNames back
  mapsOfFront : ∀ name ∈ mapTypeNames front, name ∉ messageNames back
  mapsOfBack : ∀ name ∈ mapTypeNames back, name ∉ messageNames front

theorem mem_messageNames {files : List FileDecl} {name : String} :
    name ∈ messageNames files ↔ ∃ f ∈ files, f.DeclaresMessage name := by
  simp only [messageNames, List.mem_flatMap, List.mem_map, mem_allMessages, DeclaresMessage]
  constructor
  · rintro ⟨f, hf, m, ⟨s, hs⟩, hname⟩
    exact ⟨f, hf, s, m, hs, hname⟩
  · rintro ⟨f, hf, s, m, hs, hname⟩
    exact ⟨f, hf, m, ⟨s, hs⟩, hname⟩

theorem mem_enumNames {files : List FileDecl} {name : String} :
    name ∈ enumNames files ↔ ∃ f ∈ files, f.DeclaresEnum name := by
  simp only [enumNames, List.mem_flatMap, List.mem_map, mem_allEnums, DeclaresEnum]
  constructor
  · rintro ⟨f, hf, e, ⟨s, hs⟩, hname⟩
    exact ⟨f, hf, s, e, hs, hname⟩
  · rintro ⟨f, hf, s, e, hs, hname⟩
    exact ⟨f, hf, e, ⟨s, hs⟩, hname⟩

theorem mem_typeNames {files : List FileDecl} {name : String} :
    name ∈ typeNames files ↔ ∃ f ∈ files, f.DeclaresName name := by
  simp only [typeNames, List.mem_append, mem_messageNames, mem_enumNames, DeclaresName, and_or_left,
    exists_or]

theorem mem_mapTypeNames [DescriptorPool] {registry : Option Registry} {files : List FileDecl}
    {docs : List FileDoc}
    (h : List.Forall₂ (fun f d ↦ f.document registry = .ok d) files docs) {name : String} :
    name ∈ mapTypeNames files ↔ name ∈ Catalog.mapTypes docs := by
  rw [Catalog.mem_mapTypes h]
  simp only [mapTypeNames, List.mem_flatMap, List.mem_map, List.mem_filter, mem_allMessages,
    and_assoc]
  constructor
  · rintro ⟨f, hf, m, ⟨s, hs⟩, d, hd, hmap, hname⟩
    exact ⟨f, hf, s, m, hs, d, hd, hmap, hname⟩
  · rintro ⟨f, hf, s, m, hs, d, hd, hmap, hname⟩
    exact ⟨f, hf, m, ⟨s, hs⟩, d, hd, hmap, hname⟩

end FileDecl

namespace Catalog

/-! ## Names and tables of both lists -/

section Tables

variable {front back : List FileDoc} {name : String}

theorem allNames_append (front back : List FileDoc) :
    allNames (front ++ back) = allNames front ++ allNames back := List.flatMap_append

theorem mapTypes_append (front back : List FileDoc) :
    mapTypes (front ++ back) = mapTypes front ++ mapTypes back := List.flatMap_append

theorem mem_keys_messageTable_iff_mem_allNames :
    name ∈ (messageTable front).keys ↔ name ∈ allNames front := by
  rw [mem_keys_messageTable, allNames, List.mem_flatMap]
  simp only [hasMessage_iff]

theorem find?_messageTable_eq_none (h : name ∉ allNames front) :
    (messageTable front).find? name = none :=
  Table.find?_eq_none_iff.mpr (mt mem_keys_messageTable_iff_mem_allNames.mp h)

theorem find?_messageTable_append (front back : List FileDoc) (name : String) :
    (messageTable (front ++ back)).find? name =
      ((messageTable back).find? name).or ((messageTable front).find? name) := by
  rw [messageTable, List.flatMap_append]
  exact Table.find?_ofList_append _ _ name

end Tables

/-! ## Settling both lists -/

section Settling

variable {table table' : Table MessageDoc} {entries entries' later later' : List String}

-- A message is resolved by what a table has for the types of its map fields.
theorem resolveMessage_congr {m : MessageDoc} (h : ∀ f ∈ m.allFields, f.isMap = true →
    table.find? f.type.full = table'.find? f.type.full) :
    resolveMessage table m = resolveMessage table' m := by
  have hfield : ∀ f ∈ m.allFields, resolveField table f = resolveField table' f := by
    intro f hf
    unfold resolveField
    split
    · rename_i hmap
      rw [h f hf hmap]
    · rfl
  have hplain : m.fields.map (resolveField table) = m.fields.map (resolveField table') :=
    List.map_congr_left fun f hf ↦ hfield f (List.mem_append_left _ hf)
  have honeofs : m.oneofs.map (fun o ↦ { o with fields := o.fields.map (resolveField table) }) =
      m.oneofs.map fun o ↦ { o with fields := o.fields.map (resolveField table') } := by
    apply List.map_congr_left
    intro o ho
    have hmembers : o.fields.map (resolveField table) = o.fields.map (resolveField table') :=
      List.map_congr_left fun f hf ↦
        hfield f (List.mem_append_right _ (List.mem_flatMap.mpr ⟨o, ho, hf⟩))
    rw [hmembers]
  rw [resolveMessage, resolveMessage, hplain, honeofs]

-- A message is marked by what stands of its own name among the others.
theorem markInternal_congr {ms : List MessageDoc}
    (hentries : ∀ m ∈ ms, entries.contains m.names.full = entries'.contains m.names.full)
    (hlater : ∀ m ∈ ms, later.contains m.names.full = later'.contains m.names.full) :
    markInternal entries later ms = markInternal entries' later' ms := by
  induction ms with
  | nil => rfl
  | cons m rest ih =>
    rw [List.forall_mem_cons] at hentries hlater
    rw [markInternal, markInternal, hentries.1, hlater.1, ih hentries.2 hlater.2]

-- The messages of one file: two tables resolve them alike if they have the same for its map fields.
theorem map_resolveMessage_congr {f : FileDoc}
    (h : ∀ name ∈ mapTypes [f], table.find? name = table'.find? name) :
    f.messages.map (resolveMessage table) = f.messages.map (resolveMessage table') := by
  apply List.map_congr_left
  intro m hm
  apply resolveMessage_congr
  intro x hx hmap
  apply h
  refine List.mem_append_left _ (List.mem_flatMap.mpr ⟨m, hm, ?_⟩)
  exact List.mem_map_of_mem (List.mem_filter.mpr ⟨hx, hmap⟩)

theorem contains_allNames_append {front back : List FileDoc} {name : String}
    (h : name ∉ allNames back) :
    (allNames (front ++ back)).contains name = (allNames front).contains name := by
  have hback : (allNames back).contains name = false := by simpa using h
  rw [allNames_append, List.contains_append, hback, Bool.or_false]

/-- Files are settled alike before others and by themselves, through tables that have the same for
them, if none of the others has a message with a name of theirs. -/
theorem settleFiles_append {front back : List FileDoc}
    (htable : ∀ name ∈ mapTypes front, table.find? name = table'.find? name)
    (hentries : ∀ name ∈ allNames front, entries.contains name = entries'.contains name)
    (hnames : ∀ name ∈ allNames front, name ∉ allNames back) :
    settleFiles table entries (front ++ back) =
      settleFiles table' entries' front ++ settleFiles table entries back := by
  induction front with
  | nil => rfl
  | cons f rest ih =>
    -- What holds of the names of all holds of those of the first file and of the others.
    rw [← List.singleton_append, mapTypes_append, List.forall_mem_append] at htable
    rw [← List.singleton_append, allNames_append, List.forall_mem_append] at hentries hnames
    have hown : ∀ m ∈ f.messages, m.names.full ∈ allNames [f] :=
      fun m hm ↦ List.mem_append_left _ (List.mem_map_of_mem hm)
    have hmarked : markInternal entries (allNames (rest ++ back))
        (f.messages.map (resolveMessage table')) =
          markInternal entries' (allNames rest) (f.messages.map (resolveMessage table')) := by
      apply markInternal_congr <;> rw [List.forall_mem_map]
      · exact fun m hm ↦ hentries.1 _ (hown m hm)
      · exact fun m hm ↦ contains_allNames_append (hnames.1 _ (hown m hm))
    rw [List.cons_append, settleFiles, settleFiles, ih htable.2 hentries.2 hnames.2,
      map_resolveMessage_congr htable.1]
    show { f with messages := markInternal entries (allNames (rest ++ back)) _ } :: _ = _
    rw [hmarked]
    rfl

/-- Neither of two lists settles anything of the other. -/
theorem settle_append {front back : List FileDoc}
    (hnames : ∀ name ∈ allNames front, name ∉ allNames back)
    (hfront : ∀ name ∈ mapTypes front, name ∉ allNames back)
    (hback : ∀ name ∈ mapTypes back, name ∉ allNames front) :
    settle (front ++ back) = settle front ++ settle back := by
  have hstart : settleFiles (messageTable (front ++ back)) (mapTypes (front ++ back))
      (front ++ back) = settle front ++
        settleFiles (messageTable (front ++ back)) (mapTypes (front ++ back)) back := by
    refine settleFiles_append (fun name hn ↦ ?_) (fun name hn ↦ ?_) hnames
    · rw [find?_messageTable_append, find?_messageTable_eq_none (hfront name hn), Option.none_or]
    · rw [mapTypes_append, List.contains_append, Bool.or_eq_left_iff_imp]
      intro hmap
      exact absurd hn (hback name (List.contains_iff_mem.mp hmap))
  have hend : settleFiles (messageTable (front ++ back)) (mapTypes (front ++ back)) (back ++ []) =
      settle back ++ [] := by
    refine settleFiles_append (fun name hn ↦ ?_) (fun name hn ↦ ?_) fun _ _ ↦ List.not_mem_nil
    · rw [find?_messageTable_append, find?_messageTable_eq_none (hback name hn), Option.or_none]
    · rw [mapTypes_append, List.contains_append, Bool.or_eq_right_iff_imp]
      intro hmap
      exact absurd hn (hfront name (List.contains_iff_mem.mp hmap))
  rw [List.append_nil, List.append_nil] at hend
  rw [settle, hstart, hend]

end Settling

/-! ## Tables of both lists -/

section Unions

variable {front back : List FileDoc} {name : String}

-- Links are told by the files that have their names.
theorem find?_links_congr {xs ys : List FileDoc}
    (h : ∀ f, HasName f name → (f ∈ xs ↔ f ∈ ys)) :
    (assemble xs).links.find? name = (assemble ys).links.find? name := by
  apply Option.ext
  intro l
  rw [find?_links_iff, find?_links_iff]
  constructor
  · rintro ⟨f, hf, hn, hl, hmax⟩
    exact ⟨f, (h f hn).mp hf, hn, hl, fun g hg hgn ↦ hmax g ((h g hgn).mpr hg) hgn⟩
  · rintro ⟨f, hf, hn, hl, hmax⟩
    exact ⟨f, (h f hn).mpr hf, hn, hl, fun g hg hgn ↦ hmax g ((h g hgn).mp hg) hgn⟩

theorem find?_links_append_left {back : List FileDoc} (front : List FileDoc)
    (h : ∀ g ∈ back, ¬HasName g name) :
    (assemble (front ++ back)).links.find? name = (assemble front).links.find? name := by
  apply find?_links_congr
  intro g hgn
  rw [List.mem_append, or_iff_left fun hg ↦ h g hg hgn]

theorem find?_links_append_right {front : List FileDoc} (back : List FileDoc)
    (h : ∀ f ∈ front, ¬HasName f name) :
    (assemble (front ++ back)).links.find? name = (assemble back).links.find? name := by
  apply find?_links_congr
  intro f hfn
  rw [List.mem_append, or_iff_right fun hf ↦ h f hf hfn]

theorem links_append (h : ∀ f ∈ front, ∀ g ∈ back, ∀ name, HasName f name → ¬HasName g name) :
    (assemble (front ++ back)).links.IsDisjointUnion (assemble front).links
      (assemble back).links := by
  constructor
  · intro name hf hb
    obtain ⟨f, hf, hfn⟩ := mem_keys_links.mp hf
    obtain ⟨g, hg, hgn⟩ := mem_keys_links.mp hb
    exact h f hf g hg name hfn hgn
  · intro name
    by_cases hin : name ∈ (assemble front).links.keys
    · obtain ⟨f, hf, hfn⟩ := mem_keys_links.mp hin
      obtain ⟨l, hl⟩ := Table.mem_keys_iff.mp hin
      rw [find?_links_append_left front fun g hg ↦ h f hf g hg name hfn, hl, Option.some_or]
    · have hnone : ∀ f ∈ front, ¬HasName f name :=
        fun f hf hfn ↦ hin (mem_keys_links.mpr ⟨f, hf, hfn⟩)
      rw [find?_links_append_right back hnone, Table.find?_eq_none_iff.mpr hin, Option.none_or]

theorem messageTable_append (h : ∀ name ∈ allNames front, name ∉ allNames back) :
    (messageTable (front ++ back)).IsDisjointUnion (messageTable front) (messageTable back) := by
  simp only [← mem_keys_messageTable_iff_mem_allNames] at h
  refine ⟨h, fun name ↦ ?_⟩
  rw [find?_messageTable_append]
  by_cases hin : name ∈ (messageTable front).keys
  · rw [Table.find?_eq_none_iff.mpr (h name hin), Option.none_or, Option.or_none]
  · rw [Table.find?_eq_none_iff.mpr hin, Option.none_or, Option.or_none]

end Unions

/-! ## Packages of both lists -/

section Packages

variable {front back : List FileDoc} {name : String}

/-- The package with a name, as a catalog shows it. -/
def packageOf (files : List FileDoc) (name : String) : PackageDoc :=
  { gather files name with messages := listed (gather files name).messages }

theorem package?_eq (files : List FileDoc) (name : String) :
    (assemble files).package? name =
      if ∃ f ∈ files, f.package = name then some (packageOf files name) else none := by
  split
  · rename_i h
    obtain ⟨f, hf, rfl⟩ := h
    exact package?_assemble hf
  · rename_i h
    apply List.find?_eq_none.mpr
    intro p hp hname
    obtain ⟨q, hq, rfl⟩ := List.mem_map.mp hp
    obtain ⟨n, hn, rfl⟩ := List.mem_map.mp hq
    rw [← beq_iff_eq.mp hname] at h
    exact h (mem_packageNames.mp hn)

-- Files that are all in other packages add nothing.
theorem packageOf_append_left {back : List FileDoc} (front : List FileDoc)
    (h : ¬∃ f ∈ back, f.package = name) :
    packageOf (front ++ back) name = packageOf front name := by
  have hback : back.filter (·.package == name) = [] := by simpa using h
  rw [packageOf, packageOf, gather, gather, List.filter_append, hback, List.append_nil]

theorem packageOf_append_right {front : List FileDoc} (back : List FileDoc)
    (h : ¬∃ f ∈ front, f.package = name) :
    packageOf (front ++ back) name = packageOf back name := by
  have hfront : front.filter (·.package == name) = [] := by simpa using h
  rw [packageOf, packageOf, gather, gather, List.filter_append, hfront, List.nil_append]

theorem sortByName_append {α : Type} (name : α → String) (xs ys : List α) :
    sortByName name (xs ++ ys) = sortByName name (sortByName name xs ++ sortByName name ys) :=
  (stableSort_sortByName name (xs ++ ys)).unique
    ((stableSort_sortByName name xs).append (stableSort_sortByName name ys))

-- What is not internal can be picked before the lists are sorted together.
theorem listed_sortByName_append (xs ys : List MessageDoc) :
    listed (sortByName (·.names.full) (xs ++ ys)) =
      sortByName (·.names.full) (listed (sortByName (·.names.full) xs) ++
        listed (sortByName (·.names.full) ys)) := by
  have hboth := (stableSort_sortByName (·.names.full) (xs ++ ys)).filter (!·.internal)
  have hfront := (stableSort_sortByName (·.names.full) xs).filter (!·.internal)
  have hback := (stableSort_sortByName (·.names.full) ys).filter (!·.internal)
  rw [List.filter_append] at hboth
  exact hboth.unique (hfront.append hback)

theorem packageOf_append (front back : List FileDoc) (name : String) :
    packageOf (front ++ back) name = (packageOf front name).join (packageOf back name) := by
  simp only [packageOf, gather, PackageDoc.join, PackageDoc.mk.injEq, List.filter_append,
    List.flatMap_append, true_and]
  refine ⟨?_, ?_, ?_, ?_⟩
  · exact sortByName_append _ _ _
  · exact listed_sortByName_append _ _
  · exact sortByName_append _ _ _
  · exact List.filterMap_append

/-- A package that both lists have is joined, and one of only one list stays as it is there. -/
theorem package?_append (front back : List FileDoc) (name : String) :
    (assemble (front ++ back)).package? name =
      Option.merge PackageDoc.join ((assemble front).package? name)
        ((assemble back).package? name) := by
  rw [package?_eq, package?_eq, package?_eq]
  simp only [List.mem_append, or_and_right, exists_or]
  by_cases hfront : ∃ f ∈ front, f.package = name
  · by_cases hback : ∃ f ∈ back, f.package = name
    · rw [if_pos (.inl hfront), if_pos hfront, if_pos hback, packageOf_append]
      rfl
    · rw [if_pos (.inl hfront), if_pos hfront, if_neg hback, packageOf_append_left front hback]
      rfl
  · by_cases hback : ∃ f ∈ back, f.package = name
    · rw [if_pos (.inr hback), if_neg hfront, if_pos hback, packageOf_append_right back hfront]
      rfl
    · rw [if_neg (not_or.mpr ⟨hfront, hback⟩), if_neg hfront, if_neg hback]
      rfl

end Packages

/-! ## The catalog of both lists -/

/-- A catalog that is put together from two. -/
structure IsJoin (c front back : Catalog) : Prop where
  files : c.files = front.files ++ back.files
  links : c.links.IsDisjointUnion front.links back.links
  messages : c.messages.IsDisjointUnion front.messages back.messages
  packageNames : (c.packages.map (·.name)).Pairwise (· < ·)
  packages : ∀ name, c.package? name =
    Option.merge PackageDoc.join (front.package? name) (back.package? name)

section Apart

variable [DescriptorPool] {registry : Option Registry} {front back : List FileDecl}
    {fronts backs : List FileDoc}

-- The names that links are told by are those of the types, and settling keeps them.
theorem exists_hasName_iff {settled : List FileDoc} {name : String}
    (h : List.Forall₂ (fun f d ↦ f.document registry = .ok d) front fronts)
    (hs : Settlement fronts settled) :
    (∃ f ∈ settled, HasName f name) ↔ name ∈ FileDecl.typeNames front := by
  rw [FileDecl.mem_typeNames]
  exact exists_mem_iff_of_forall₂ (forall₂_sameNames h hs) fun f s hfs ↦ hfs.all name

theorem not_hasName_of_apart (h : FileDecl.Apart front back)
    {settledFront settledBack : List FileDoc}
    (hfronts : List.Forall₂ (fun f d ↦ f.document registry = .ok d) front fronts)
    (hbacks : List.Forall₂ (fun f d ↦ f.document registry = .ok d) back backs)
    (hf : Settlement fronts settledFront) (hb : Settlement backs settledBack) :
    ∀ f ∈ settledFront, ∀ g ∈ settledBack, ∀ name, HasName f name → ¬HasName g name := by
  intro f hf' g hg' name hfn hgn
  exact h.names name ((exists_hasName_iff hfronts hf).mp ⟨f, hf', hfn⟩)
    ((exists_hasName_iff hbacks hb).mp ⟨g, hg', hgn⟩)

theorem settle_append_of_apart (h : FileDecl.Apart front back)
    (hfronts : List.Forall₂ (fun f d ↦ f.document registry = .ok d) front fronts)
    (hbacks : List.Forall₂ (fun f d ↦ f.document registry = .ok d) back backs) :
    settle (fronts ++ backs) = settle fronts ++ settle backs := by
  have hfrontNames : ∀ name, name ∈ allNames fronts ↔ name ∈ FileDecl.messageNames front :=
    fun name ↦ (allNames_perm hfronts).mem_iff
  have hbackNames : ∀ name, name ∈ allNames backs ↔ name ∈ FileDecl.messageNames back :=
    fun name ↦ (allNames_perm hbacks).mem_iff
  apply settle_append
  · intro name hf hb
    exact h.names name (List.mem_append_left _ ((hfrontNames name).mp hf))
      (List.mem_append_left _ ((hbackNames name).mp hb))
  · intro name hf hb
    exact h.mapsOfFront name ((FileDecl.mem_mapTypeNames hfronts).mpr hf)
      ((hbackNames name).mp hb)
  · intro name hb hf
    exact h.mapsOfBack name ((FileDecl.mem_mapTypeNames hbacks).mpr hb)
      ((hfrontNames name).mp hf)

end Apart

/-- Catalogs compose.  The files of two lists that are apart, each accepted, are accepted together,
and their catalog is that of the one joined with that of the other. -/
theorem build_append [DescriptorPool] {registry : Option Registry} {front back : List FileDecl}
    {a b : Catalog} (ha : build registry front = .ok a) (hb : build registry back = .ok b)
    (h : FileDecl.Apart front back) :
    ∃ c, build registry (front ++ back) = .ok c ∧ c.IsJoin a b := by
  obtain ⟨fronts, hfronts, -, hfrontSettled, rfl⟩ := exists_settlement ha
  obtain ⟨backs, hbacks, -, hbackSettled, rfl⟩ := exists_settlement hb
  have hnames := not_hasName_of_apart h hfronts hbacks hfrontSettled hbackSettled
  have hbuild : build registry (front ++ back) = .ok (assemble (settle fronts ++ settle backs)) :=
    build_eq_ok.mpr ⟨fronts ++ backs, List.rel_append hfronts hbacks,
      by rw [settle_append_of_apart h hfronts hbacks]⟩
  refine ⟨_, hbuild, ?_, ?_, ?_, ?_, ?_⟩
  · exact List.map_append
  · exact links_append hnames
  · apply messageTable_append
    intro name hf hb
    simp only [← mem_keys_messageTable_iff_mem_allNames, mem_keys_messageTable] at hf hb
    obtain ⟨f, hf, hfn⟩ := hf
    obtain ⟨g, hg, hgn⟩ := hb
    exact hnames f hf g hg name (.inl hfn) (.inl hgn)
  · rw [map_name_packages]
    exact pairwise_packageNames _
  · exact package?_append _ _

/-! ## Two files of one package -/

attribute [local instance] Annotations.pool

/-- A file with a map field and another one are apart, and what each has of their package is
joined. -/
theorem build_append_shop : ∃ a b c p q, build none [labelsFile "shop"] = .ok a ∧
    build none [cartFile] = .ok b ∧ build none [labelsFile "shop", cartFile] = .ok c ∧
    c.IsJoin a b ∧ a.package? "shop" = some p ∧ b.package? "shop" = some q ∧
    c.package? "shop" = some (p.join q) := by
  obtain ⟨a, ha, hp⟩ : ∃ a, build none [labelsFile "shop"] = .ok a ∧
      (a.package? "shop").isSome = true := exists_ok (by decide +kernel)
  obtain ⟨b, hb, hq⟩ : ∃ b, build none [cartFile] = .ok b ∧
      (b.package? "shop").isSome = true := exists_ok (by decide +kernel)
  obtain ⟨p, hp⟩ := Option.isSome_iff_exists.mp hp
  obtain ⟨q, hq⟩ := Option.isSome_iff_exists.mp hq
  have hapart : FileDecl.Apart [labelsFile "shop"] [cartFile] :=
    ⟨by decide +kernel, by decide +kernel, by decide +kernel⟩
  obtain ⟨c, hc, hjoin⟩ := build_append ha hb hapart
  have hjoined := hjoin.packages "shop"
  rw [hp, hq] at hjoined
  exact ⟨a, b, c, p, q, ha, hb, hc, hjoin, hp, hq, hjoined⟩

end Catalog
end ProtoCatalog
