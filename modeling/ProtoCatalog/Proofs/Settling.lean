import ProtoCatalog.Catalog.Build
import ProtoCatalog.Proofs.Documenting
import ProtoCatalog.Proofs.Table
import ProtoCatalog.Proofs.Walk

/-!
# Settled files and their catalog

Where no two messages have one full name, every message is settled for itself: its map fields are
resolved through the table of all messages, and it is internal just if some map field has its full
name.  The catalog finds every message in its table, and lists those that are not internal.
-/

namespace ProtoCatalog.Catalog

/-! ## Settling message by message -/

/-- The full names of the messages of documented files. -/
def allNames (files : List FileDoc) : List String := files.flatMap fun f ↦ fullNames f.messages

/-- A message with its map fields resolved, marked if some map field has its full name. -/
def settleMessage (table : Table MessageDoc) (entries : List String) (m : MessageDoc) :
    MessageDoc :=
  { resolveMessage table m with internal := entries.contains m.names.full }

/-- A file with its messages settled one by one. -/
def settleFile (table : Table MessageDoc) (entries : List String) (f : FileDoc) : FileDoc :=
  { f with messages := f.messages.map (settleMessage table entries) }

theorem fullNames_map_settle (table : Table MessageDoc) (entries : List String)
    (ms : List MessageDoc) : fullNames (ms.map (settleMessage table entries)) = fullNames ms := by
  rw [fullNames, List.map_map]
  rfl

theorem markInternal_eq_map {table : Table MessageDoc} {entries later : List String}
    {ms : List MessageDoc} (h : (fullNames ms ++ later).Nodup) :
    markInternal entries later (ms.map (resolveMessage table)) =
      ms.map (settleMessage table entries) := by
  induction ms with
  | nil => rfl
  | cons m rest ih =>
    obtain ⟨hm, hrest⟩ := List.nodup_cons.mp h
    have hnames : fullNames (rest.map (resolveMessage table)) = fullNames rest := by
      rw [fullNames, List.map_map]
      rfl
    -- No later message has its name, so nothing keeps the mark from it.
    have hin : m.names.full ∉ fullNames rest := fun hi ↦ hm (List.mem_append_left _ hi)
    have hlater : m.names.full ∉ later := fun hi ↦ hm (List.mem_append_right _ hi)
    rw [List.map_cons, markInternal, ih hrest, hnames]
    simp [settleMessage, resolveMessage, hin, hlater]

theorem settleFiles_eq_map {table : Table MessageDoc} {entries : List String}
    {files : List FileDoc} (h : (allNames files).Nodup) :
    settleFiles table entries files = files.map (settleFile table entries) := by
  induction files with
  | nil => rfl
  | cons f rest ih =>
    have hall : (fullNames f.messages ++ allNames rest).Nodup := h
    rw [settleFiles, ih (List.nodup_append.mp hall).2.1]
    show { f with messages := markInternal entries (allNames rest) _ } :: _ = _
    rw [markInternal_eq_map hall]
    rfl

theorem settle_eq_map {files : List FileDoc} (h : (allNames files).Nodup) :
    settle files = files.map (settleFile (messageTable files) (mapTypes files)) :=
  settleFiles_eq_map h

theorem allNames_settle {files : List FileDoc} (h : (allNames files).Nodup) :
    allNames (settle files) = allNames files := by
  rw [settle_eq_map h, allNames, List.flatMap_map]
  apply List.flatMap_congr
  intro f _
  exact fullNames_map_settle _ _ _

/-! ## The table of messages -/

theorem find?_messageTable {files : List FileDoc} {f : FileDoc} {m : MessageDoc}
    (h : (allNames files).Nodup) (hf : f ∈ files) (hm : m ∈ f.messages) :
    (messageTable files).find? m.names.full = some m := by
  apply Table.find?_ofList_of_mem
  · rw [List.map_flatMap]
    simp only [List.map_map]
    exact h
  · exact List.mem_flatMap.mpr ⟨f, hf, List.mem_map.mpr ⟨m, hm, rfl⟩⟩

-- What the table finds is a message of some file, under its own name.
theorem mem_of_find?_messageTable {files : List FileDoc} {name : String} {m : MessageDoc}
    (h : (messageTable files).find? name = some m) :
    m.names.full = name ∧ ∃ f ∈ files, m ∈ f.messages := by
  obtain ⟨f, hf, hme⟩ := List.mem_flatMap.mp (Table.mem_of_find?_ofList h)
  obtain ⟨x, hx, he⟩ := List.mem_map.mp hme
  cases he
  exact ⟨rfl, f, hf, hx⟩

/-! ## The built catalog -/

theorem build_eq_ok [DescriptorPool] {registry : Option Registry} {files : List FileDecl}
    {c : Catalog} : build registry files = .ok c ↔ ∃ docs,
      List.Forall₂ (fun f d ↦ f.document registry = .ok d) files docs ∧
        c = assemble (settle docs) := by
  rw [build, bind_eq_ok]
  simp only [mapM_eq_ok]
  constructor
  · rintro ⟨docs, hd, h⟩
    cases h
    exact ⟨docs, hd, rfl⟩
  · rintro ⟨docs, hd, rfl⟩
    exact ⟨docs, hd, rfl⟩

theorem allNames_perm [DescriptorPool] {registry : Option Registry} {files : List FileDecl}
    {docs : List FileDoc} (h : List.Forall₂ (fun f d ↦ f.document registry = .ok d) files docs) :
    (allNames docs).Perm (FileDecl.messageNames files) := by
  refine flatMap_perm_of_forall₂ (fun f d hfd ↦ ?_) h
  exact FileDecl.map_full_document_perm hfd

/-- The messages that a catalog holds, listed or in its table. -/
def Holds (c : Catalog) (m : MessageDoc) : Prop :=
  (∃ f ∈ c.files, m ∈ f.messages) ∨ (∃ p ∈ c.packages, m ∈ p.messages) ∨
    ∃ name, c.messages.find? name = some m

theorem mem_packageNames {files : List FileDoc} {name : String} :
    name ∈ packageNames files ↔ ∃ f ∈ files, f.package = name := by
  rw [packageNames, List.mem_mergeSort, List.mem_eraseDups, List.mem_map]

theorem mem_gather_messages {files : List FileDoc} {name : String} {m : MessageDoc} :
    m ∈ (gather files name).messages ↔ ∃ f ∈ files, f.package = name ∧ m ∈ f.messages := by
  rw [gather, (sortByName_perm _ _).mem_iff, List.mem_flatMap]
  simp only [List.mem_filter, beq_iff_eq, and_assoc]

theorem mem_gather_enums {files : List FileDoc} {name : String} {e : EnumDoc} :
    e ∈ (gather files name).enums ↔ ∃ f ∈ files, f.package = name ∧ e ∈ f.enums := by
  rw [gather, (sortByName_perm _ _).mem_iff, List.mem_flatMap]
  simp only [List.mem_filter, beq_iff_eq, and_assoc]

theorem mem_listed {ms : List MessageDoc} {m : MessageDoc} :
    m ∈ listed ms ↔ m ∈ ms ∧ m.internal = false := by
  rw [listed, List.mem_filter, Bool.not_eq_true']

-- The package of a name, if some file is in it.
theorem package?_assemble {files : List FileDoc} {f : FileDoc} (hf : f ∈ files) :
    (assemble files).package? f.package =
      some { gather files f.package with
        messages := listed (gather files f.package).messages } := by
  have hin : { gather files f.package with
      messages := listed (gather files f.package).messages } ∈ (assemble files).packages :=
    List.mem_map_of_mem (List.mem_map_of_mem (mem_packageNames.mpr ⟨f, hf, rfl⟩))
  obtain ⟨p, hp, hfind, hname⟩ := Keys.exists_find?_of_mem PackageDoc.name hin
  obtain ⟨q, hq, rfl⟩ := List.mem_map.mp hp
  obtain ⟨name, -, rfl⟩ := List.mem_map.mp hq
  have hn : name = f.package := hname
  exact hfind.trans (by rw [hn])

-- Every message that the catalog of some files holds is one of theirs.
theorem exists_of_holds {files : List FileDoc} {m : MessageDoc} (h : (assemble files).Holds m) :
    ∃ f ∈ files, m ∈ f.messages := by
  rcases h with ⟨g, hg, hm⟩ | ⟨p, hp, hm⟩ | ⟨name, hm⟩
  · obtain ⟨f, hf, rfl⟩ := List.mem_map.mp hg
    exact ⟨f, hf, (mem_listed.mp hm).1⟩
  · obtain ⟨q, hq, rfl⟩ := List.mem_map.mp hp
    obtain ⟨name, -, rfl⟩ := List.mem_map.mp hq
    obtain ⟨f, hf, -, hm⟩ := mem_gather_messages.mp (mem_listed.mp hm).1
    exact ⟨f, hf, hm⟩
  · exact (mem_of_find?_messageTable hm).2

-- What a catalog lists is not internal.
theorem internal_of_mem_files {files : List FileDoc} {f : FileDoc} {m : MessageDoc}
    (hf : f ∈ (assemble files).files) (hm : m ∈ f.messages) : m.internal = false := by
  obtain ⟨f, hf, rfl⟩ := List.mem_map.mp hf
  exact (mem_listed.mp hm).2

theorem internal_of_mem_packages {files : List FileDoc} {p : PackageDoc} {m : MessageDoc}
    (hp : p ∈ (assemble files).packages) (hm : m ∈ p.messages) : m.internal = false := by
  obtain ⟨q, hq, rfl⟩ := List.mem_map.mp hp
  exact (mem_listed.mp hm).2

/-! ## Links -/

theorem mem_packageLinks {p : PackageDoc} {name : String} {l : Link} :
    (name, l) ∈ packageLinks p ↔ l = .declared p.name name ∧
      ((∃ m ∈ p.messages, m.names.full = name) ∨ ∃ e ∈ p.enums, e.names.full = name) := by
  simp only [packageLinks, List.mem_map, List.mem_append, Prod.mk.injEq]
  constructor
  · rintro ⟨_, hn, rfl, rfl⟩
    exact ⟨rfl, hn⟩
  · rintro ⟨rfl, hn⟩
    exact ⟨name, hn, rfl, rfl⟩

/-- A link leads to a package that declares the message or enumeration. -/
theorem mem_links {files : List FileDoc} {name : String} {l : Link} :
    (name, l) ∈ ((packageNames files).map (gather files)).flatMap packageLinks ↔
      ∃ f ∈ files, l = .declared f.package name ∧
        ((∃ m ∈ f.messages, m.names.full = name) ∨ ∃ e ∈ f.enums, e.names.full = name) := by
  rw [List.mem_flatMap]
  constructor
  · rintro ⟨p, hp, hl⟩
    obtain ⟨package, -, rfl⟩ := List.mem_map.mp hp
    obtain ⟨rfl, ⟨m, hm, hn⟩ | ⟨e, he, hn⟩⟩ := mem_packageLinks.mp hl
    · obtain ⟨f, hf, rfl, hmf⟩ := mem_gather_messages.mp hm
      exact ⟨f, hf, rfl, .inl ⟨m, hmf, hn⟩⟩
    · obtain ⟨f, hf, rfl, hef⟩ := mem_gather_enums.mp he
      exact ⟨f, hf, rfl, .inr ⟨e, hef, hn⟩⟩
  · rintro ⟨f, hf, rfl, hn⟩
    refine ⟨gather files f.package, List.mem_map_of_mem (mem_packageNames.mpr ⟨f, hf, rfl⟩),
      mem_packageLinks.mpr ⟨rfl, ?_⟩⟩
    rcases hn with ⟨m, hm, hn⟩ | ⟨e, he, hn⟩
    · exact .inl ⟨m, mem_gather_messages.mpr ⟨f, hf, rfl, hm⟩, hn⟩
    · exact .inr ⟨e, mem_gather_enums.mpr ⟨f, hf, rfl, he⟩, hn⟩

-- The link to a name is one of those that its declarations give.
theorem find?_links {files : List FileDoc} {f : FileDoc} {m : MessageDoc} (hf : f ∈ files)
    (hm : m ∈ f.messages) :
    ∃ g ∈ files, (assemble files).links.find? m.names.full =
        some (.declared g.package m.names.full) ∧
      ((∃ x ∈ g.messages, x.names.full = m.names.full) ∨
        ∃ e ∈ g.enums, e.names.full = m.names.full) := by
  -- The message gives a link of its own, so the name has one; which it is depends on the last.
  have hown := mem_links.mpr ⟨f, hf, rfl, .inl ⟨m, hm, rfl⟩⟩
  have hkey : m.names.full ∈ (assemble files).links.keys :=
    Table.mem_keys_ofList.mpr (List.mem_map_of_mem (f := Prod.fst) hown)
  obtain ⟨l, hl⟩ := Table.mem_keys_iff.mp hkey
  obtain ⟨g, hg, rfl, hn⟩ := mem_links.mp (Table.mem_of_find?_ofList hl)
  exact ⟨g, hg, hl, hn⟩

/-! ## What a build holds -/

/-- The one message that a catalog holds under a full name. -/
def HoldsMessage (c : Catalog) (name : String) (m : MessageDoc) : Prop :=
  c.messages.find? name = some m ∧ ∀ x, c.Holds x → x.names.full = name → x = m

theorem HoldsMessage.unique {c : Catalog} {name : String} {x y : MessageDoc}
    (hx : c.HoldsMessage name x) (hy : c.HoldsMessage name y) : x = y :=
  Option.some.inj (hx.1.symm.trans hy.1)

/-- The one field with an address in the message that a catalog holds under a full name. -/
def HoldsField (c : Catalog) (name : String) (address : Address) (x : FieldDoc) : Prop :=
  ∃ m, c.HoldsMessage name m ∧ m.allFields.filter (·.address == address) = [x]

/-- A catalog built from files whose messages all have different full names. -/
structure Settled [DescriptorPool] (registry : Option Registry) (files : List FileDecl)
    (docs : List FileDoc) (c : Catalog) : Prop where
  documented : List.Forall₂ (fun f d ↦ f.document registry = .ok d) files docs
  distinct : (allNames docs).Nodup
  eq_assemble : c = assemble (docs.map (settleFile (messageTable docs) (mapTypes docs)))

theorem exists_settled [DescriptorPool] {registry : Option Registry} {files : List FileDecl}
    {c : Catalog} (h : build registry files = .ok c) (hd : (FileDecl.messageNames files).Nodup) :
    ∃ docs, Settled registry files docs c := by
  obtain ⟨docs, hdocs, rfl⟩ := build_eq_ok.mp h
  have hnodup : (allNames docs).Nodup := (allNames_perm hdocs).symm.nodup hd
  exact ⟨docs, hdocs, hnodup, by rw [settle_eq_map hnodup]⟩

theorem allFields_settleMessage (table : Table MessageDoc) (entries : List String)
    (m : MessageDoc) :
    (settleMessage table entries m).allFields = m.allFields.map (resolveField table) := by
  simp only [settleMessage, resolveMessage, MessageDoc.allFields, List.map_append,
    List.map_flatMap, List.flatMap_map]

theorem address_resolveField (table : Table MessageDoc) (f : FieldDoc) :
    (resolveField table f).address = f.address := by
  unfold resolveField
  split
  · split <;> rfl
  · rfl

theorem isMap_resolveField (table : Table MessageDoc) (f : FieldDoc) :
    (resolveField table f).isMap = f.isMap := by
  unfold resolveField
  split
  · split <;> rfl
  · rfl

-- Resolving leaves a field where it is.
theorem filter_address_settleMessage {table : Table MessageDoc} {entries : List String}
    {m : MessageDoc} {a : Address} {x : FieldDoc}
    (h : m.allFields.filter (·.address == a) = [x]) :
    (settleMessage table entries m).allFields.filter (·.address == a) =
      [resolveField table x] := by
  rw [allFields_settleMessage, List.filter_map]
  simp only [Function.comp_def, address_resolveField, h, List.map_cons, List.map_nil]

namespace Settled

variable [DescriptorPool] {registry : Option Registry} {files : List FileDecl} {docs : List FileDoc}
    {c : Catalog}

-- The file and the message that a declaration is documented as.
theorem exists_docs (h : Settled registry files docs c) {i : Nat} {f : FileDecl}
    (hf : files[i]? = some f) {s : MessageSite} {m : Placed MessageDecl}
    (hm : f.messageAt? s = some m) :
    ∃ fd d, docs[i]? = some fd ∧ f.document registry = .ok fd ∧ d ∈ fd.messages ∧
      MessageDecl.document ⟨f, registry⟩ m = .ok d ∧ d.names.full = f.fullName m := by
  obtain ⟨fd, hfd, hdoc⟩ := forall₂_getElem? h.documented hf
  obtain ⟨d, hd, hmd⟩ :=
    FileDecl.exists_message_document hdoc (FileDecl.mem_allMessages.mpr ⟨s, hm⟩)
  refine ⟨fd, d, hfd, hdoc, hd, hmd, ?_⟩
  rw [MessageDecl.names_document hmd]
  rfl

theorem allNames_settled (h : Settled registry files docs c) :
    allNames (docs.map (settleFile (messageTable docs) (mapTypes docs))) = allNames docs := by
  rw [← settle_eq_map h.distinct, allNames_settle h.distinct]

/-- Where a message comes from, and what becomes of it. -/
theorem holdsMessage (h : Settled registry files docs c) {f : FileDecl} (hf : f ∈ files)
    {s : MessageSite} {m : Placed MessageDecl} (hm : f.messageAt? s = some m) :
    ∃ d, MessageDecl.document ⟨f, registry⟩ m = .ok d ∧
      (messageTable docs).find? (f.fullName m) = some d ∧
      c.HoldsMessage (f.fullName m) (settleMessage (messageTable docs) (mapTypes docs) d) := by
  obtain ⟨i, hi⟩ := List.mem_iff_getElem?.mp hf
  obtain ⟨fd, d, hfi, -, hd, hmd, hname⟩ := h.exists_docs hi hm
  have hfd : fd ∈ docs := List.mem_of_getElem? hfi
  have hnodup : (allNames (docs.map (settleFile (messageTable docs) (mapTypes docs)))).Nodup :=
    h.allNames_settled ▸ h.distinct
  have hfind : c.messages.find? (f.fullName m) =
      some (settleMessage (messageTable docs) (mapTypes docs) d) := by
    rw [h.eq_assemble, ← hname]
    exact find?_messageTable hnodup (List.mem_map_of_mem hfd) (List.mem_map_of_mem hd)
  refine ⟨d, hmd, hname ▸ find?_messageTable h.distinct hfd hd, hfind, ?_⟩
  -- Anything else that is held under the name is what the table has for it.
  intro x hx hxn
  rw [h.eq_assemble] at hx
  obtain ⟨g, hg, hxg⟩ := exists_of_holds hx
  have hxf := find?_messageTable hnodup hg hxg
  rw [hxn] at hxf
  rw [h.eq_assemble] at hfind
  exact Option.some.inj (hxf.symm.trans hfind)

-- The table has no names but those of messages.
theorem mem_messageNames (h : Settled registry files docs c) {name : String} {m : MessageDoc}
    (hm : c.messages.find? name = some m) : name ∈ FileDecl.messageNames files := by
  rw [h.eq_assemble] at hm
  obtain ⟨rfl, g, hg, hin⟩ := mem_of_find?_messageTable hm
  have hname : m.names.full ∈ allNames docs :=
    h.allNames_settled ▸ List.mem_flatMap.mpr ⟨g, hg, List.mem_map_of_mem hin⟩
  exact (allNames_perm h.documented).mem_iff.mp hname

-- Links have no names but those of messages and enumerations.
theorem mem_linkNames (h : Settled registry files docs c) {name : String} {l : Link}
    (hl : c.links.find? name = some l) : name ∈ FileDecl.messageNames files ∨
      ∃ g ∈ files, ∃ e ∈ g.allEnums, inScope g.package e.longName = name := by
  rw [h.eq_assemble] at hl
  obtain ⟨g, hg, -, ⟨m, hm, hn⟩ | ⟨e, he, hn⟩⟩ := mem_links.mp (Table.mem_of_find?_ofList hl)
  · have hname : name ∈ allNames docs :=
      h.allNames_settled ▸ List.mem_flatMap.mpr ⟨g, hg, List.mem_map.mpr ⟨m, hm, hn⟩⟩
    exact .inl ((allNames_perm h.documented).mem_iff.mp hname)
  · obtain ⟨gd, hgd, rfl⟩ := List.mem_map.mp hg
    obtain ⟨k, hk, hkd⟩ := exists_of_mem_right h.documented hgd
    obtain ⟨ed, hed, hedd⟩ := FileDecl.exists_enum_of_mem hkd he
    refine .inr ⟨k, hk, ed, hed, ?_⟩
    rw [← hn, EnumDecl.names_document hedd]
    rfl

/-- The field of a declaration, resolved. -/
theorem holdsField (h : Settled registry files docs c) {f : FileDecl} (hf : f ∈ files)
    {s : MessageSite} {m : Placed MessageDecl} (hm : f.messageAt? s = some m) {i : Nat}
    {d : FieldDecl} (hd : m.decl.fields[i]? = some d) :
    ∃ x, d.document ⟨f, registry⟩ m.decl.oneofs (s.address ++ [2, (i : Int)]) = .ok x ∧
      c.HoldsField (f.fullName m) (s.address ++ [2, (i : Int)])
        (resolveField (messageTable docs) x) := by
  obtain ⟨md, hmd, -, hc⟩ := h.holdsMessage hf hm
  obtain ⟨x, hx, hdx⟩ := MessageDecl.filter_allFields hmd hd
  rw [FileDecl.messageAt?_address hm] at hx hdx
  exact ⟨x, hdx, _, hc, filter_address_settleMessage hx⟩

/-- Where the link to a message leads: to its package, unless an enumeration has its name. -/
theorem link (h : Settled registry files docs c) {f : FileDecl} (hf : f ∈ files)
    {s : MessageSite} {m : Placed MessageDecl} (hm : f.messageAt? s = some m) :
    ∃ package, c.links.find? (f.fullName m) = some (.declared package (f.fullName m)) ∧
      ((∀ g ∈ files, ∀ t e, g.enumAt? t = some e → inScope g.package e.longName ≠ f.fullName m) →
        package = f.package) := by
  obtain ⟨i, hi⟩ := List.mem_iff_getElem?.mp hf
  obtain ⟨fd, d, hfi, hdoc, hd, -, hname⟩ := h.exists_docs hi hm
  have hfd : fd ∈ docs := List.mem_of_getElem? hfi
  obtain ⟨g, hg, hl, hn⟩ := find?_links
    (List.mem_map_of_mem (f := settleFile (messageTable docs) (mapTypes docs)) hfd)
    (List.mem_map_of_mem (f := settleMessage (messageTable docs) (mapTypes docs)) hd)
  obtain ⟨gd, hgd, rfl⟩ := List.mem_map.mp hg
  obtain ⟨k, hk, hkd⟩ := exists_of_mem_right h.documented hgd
  refine ⟨gd.package, by rw [h.eq_assemble, ← hname]; exact hl, ?_⟩
  intro henum
  rcases hn with ⟨x, hx, hxn⟩ | ⟨e, he, hen⟩
  · obtain ⟨xd, hxd, rfl⟩ := List.mem_map.mp hx
    -- No other message has the name, so the two files are one.
    let owned := docs.flatMap fun y ↦ y.messages.map fun z ↦ (y.package, z.names.full)
    have hnodup : (owned.map (·.2)).Nodup := by
      rw [List.map_flatMap]
      simp only [List.map_map]
      exact h.distinct
    have hmem : ∀ y ∈ docs, ∀ z ∈ y.messages, (y.package, z.names.full) ∈ owned := fun y hy z hz ↦
      List.mem_flatMap.mpr ⟨y, hy, List.mem_map.mpr ⟨z, hz, rfl⟩⟩
    have heq := List.inj_on_of_nodup_map hnodup (hmem gd hgd xd hxd) (hmem fd hfd d hd) hxn
    rw [← FileDecl.package_document hdoc]
    exact congrArg Prod.fst heq
  · obtain ⟨ed, hed, hedd⟩ := FileDecl.exists_enum_of_mem hkd he
    obtain ⟨t, ht⟩ := FileDecl.mem_allEnums.mp hed
    refine absurd ?_ (henum k hk t ed ht)
    have hfull : e.names.full = f.fullName m := hen.trans hname
    rw [← hfull, EnumDecl.names_document hedd]
    rfl

/-- A message is on the listing of its file just if it is not internal. -/
theorem file_lists (h : Settled registry files docs c) {i : Nat} {f : FileDecl}
    (hf : files[i]? = some f) {s : MessageSite} {m : Placed MessageDecl}
    (hm : f.messageAt? s = some m) {x : MessageDoc} (hx : c.HoldsMessage (f.fullName m) x) :
    ∃ g, c.files[i]? = some g ∧ g.name = f.name ∧ (x ∈ g.messages ↔ x.internal = false) := by
  obtain ⟨fd, d, hfd, hdoc, hd, hmd, -⟩ := h.exists_docs hf hm
  obtain ⟨e, hme, -, hheld⟩ := h.holdsMessage (List.mem_of_getElem? hf) hm
  cases hmd.symm.trans hme
  have hfile : c.files[i]? = some { settleFile (messageTable docs) (mapTypes docs) fd with
      messages := listed (settleFile (messageTable docs) (mapTypes docs) fd).messages } := by
    rw [h.eq_assemble, assemble, List.getElem?_map, List.getElem?_map, hfd]
    rfl
  have hname : fd.name = f.name := FileDecl.name_document hdoc
  refine ⟨_, hfile, hname, ?_⟩
  rw [mem_listed, hx.unique hheld]
  exact and_iff_right (List.mem_map_of_mem hd)

-- And so it is on that of its package.
theorem package_lists (h : Settled registry files docs c) {f : FileDecl} (hf : f ∈ files)
    {s : MessageSite} {m : Placed MessageDecl} (hm : f.messageAt? s = some m) {x : MessageDoc}
    (hx : c.HoldsMessage (f.fullName m) x) :
    ∃ p, c.package? f.package = some p ∧ (x ∈ p.messages ↔ x.internal = false) := by
  obtain ⟨i, hi⟩ := List.mem_iff_getElem?.mp hf
  obtain ⟨fd, d, hfd, hdoc, hd, hmd, -⟩ := h.exists_docs hi hm
  obtain ⟨e, hme, -, hheld⟩ := h.holdsMessage hf hm
  cases hmd.symm.trans hme
  have hin : settleFile (messageTable docs) (mapTypes docs) fd ∈
      docs.map (settleFile (messageTable docs) (mapTypes docs)) :=
    List.mem_map_of_mem (List.mem_of_getElem? hfd)
  have hpackage : fd.package = f.package := FileDecl.package_document hdoc
  have hfind := package?_assemble hin
  rw [← h.eq_assemble] at hfind
  refine ⟨_, hpackage ▸ hfind, ?_⟩
  rw [mem_listed, hx.unique hheld, mem_gather_messages]
  exact and_iff_right ⟨_, hin, hpackage, List.mem_map_of_mem hd⟩

end Settled

/-! ## Map types -/

/-- The full names that map fields have as their types, read off the declarations. -/
theorem mem_mapTypes [DescriptorPool] {registry : Option Registry} {files : List FileDecl}
    {docs : List FileDoc} (h : List.Forall₂ (fun f d ↦ f.document registry = .ok d) files docs)
    {name : String} :
    name ∈ mapTypes docs ↔ ∃ f ∈ files, ∃ s m, f.messageAt? s = some m ∧ ∃ d ∈ m.decl.fields,
      looksLikeMap (d.shownLabel f.isProto3) (d.typeNames f.package) = true ∧
        (d.typeNames f.package).full = name := by
  simp only [mapTypes, List.mem_flatMap, List.mem_map, List.mem_filter]
  constructor
  · rintro ⟨fd, hfd, md, hmd, x, ⟨hx, hmap⟩, hname⟩
    obtain ⟨f, hf, hdoc⟩ := exists_of_mem_right h hfd
    obtain ⟨m, hm, hmdoc⟩ := FileDecl.exists_decl_of_mem hdoc hmd
    obtain ⟨s, hs⟩ := FileDecl.mem_allMessages.mp hm
    obtain ⟨fields, hfields, hp⟩ := MessageDecl.allFields_perm hmdoc
    obtain ⟨i, d, hd, hdx⟩ := mem_documentAll hfields (hp.mem_iff.mp hx)
    obtain ⟨_, _, _, _, rfl⟩ := FieldDecl.document_eq_ok hdx
    exact ⟨f, hf, s, m, hs, d, List.mem_of_getElem? hd, hmap, hname⟩
  · rintro ⟨f, hf, s, m, hs, d, hd, hmap, hname⟩
    obtain ⟨fd, hfd, hdoc⟩ := exists_of_mem_left h hf
    obtain ⟨md, hmd, hmdoc⟩ :=
      FileDecl.exists_message_document hdoc (FileDecl.mem_allMessages.mpr ⟨s, hs⟩)
    obtain ⟨fields, hfields, hp⟩ := MessageDecl.allFields_perm hmdoc
    obtain ⟨i, hi⟩ := List.mem_iff_getElem?.mp hd
    obtain ⟨x, hx, hdx⟩ := getElem?_documentAll hfields hi
    have hin : x ∈ md.allFields := hp.mem_iff.mpr (List.mem_of_getElem? hx)
    obtain ⟨_, _, _, _, rfl⟩ := FieldDecl.document_eq_ok hdx
    exact ⟨fd, hfd, md, hmd, _, ⟨hin, hmap⟩, hname⟩

end ProtoCatalog.Catalog
