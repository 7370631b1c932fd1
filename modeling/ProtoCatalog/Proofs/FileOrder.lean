import Mathlib.Data.List.Flatten
import Mathlib.Data.List.Perm.Basic
import ProtoCatalog.Proofs.Listings
import ProtoCatalog.Proofs.TopMessages
import ProtoCatalog.Schema.Annotations

/-!
# The order of the files

Where full names differ, a catalog hardly depends on the order in which its files come.  Every file
is settled by itself, through tables that are the same in any order, and what is listed by name is
sorted.  Only the files themselves and the notes of the packages come in the order given.
-/

namespace ProtoCatalog

namespace FileDecl

variable [DescriptorPool] {registry : Option Registry} {f : FileDecl} {doc : FileDoc}

/-- The full names of the enumerations of some files, those inside messages included. -/
def enumNames (files : List FileDecl) : List String :=
  files.flatMap fun f ↦ f.allEnums.map fun e ↦ inScope f.package e.longName

/-- The full names of the services of some files. -/
def serviceNames (files : List FileDecl) : List String :=
  files.flatMap fun f ↦ f.services.map fun s ↦ inScope f.package s.name

theorem map_full_enums_perm (h : f.document registry = .ok doc) :
    (doc.enums.map (·.names.full)).Perm (f.allEnums.map fun e ↦ inScope f.package e.longName) := by
  obtain ⟨_, enums, _, _, _, _, he, _, _, _, rfl⟩ := document_eq_ok h
  have hnames : enums.map (·.names.full) = f.allEnums.map fun e ↦ inScope f.package e.longName :=
    map_eq_map_of_forall₂ (mapM_eq_ok.mp he) fun e d hd ↦ by rw [EnumDecl.names_document hd]; rfl
  exact hnames ▸ (sortByName_perm _ enums).map (·.names.full)

theorem map_full_services_perm (h : f.document registry = .ok doc) :
    (doc.services.map (·.names.full)).Perm (f.services.map fun s ↦ inScope f.package s.name) := by
  obtain ⟨_, _, _, _, services, _, _, _, _, hs, rfl⟩ := document_eq_ok h
  have hnames : services.map (·.names.full) = f.services.map fun s ↦ inScope f.package s.name := by
    apply map_eq_map_of_forall₂ (forall₂_documentAll hs)
    rintro s d ⟨_, hd⟩
    obtain ⟨_, _, _, _, rfl⟩ := ServiceDecl.document_eq_ok hd
    rfl
  exact hnames ▸ (sortByName_perm _ services).map (·.names.full)

end FileDecl

namespace Catalog

/-! ## Settling in any order -/

variable {files files' : List FileDoc}

theorem find?_messageTable_perm (hd : (allNames files).Nodup) (hp : files'.Perm files)
    (name : String) : (messageTable files').find? name = (messageTable files).find? name := by
  apply Table.find?_ofList_perm
  · rw [List.map_flatMap]
    simp only [List.map_map]
    exact hd
  · exact hp.flatMap_right _

-- Fields are resolved by what a table finds, however it is made.
theorem resolveField_congr {table table' : Table MessageDoc}
    (h : ∀ name, table'.find? name = table.find? name) :
    resolveField table' = resolveField table := by
  funext f
  simp only [resolveField, h]

/-- In whatever order the files come, each of them is settled in the same way. -/
theorem settleFile_perm (hd : (allNames files).Nodup) (hp : files'.Perm files) :
    settleFile (messageTable files') (mapTypes files') =
      settleFile (messageTable files) (mapTypes files) := by
  have hfield := resolveField_congr (find?_messageTable_perm hd hp)
  have htypes : ∀ name, (mapTypes files').contains name = (mapTypes files).contains name := by
    intro name
    rw [Bool.eq_iff_iff, List.contains_iff_mem, List.contains_iff_mem]
    exact (hp.flatMap_right _).mem_iff
  have hmessage : settleMessage (messageTable files') (mapTypes files') =
      settleMessage (messageTable files) (mapTypes files) := by
    funext m
    rw [settleMessage, settleMessage, resolveMessage, resolveMessage, hfield, htypes]
  funext f
  rw [settleFile, settleFile, hmessage]

/-! ## Gathering in any order -/

/-- No two messages, no two enumerations and no two services have one full name. -/
structure DistinctNames (files : List FileDoc) : Prop where
  messages : ((files.flatMap (·.messages)).map (·.names.full)).Nodup
  enums : ((files.flatMap (·.enums)).map (·.names.full)).Nodup
  services : ((files.flatMap (·.services)).map (·.names.full)).Nodup

-- What some of the files list is sorted into one order, as all names differ.
theorem sortByName_own_perm {α : Type} {name : α → String} {part : FileDoc → List α}
    (hd : ((files.flatMap part).map name).Nodup) (hp : files'.Perm files) (own : FileDoc → Bool) :
    sortByName name ((files'.filter own).flatMap part) =
      sortByName name ((files.filter own).flatMap part) := by
  have hown : (((files.filter own).flatMap part).map name).Nodup :=
    hd.sublist ((List.filter_sublist.flatMap part).map name)
  exact (sortByName_eq_of_perm hown ((hp.symm.filter own).flatMap_right part)).symm

theorem gather_perm (hd : DistinctNames files) (hp : files'.Perm files) (name : String) :
    gather files' name =
      { gather files name with notes := packageNotes (files'.filter (·.package == name)) } := by
  rw [gather, gather, sortByName_own_perm hd.messages hp, sortByName_own_perm hd.enums hp,
    sortByName_own_perm hd.services hp]

/-- What the files of a catalog say of a package, file by file. -/
def notesOf (c : Catalog) (package : String) : List PackageNote :=
  packageNotes (c.files.filter (·.package == package))

theorem notesOf_assemble (files : List FileDoc) (package : String) :
    (assemble files).notesOf package = packageNotes (files.filter (·.package == package)) := by
  rw [notesOf, assemble, List.filter_map, packageNotes, List.filterMap_map]
  rfl

theorem links_perm (hd : DistinctNames files) (hp : files'.Perm files) :
    (assemble files').links = (assemble files).links := by
  have hlinks : ∀ name, packageLinks (gather files' name) = packageLinks (gather files name) := by
    intro name
    rw [gather_perm hd hp]
    rfl
  rw [assemble, assemble, packageNames_perm hp]
  show Table.ofList _ = Table.ofList _
  rw [List.flatMap_map, List.flatMap_map, funext hlinks]

theorem packages_perm (hd : DistinctNames files) (hp : files'.Perm files) :
    (assemble files').packages = (assemble files).packages.map fun p ↦
      { p with notes := (assemble files').notesOf p.name } := by
  show ((packageNames files').map (gather files')).map _ =
    (((packageNames files).map (gather files)).map _).map _
  rw [packageNames_perm hp, List.map_map, List.map_map, List.map_map]
  apply List.map_congr_left
  intro name _
  simp only [Function.comp_apply, gather_perm hd hp, notesOf_assemble]
  rfl

theorem notes_eq_notesOf {p : PackageDoc} (h : p ∈ (assemble files).packages) :
    p.notes = (assemble files).notesOf p.name := by
  obtain ⟨q, hq, rfl⟩ := List.mem_map.mp h
  obtain ⟨name, -, rfl⟩ := List.mem_map.mp hq
  rw [notesOf_assemble]
  rfl

/-! ## Building in any order -/

theorem distinctNames_of_documented [DescriptorPool] {registry : Option Registry}
    {files : List FileDecl} {docs : List FileDoc}
    (h : List.Forall₂ (fun f d ↦ f.document registry = .ok d) files docs)
    (hm : (FileDecl.messageNames files).Nodup) (he : (FileDecl.enumNames files).Nodup)
    (hs : (FileDecl.serviceNames files).Nodup) : DistinctNames docs := by
  have henums : (docs.flatMap fun d ↦ d.enums.map (·.names.full)).Perm
      (FileDecl.enumNames files) := by
    refine flatMap_perm_of_forall₂ (fun f d hfd ↦ ?_) h
    exact FileDecl.map_full_enums_perm hfd
  have hservices : (docs.flatMap fun d ↦ d.services.map (·.names.full)).Perm
      (FileDecl.serviceNames files) := by
    refine flatMap_perm_of_forall₂ (fun f d hfd ↦ ?_) h
    exact FileDecl.map_full_services_perm hfd
  constructor
  · rw [List.map_flatMap]
    exact (allNames_perm h).symm.nodup hm
  · rw [List.map_flatMap]
    exact henums.symm.nodup he
  · rw [List.map_flatMap]
    exact hservices.symm.nodup hs

-- Settling changes no name.
theorem DistinctNames.map_settleFile (h : DistinctNames files) (table : Table MessageDoc)
    (entries : List String) : DistinctNames (files.map (settleFile table entries)) := by
  constructor
  · have hnames : ((files.map (settleFile table entries)).flatMap (·.messages)).map
        (·.names.full) = (files.flatMap (·.messages)).map (·.names.full) := by
      rw [List.flatMap_map, List.map_flatMap, List.map_flatMap]
      exact List.flatMap_congr fun f _ ↦ fullNames_map_settle table entries f.messages
    rw [hnames]
    exact h.messages
  · rw [List.flatMap_map]
    exact h.enums
  · rw [List.flatMap_map]
    exact h.services

/-- A catalog does not depend on the order of its files, where full names differ.  The files of the
catalog are permuted as the declared ones are; links are the same, the same messages are found,
and packages are the same but for their notes, which come in the order of the files. -/
theorem build_perm [DescriptorPool] {registry : Option Registry} {files files' : List FileDecl}
    {c : Catalog} (h : build registry files = .ok c)
    (hmessages : (FileDecl.messageNames files).Nodup) (henums : (FileDecl.enumNames files).Nodup)
    (hservices : (FileDecl.serviceNames files).Nodup) (hp : files'.Perm files) :
    ∃ c', build registry files' = .ok c' ∧
      (∀ i j : Nat, files'[i]? = files[j]? → c'.files[i]? = c.files[j]?) ∧
      c'.links = c.links ∧ (∀ name, c'.messages.find? name = c.messages.find? name) ∧
      (∀ p ∈ c.packages, p.notes = c.notesOf p.name) ∧
      c'.packages = c.packages.map fun p ↦ { p with notes := c'.notesOf p.name } := by
  obtain ⟨docs, hs⟩ := exists_settled h hmessages
  obtain ⟨docs', hdocs', hperm⟩ := List.perm_comp_forall₂ hp hs.documented
  have hdistinct := distinctNames_of_documented hs.documented hmessages henums hservices
  have hnodup : (allNames docs').Nodup :=
    (allNames_perm hdocs').symm.nodup ((hp.flatMap_right _).symm.nodup hmessages)
  -- Both catalogs are of files settled one by one in the same way.
  let change := settleFile (messageTable docs) (mapTypes docs)
  have hsettle : settle docs' = docs'.map change := by
    rw [settle_eq_map hnodup, settleFile_perm hs.distinct hperm]
  have hall : DistinctNames (docs.map change) := hdistinct.map_settleFile _ _
  have hallNodup : (allNames (docs.map change)).Nodup := hs.allNames_settled ▸ hs.distinct
  have hallPerm : (docs'.map change).Perm (docs.map change) := hperm.map change
  have hc : c = assemble (docs.map change) := hs.eq_assemble
  refine ⟨assemble (docs'.map change), ?_, ?_, ?_, ?_, ?_, ?_⟩
  · rw [build_eq_ok]
    exact ⟨docs', hdocs', by rw [hsettle]⟩
  · intro i j hij
    have hdoc : docs'[i]? = docs[j]? := by
      rw [getElem?_of_forall₂_ok hdocs', getElem?_of_forall₂_ok hs.documented, hij]
    rw [hc]
    simp only [assemble, List.getElem?_map, hdoc]
  · rw [hc]
    exact links_perm hall hallPerm
  · rw [hc]
    exact find?_messageTable_perm hallNodup hallPerm
  · rw [hc]
    exact fun p ↦ notes_eq_notesOf
  · rw [hc]
    exact packages_perm hall hallPerm

attribute [local instance] Annotations.pool

/-- A map field and the message that it is resolved by are in two files.  Whichever comes first, the
files are settled in the same way. -/
theorem build_perm_journal : ∃ c c', build none (journalFiles "a") = .ok c ∧
    build none (journalFiles "a").reverse = .ok c' ∧ c'.files[0]? = c.files[1]? ∧
    c'.files[1]? = c.files[0]? ∧ c'.links = c.links ∧
    (∀ name, c'.messages.find? name = c.messages.find? name) ∧
    c'.packages = c.packages.map fun p ↦ { p with notes := c'.notesOf p.name } := by
  obtain ⟨c, hc, -⟩ : ∃ c, build none (journalFiles "a") = .ok c ∧ True :=
    exists_ok (by decide +kernel)
  have hmessages : (FileDecl.messageNames (journalFiles "a")).Nodup := by decide +kernel
  have henums : (FileDecl.enumNames (journalFiles "a")).Nodup := by decide +kernel
  have hservices : (FileDecl.serviceNames (journalFiles "a")).Nodup := by decide +kernel
  obtain ⟨c', hc', hfiles, hlinks, hfound, -, hpackages⟩ :=
    build_perm hc hmessages henums hservices (List.reverse_perm _)
  exact ⟨c, c', hc, hc', hfiles 0 1 rfl, hfiles 1 0 rfl, hlinks, hfound, hpackages⟩

end Catalog
end ProtoCatalog
