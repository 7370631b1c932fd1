import ProtoCatalog.Proofs.Settling
import ProtoCatalog.Schema.Annotations

/-!
# Map fields and their entries

A repeated field that refers to an entry message declared inside its own message is a map field.
A build gives it the types of the entry's key and value, and takes the entry off the listings.
-/

namespace ProtoCatalog

/-! ## Fields that look like maps -/

theorem looksLikeMap_iff {label : Option Label} {type : Naming} :
    looksLikeMap label type = true ↔ label = some .repeated ∧ '.' ∈ type.long.toList ∧
      hasEnd entrySuffix type.short = true ∧ hasEnd entrySuffix type.long = true ∧
      hasEnd entrySuffix type.full = true := by
  simp only [looksLikeMap, Bool.and_eq_true, beq_iff_eq, List.contains_iff_mem, and_assoc]

theorem dot_not_mem_entrySuffix : '.' ∉ entrySuffix.toList := by decide

namespace FieldDecl

theorem shownLabel_eq_repeated {proto3 : Bool} {d : FieldDecl} :
    d.shownLabel proto3 = some .repeated ↔ d.label = .repeated := by
  unfold shownLabel
  by_cases h : d.label = .repeated
  · simp [h]
  · split
    · simp [h]
    · simp [h]

-- The names of a type by a reference with a dot in front.
theorem typeNames_dot {d : FieldDecl} {package full : String} (h : d.typeName = "." ++ full) :
    d.typeNames package = ⟨lastSegment full, dropLead (package ++ ".") full, full⟩ := by
  have hne : d.typeName ≠ "" := by
    intro he
    have hl : ("." ++ full).toList = [] := by rw [← h, he]; rfl
    rw [String.toList_append] at hl
    exact absurd hl (by simp)
  rw [typeNames, if_neg hne, h]
  exact ofReference_eq (full_ofReference_dot full package)

end FieldDecl

/-- A declaration that is in another one has a dot in its name relative to its package, and its
name ends there and in its full name as it does for itself. -/
theorem looksLikeMap_nested {label : Option Label} {package outer name : String}
    (ho : outer ≠ "") (hdot : outer.toList.head? ≠ some '.') (hname : '.' ∉ name.toList)
    (hend : hasEnd entrySuffix name = true) (hl : label = some .repeated) :
    looksLikeMap label ⟨lastSegment (inScope package (inScope outer name)),
      dropLead (package ++ ".") (inScope package (inScope outer name)),
      inScope package (inScope outer name)⟩ = true := by
  -- What is left of the full name without the package is the long name, whatever the package is.
  have hlong : dropLead (package ++ ".") (inScope package (inScope outer name)) =
      inScope outer name := by
    apply dropLead_own
    rwa [head?_inScope name ho]
  have hin : '.' ∈ (inScope outer name).toList := by
    rw [toList_inScope name ho]
    simp
  have hlongEnd : hasEnd entrySuffix (inScope outer name) = true := by
    rwa [hasEnd_inScope dot_not_mem_entrySuffix]
  rw [looksLikeMap_iff, hlong]
  refine ⟨hl, hin, ?_, hlongEnd, ?_⟩
  · rwa [inScope_inScope name ho, lastSegment_inScope hname]
  · rwa [inScope_inScope name ho, hasEnd_inScope dot_not_mem_entrySuffix]

/-! ## The types of an entry -/

/-- The fields of a message that are in no oneof and have a name. -/
def MessageDecl.plainNamed (m : MessageDecl) (name : String) : List FieldDecl :=
  m.fields.filter fun d ↦ !d.isOneofMember && d.name == name

/-- The type that an entry gives is that of its last plain field with the name. -/
theorem MessageDecl.entryType_document [DescriptorPool] {ctx : DocContext} {n : Placed MessageDecl}
    {e : MessageDoc} (h : document ctx n = .ok e) (name : String) :
    Catalog.entryType e name =
      ((n.decl.plainNamed name).getLast?.map fun d ↦
        (d.typeNames ctx.file.package).full).getD "" := by
  obtain ⟨_, _, fields, _, _, hf, rfl⟩ := document_eq_ok h
  have hsame := map_filter_of_forall₂ (forall₂_documentAll hf)
    (p := fun d ↦ !d.isOneofMember && d.name == name)
    (q := fun y ↦ (y.name == name) && y.oneof.isNone)
    (f := fun d ↦ (d.typeNames ctx.file.package).full) (g := fun y ↦ y.type.full)
    (by
      rintro d y ⟨a, hy⟩
      have ho := FieldDecl.isSome_oneof_document hy
      obtain ⟨_, _, _, _, rfl⟩ := FieldDecl.document_eq_ok hy
      rw [← ho, Option.not_isSome, Bool.and_comm])
    (by
      rintro d y ⟨a, hy⟩
      obtain ⟨_, _, _, _, rfl⟩ := FieldDecl.document_eq_ok hy
      rfl)
  rw [Catalog.entryType, List.filter_filter, ← List.getLast?_map, hsame, List.getLast?_map]
  rfl

theorem MessageDecl.entryType_of_plainNamed [DescriptorPool] {ctx : DocContext}
    {n : Placed MessageDecl} {e : MessageDoc} (h : document ctx n = .ok e) {name : String}
    {d : FieldDecl} (hd : n.decl.plainNamed name = [d]) :
    Catalog.entryType e name = (d.typeNames ctx.file.package).full := by
  rw [entryType_document h, hd]
  rfl

namespace Catalog

/-! ## Names that are asked for -/

theorem withoutDots_eq {name : String} (h : name.toList.head? ≠ some '.') :
    withoutDots name = name := by
  have hdrop : name.toList.dropWhile (fun c ↦ decide (c = '.')) = name.toList := by
    cases hl : name.toList with
    | nil => rfl
    | cons c rest =>
      have hc : c ≠ '.' := fun he ↦ h (by rw [hl, he]; rfl)
      rw [List.dropWhile_cons, if_neg (by simpa using hc)]
  rw [withoutDots, hdrop, String.ofList_toList]

theorem head?_fullName {f : FileDecl} (hf : f.SegmentNames)
    (hp : f.package.toList.head? ≠ some '.') {s : MessageSite} {m : Placed MessageDecl}
    (hm : f.messageAt? s = some m) : (f.fullName m).toList.head? ≠ some '.' := by
  rw [FileDecl.fullName]
  by_cases he : f.package = ""
  · rw [he, inScope_empty]
    exact (FileDecl.longName_start hf hm).2
  · rwa [head?_inScope _ he]

/-! ## Entries inside messages -/

/-- No file and no package of a catalog lists a message with a full name. -/
def Unlisted (c : Catalog) (name : String) : Prop :=
  (∀ f ∈ c.files, ∀ m ∈ f.messages, m.names.full ≠ name) ∧
    ∀ p ∈ c.packages, ∀ m ∈ p.messages, m.names.full ≠ name

namespace Settled

variable {registry : Option Registry} {files : List FileDecl} {docs : List FileDoc} {c : Catalog}
  {f : FileDecl} {s : MessageSite} {m n : Placed MessageDecl} {i j : Nat} {d key value : FieldDecl}

theorem unlisted_of_internal [DescriptorPool] (h : Settled registry files docs c) {name : String}
    {e : MessageDoc} (he : c.HoldsMessage name e) (hi : e.internal = true) : c.Unlisted name := by
  have hc := h.eq_assemble
  constructor
  · intro g hg x hx hn
    have hxe : x = e := he.2 x (.inl ⟨g, hg, hx⟩) hn
    have hfalse : x.internal = false := internal_of_mem_files (hc ▸ hg) hx
    rw [hxe, hi] at hfalse
    exact absurd hfalse (by decide)
  · intro p hp x hx hn
    have hxe : x = e := he.2 x (.inr (.inl ⟨p, hp, hx⟩)) hn
    have hfalse : x.internal = false := internal_of_mem_packages (hc ▸ hp) hx
    rw [hxe, hi] at hfalse
    exact absurd hfalse (by decide)

/-- A field that refers to an entry inside its message looks like a map. -/
theorem looksLikeMap_entry (hnames : f.SegmentNames) (hm : f.messageAt? s = some m)
    (hn : f.messageAt? (.nested s j) = some n) (hend : hasEnd entrySuffix n.decl.name = true)
    (hl : d.label = .repeated) (ht : d.typeName = "." ++ f.fullName n) :
    looksLikeMap (d.shownLabel f.isProto3) (d.typeNames f.package) = true := by
  obtain ⟨hne, hdot⟩ := FileDecl.longName_start hnames hm
  rw [FieldDecl.typeNames_dot ht, FileDecl.fullName, FileDecl.longName_nested hm hn]
  exact looksLikeMap_nested hne hdot (hnames _ _ hn).no_dot hend
    (FieldDecl.shownLabel_eq_repeated.mpr hl)

/-- The field is a map field with the types of the entry's key and value. -/
theorem holdsField_map [DescriptorPool] (h : Settled registry files docs c)
    (hnames : f.SegmentNames) (hf : f ∈ files) (hm : f.messageAt? s = some m)
    (hn : f.messageAt? (.nested s j) = some n) (hend : hasEnd entrySuffix n.decl.name = true)
    (hk : n.decl.plainNamed keyName = [key]) (hv : n.decl.plainNamed valueName = [value])
    (hd : m.decl.fields[i]? = some d) (hl : d.label = .repeated)
    (ht : d.typeName = "." ++ f.fullName n) :
    ∃ x, c.HoldsField (f.fullName m) (s.address ++ [2, (i : Int)]) x ∧ x.isMap = true ∧
      x.mapKey = (key.typeNames f.package).full ∧
      x.mapValue = (value.typeNames f.package).full := by
  obtain ⟨e, hen, hfind, -⟩ := h.holdsMessage hf hn
  obtain ⟨x, hx, hheld⟩ := h.holdsField hf hm hd
  obtain ⟨_, _, _, _, rfl⟩ := FieldDecl.document_eq_ok hx
  have hmap := looksLikeMap_entry hnames hm hn hend hl ht
  have hfull : (d.typeNames f.package).full = f.fullName n := by rw [FieldDecl.typeNames_dot ht]
  -- It is resolved by what the table has under the full name of its type: the entry.
  rw [resolveField, if_pos hmap, hfull, hfind] at hheld
  exact ⟨_, hheld, hmap, MessageDecl.entryType_of_plainNamed hen hk,
    MessageDecl.entryType_of_plainNamed hen hv⟩

-- The entry is internal.
theorem internal_entry [DescriptorPool] (h : Settled registry files docs c)
    (hnames : f.SegmentNames) (hf : f ∈ files) (hm : f.messageAt? s = some m)
    (hn : f.messageAt? (.nested s j) = some n) (hend : hasEnd entrySuffix n.decl.name = true)
    (hd : m.decl.fields[i]? = some d) (hl : d.label = .repeated)
    (ht : d.typeName = "." ++ f.fullName n) :
    ∃ e, c.HoldsMessage (f.fullName n) e ∧ e.internal = true := by
  obtain ⟨e, hen, -, hheld⟩ := h.holdsMessage hf hn
  have hfull : (d.typeNames f.package).full = f.fullName n := by rw [FieldDecl.typeNames_dot ht]
  -- The field that refers to it is a reason for the mark.
  have hin : f.fullName n ∈ mapTypes docs := (mem_mapTypes h.documented).mpr
    ⟨f, hf, s, m, hm, d, List.mem_of_getElem? hd,
      looksLikeMap_entry hnames hm hn hend hl ht, hfull⟩
  refine ⟨_, hheld, ?_⟩
  show (mapTypes docs).contains e.names.full = true
  rw [MessageDecl.names_document hen]
  exact List.contains_iff_mem.mpr hin

end Settled

/-- Map fields end to end.  A repeated field that refers to an entry declared inside its message is
a map field with the types of the entry's key and value.  The entry is internal and on no listing;
the tables have it under its full name, and following that name leads to it unless the package
begins with a dot, since dots in front of a name that is asked for are dropped. -/
theorem map_entry_resolved [DescriptorPool] {registry : Option Registry} {files : List FileDecl}
    {c : Catalog} (h : build registry files = .ok c) (hd : (FileDecl.messageNames files).Nodup)
    {f : FileDecl} (hf : f ∈ files) (hnames : f.SegmentNames)
    {s : MessageSite} {m : Placed MessageDecl} (hm : f.messageAt? s = some m)
    {j : Nat} {n : Placed MessageDecl} (hn : f.messageAt? (.nested s j) = some n)
    (hend : hasEnd entrySuffix n.decl.name = true)
    {key value : FieldDecl} (hk : n.decl.plainNamed keyName = [key])
    (hv : n.decl.plainNamed valueName = [value])
    {i : Nat} {d : FieldDecl} (hi : m.decl.fields[i]? = some d) (hl : d.label = .repeated)
    (ht : d.typeName = "." ++ f.fullName n) :
    (∃ x, c.HoldsField (f.fullName m) (s.address ++ [2, (i : Int)]) x ∧ x.isMap = true ∧
      x.mapKey = (key.typeNames f.package).full ∧ x.mapValue = (value.typeNames f.package).full) ∧
    (∃ e, c.HoldsMessage (f.fullName n) e ∧ e.internal = true ∧
      (f.package.toList.head? ≠ some '.' → c.message? (f.fullName n) = some e)) ∧
    c.Unlisted (f.fullName n) ∧
    ∃ package, c.links.find? (f.fullName n) = some (.declared package (f.fullName n)) ∧
      ((∀ g ∈ files, ∀ t e, g.enumAt? t = some e → inScope g.package e.longName ≠ f.fullName n) →
        package = f.package) ∧
      (f.package.toList.head? ≠ some '.' →
        c.link? (f.fullName n) = some (.declared package (f.fullName n))) := by
  obtain ⟨docs, hs⟩ := exists_settled h hd
  obtain ⟨e, hheld, hint⟩ := hs.internal_entry hnames hf hm hn hend hi hl ht
  obtain ⟨package, hlink, hown⟩ := hs.link hf hn
  have hasked : f.package.toList.head? ≠ some '.' → withoutDots (f.fullName n) = f.fullName n :=
    fun hp ↦ withoutDots_eq (head?_fullName hnames hp hn)
  refine ⟨hs.holdsField_map hnames hf hm hn hend hk hv hi hl ht,
    ⟨e, hheld, hint, ?_⟩, hs.unlisted_of_internal hheld hint, package, hlink, hown, ?_⟩
  · intro hp
    rw [message?, hasked hp]
    exact hheld.1
  · intro hp
    rw [link?, hasked hp]
    exact hlink

/-! ## One file with a map field -/

/-- A field without options that is in no oneof. -/
def plainField (name : String) (number : Int) (label : Label) (type : FieldType)
    (typeName : String) : FieldDecl :=
  { name := name, extendee := "", number := number, label := label, type := type
    typeName := typeName, defaultValue := "", oneofIndex := none, proto3Optional := false
    options := [] }

/-- A message of fields, and of messages inside it. -/
def plainMessage (name : String) (fields : List FieldDecl) (nested : List MessageDecl) :
    MessageDecl :=
  { name := name, fields := fields, extensions := [], nested := nested, enums := [], oneofs := []
    options := [] }

/-- A file of messages. -/
def plainFile (name package : String) (messages : List MessageDecl) : FileDecl :=
  { name := name, package := package, syntaxName := "proto3", messages := messages, enums := []
    services := [], extensions := [], locations := [], options := [] }

def labelKey : FieldDecl := plainField keyName 1 .optional (.scalar .string) ""

def labelValue : FieldDecl := plainField valueName 2 .optional (.scalar .int64) ""

def labelsEntry : MessageDecl := plainMessage "LabelsEntry" [labelKey, labelValue] []

/-- The field that refers to the entry by its full name. -/
def labelsField (package : String) : FieldDecl :=
  plainField "labels" 1 .repeated .message ("." ++ inScope package "Item.LabelsEntry")

def labelsItem (package : String) : MessageDecl :=
  plainMessage "Item" [labelsField package] [labelsEntry]

/-- A file whose one message has a map field. -/
def labelsFile (package : String) : FileDecl := plainFile "item.proto" package [labelsItem package]

attribute [local instance] Annotations.pool

/-- In a package the map field is resolved, and its entry hidden but found. -/
theorem map_entry_resolved_labels : ∃ c, build none [labelsFile "shop"] = .ok c ∧
    (∃ x, c.HoldsField "shop.Item" [4, 0, 2, 0] x ∧ x.isMap = true ∧ x.mapKey = "string" ∧
      x.mapValue = "int64") ∧
    (∃ e, c.HoldsMessage "shop.Item.LabelsEntry" e ∧ e.internal = true ∧
      c.message? "shop.Item.LabelsEntry" = some e) ∧
    c.Unlisted "shop.Item.LabelsEntry" ∧
    c.link? "shop.Item.LabelsEntry" = some (.declared "shop" "shop.Item.LabelsEntry") := by
  obtain ⟨c, hc, -⟩ : ∃ c, build none [labelsFile "shop"] = .ok c ∧ True :=
    exists_ok (by decide +kernel)
  have hdistinct : (FileDecl.messageNames [labelsFile "shop"]).Nodup := by decide +kernel
  have hnames : (labelsFile "shop").SegmentNames := by decide +kernel
  have hfile : labelsFile "shop" ∈ [labelsFile "shop"] := List.mem_singleton.mpr rfl
  have hm : (labelsFile "shop").messageAt? (.top 0) =
      some ⟨[4, 0], "Item", labelsItem "shop"⟩ := rfl
  have hn : (labelsFile "shop").messageAt? (.nested (.top 0) 0) =
      some ⟨[4, 0, 3, 0], "Item.LabelsEntry", labelsEntry⟩ := rfl
  have hk : labelsEntry.plainNamed keyName = [labelKey] := rfl
  have hv : labelsEntry.plainNamed valueName = [labelValue] := rfl
  have hi : (labelsItem "shop").fields[0]? = some (labelsField "shop") := rfl
  have hdot : (labelsFile "shop").package.toList.head? ≠ some '.' := by decide
  have henums : ∀ g ∈ [labelsFile "shop"], ∀ t e, g.enumAt? t = some e →
      inScope g.package e.longName ≠ "shop.Item.LabelsEntry" := by
    intro g hg t e he
    rw [List.mem_singleton.mp hg] at he
    have hnone : (labelsFile "shop").allEnums = [] := by decide +kernel
    exact absurd (hnone ▸ FileDecl.mem_allEnums.mpr ⟨t, he⟩) List.not_mem_nil
  obtain ⟨hfield, ⟨e, he, hint, hasked⟩, hlist, package, -, hown, hlink⟩ :=
    map_entry_resolved hc hdistinct hfile hnames hm hn (by decide) hk hv hi rfl rfl
  have hpackage : package = "shop" := hown henums
  exact ⟨c, hc, hfield, ⟨e, he, hint, hasked hdot⟩, hlist, hpackage ▸ hlink hdot⟩

/-- In a package that begins with a dot the entry is not found: its full name begins with a dot
too, and what is asked for instead is no name of a declaration. -/
theorem map_entry_not_found_labels : ∃ c, build none [labelsFile ".shop"] = .ok c ∧
    (FileDecl.messageNames [labelsFile ".shop"]).Nodup ∧ (labelsFile ".shop").SegmentNames ∧
    (∃ m n, (labelsFile ".shop").messageAt? (.top 0) = some m ∧
      (labelsFile ".shop").messageAt? (.nested (.top 0) 0) = some n ∧
      hasEnd entrySuffix n.decl.name = true ∧ n.decl.plainNamed keyName = [labelKey] ∧
      n.decl.plainNamed valueName = [labelValue] ∧ m.decl.fields = [labelsField ".shop"] ∧
      (labelsField ".shop").label = .repeated ∧
      (labelsField ".shop").typeName = "." ++ (labelsFile ".shop").fullName n ∧
      (labelsFile ".shop").fullName n = ".shop.Item.LabelsEntry") ∧
    c.message? ".shop.Item.LabelsEntry" = none ∧ c.link? ".shop.Item.LabelsEntry" = none := by
  obtain ⟨c, hc, -⟩ : ∃ c, build none [labelsFile ".shop"] = .ok c ∧ True :=
    exists_ok (by decide +kernel)
  have hdistinct : (FileDecl.messageNames [labelsFile ".shop"]).Nodup := by decide +kernel
  have hasked : withoutDots ".shop.Item.LabelsEntry" ∉
      FileDecl.messageNames [labelsFile ".shop"] := by decide +kernel
  have hentry : (labelsFile ".shop").messageAt? (.nested (.top 0) 0) =
      some ⟨[4, 0, 3, 0], "Item.LabelsEntry", labelsEntry⟩ := rfl
  obtain ⟨docs, hs⟩ := exists_settled hc hdistinct
  refine ⟨c, hc, hdistinct, by decide +kernel,
    ⟨_, _, rfl, hentry, by decide, rfl, rfl, rfl, rfl, by decide, by decide⟩, ?_, ?_⟩
  · apply Option.eq_none_iff_forall_ne_some.mpr
    intro m hm
    exact hasked (hs.mem_messageNames hm)
  · apply Option.eq_none_iff_forall_ne_some.mpr
    intro l hl
    rcases hs.mem_linkNames hl with hname | ⟨g, hg, e, he, -⟩
    · exact hasked hname
    · have hnone : (labelsFile ".shop").allEnums = [] := by decide +kernel
      rw [List.mem_singleton.mp hg, hnone] at he
      exact absurd he List.not_mem_nil

end Catalog
end ProtoCatalog
