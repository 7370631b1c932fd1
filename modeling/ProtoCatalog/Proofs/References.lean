import ProtoCatalog.Proofs.Held
import ProtoCatalog.Proofs.Links
import ProtoCatalog.Schema.Annotations

/-!
# References and the names they refer to

The names of a declaration are put together from the scopes it is in, and those of a type are taken
apart from the reference to it.  For a reference by the full name the two agree, at any depth and
from any package, and where all references are such, each of them leads to a link.
-/

namespace ProtoCatalog

/-! ## Names read back from a reference -/

/-- The names that a reference to a full name gives.  From the package of the declaration they are
its own; from any other the last name and the full name are, and the one in between is the full name
with or without the package in front. -/
structure Naming.ReadBack (names : Naming) (package : String) : Prop where
  own : Naming.ofReference ("." ++ names.full) package = names
  short : ∀ other, (Naming.ofReference ("." ++ names.full) other).short = names.short
  long : ∀ other, (Naming.ofReference ("." ++ names.full) other).long = names.full ∨
    names.full = other ++ "." ++ (Naming.ofReference ("." ++ names.full) other).long
  full : ∀ other, (Naming.ofReference ("." ++ names.full) other).full = names.full

theorem dropLead_eq_or (lead text : String) :
    dropLead lead text = text ∨ text = lead ++ dropLead lead text := by
  by_cases h : lead.toList <+: text.toList
  · obtain ⟨rest, he⟩ := h
    have htext : text = lead ++ String.ofList rest := by
      rw [← String.toList_inj, String.toList_append, String.toList_ofList, he]
    rw [htext, dropLead_append]
    exact .inr rfl
  · exact .inl (dropLead_eq_self h)

-- The last segment of a full name is the name, through the scope and through the package.
theorem lastSegment_inScope_inScope {package scope short : String} (h : '.' ∉ short.toList) :
    lastSegment (inScope package (inScope scope short)) = short := by
  by_cases hs : scope = ""
  · rw [hs, inScope_empty, lastSegment_inScope h]
  · rw [inScope_inScope short hs, lastSegment_inScope h]

/-- The names of a declaration are read back, whatever scope it is in. -/
theorem Naming.readBack_declared {package scope short : String} (hshort : IsSegment short)
    (hscope : scope.toList.head? ≠ some '.') :
    (Naming.declared package short (inScope scope short)).ReadBack package := by
  have hlast : lastSegment (inScope package (inScope scope short)) = short :=
    lastSegment_inScope_inScope hshort.no_dot
  have hstart : (inScope scope short).toList.head? ≠ some '.' := by
    by_cases hs : scope = ""
    · rw [hs, inScope_empty]
      exact hshort.head?_ne_dot
    · rwa [head?_inScope short hs]
  have hread : ∀ other, Naming.ofReference
      ("." ++ (Naming.declared package short (inScope scope short)).full) other =
      ⟨short, dropLead (other ++ ".") (inScope package (inScope scope short)),
        inScope package (inScope scope short)⟩ := by
    intro other
    rw [ofReference_eq (full_ofReference_dot _ _)]
    simp only [Naming.declared, hlast]
  constructor
  · rw [hread, dropLead_own hstart]
    rfl
  · intro other
    rw [hread]
    rfl
  · intro other
    rw [hread]
    exact dropLead_eq_or _ _
  · intro other
    rw [hread]
    rfl

/-! ## Names of declarations -/

namespace FileDecl

variable {f : FileDecl}

/-- The names of a file's enumerations, those inside messages included, are segments. -/
def SegmentEnums (f : FileDecl) : Prop := ∀ s e, f.enumAt? s = some e → IsSegment e.decl.name

theorem segmentEnums_iff : f.SegmentEnums ↔ ∀ e ∈ f.allEnums, IsSegment e.decl.name := by
  constructor
  · intro h e he
    obtain ⟨s, hs⟩ := mem_allEnums.mp he
    exact h s e hs
  · intro h s e hs
    exact h e (mem_allEnums.mpr ⟨s, hs⟩)

instance (f : FileDecl) : Decidable f.SegmentEnums := decidable_of_iff' _ segmentEnums_iff

-- The long name of a message is its name in some scope that starts with no dot.
theorem exists_scope_of_message (hf : f.SegmentNames) {s : MessageSite} {m : Placed MessageDecl}
    (hm : f.messageAt? s = some m) : ∃ scope : String, scope.toList.head? ≠ some '.' ∧
      m.longName = inScope scope m.decl.name := by
  cases s with
  | top i => exact ⟨"", nofun, by rw [longName_top hm, inScope_empty]⟩
  | nested outer j =>
    obtain ⟨o, ho, -⟩ := Option.bind_eq_some_iff.mp hm
    exact ⟨o.longName, (longName_start hf ho).2, longName_nested ho hm⟩

-- And so it is for enumerations.
theorem exists_scope_of_enum (hf : f.SegmentNames) {s : EnumSite} {e : Placed EnumDecl}
    (he : f.enumAt? s = some e) : ∃ scope : String, scope.toList.head? ≠ some '.' ∧
      e.longName = inScope scope e.decl.name := by
  cases s with
  | top i =>
    obtain ⟨d, -, rfl⟩ := Option.map_eq_some_iff.mp he
    exact ⟨"", nofun, (inScope_empty d.name).symm⟩
  | nested outer j =>
    obtain ⟨o, ho, he⟩ := Option.bind_eq_some_iff.mp he
    obtain ⟨d, -, rfl⟩ := Option.map_eq_some_iff.mp he
    exact ⟨o.longName, (longName_start hf ho).2, rfl⟩

/-- The names of the message or enumeration at a site. -/
def namesAt? (f : FileDecl) : Site → Option Naming
  | .message s => (f.messageAt? s).map fun m ↦ .declared f.package m.decl.name m.longName
  | .enumeration s => (f.enumAt? s).map fun e ↦ .declared f.package e.decl.name e.longName
  | _ => none

theorem readBack_namesAt? (hm : f.SegmentNames) (he : f.SegmentEnums) {site : Site} {names : Naming}
    (h : f.namesAt? site = some names) : names.ReadBack f.package := by
  cases site with
  | message s =>
    obtain ⟨m, hs, rfl⟩ := Option.map_eq_some_iff.mp h
    obtain ⟨scope, hscope, hlong⟩ := exists_scope_of_message hm hs
    rw [hlong]
    exact Naming.readBack_declared (hm s m hs) hscope
  | enumeration s =>
    obtain ⟨e, hs, rfl⟩ := Option.map_eq_some_iff.mp h
    obtain ⟨scope, hscope, hlong⟩ := exists_scope_of_enum hm hs
    rw [hlong]
    exact Naming.readBack_declared (he s e hs) hscope
  | _ => cases h

end FileDecl

/-- The names of a node that is a message or an enumeration. -/
def Node.names? : Node → Option Naming
  | .message d => some d.names
  | .enumeration d => some d.names
  | _ => none

/-- A node has the names of the declaration that it documents. -/
theorem FileDecl.Documents.names?_eq [DescriptorPool] {f : FileDecl} {registry : Option Registry}
    {site : Site} {node : Node} (h : f.Documents registry site node) :
    node.names? = f.namesAt? site := by
  obtain ⟨old, hdoc, hbare⟩ := h
  have hsame : ∀ n : Node, n.bare.names? = n.names? := fun n ↦ by cases n <;> rfl
  rw [← hsame, ← hbare, hsame]
  cases hdoc with
  | message hm h =>
    rw [namesAt?, hm]
    exact congrArg some (MessageDecl.names_document h)
  | enumeration he h =>
    rw [namesAt?, he]
    exact congrArg some (EnumDecl.names_document h)
  | _ => rfl

/-! ## References of declarations -/

/-- What a declaration refers to a message or an enumeration as. -/
inductive Reference where
  | type
  | containing
  | request
  | response

namespace FileDecl

variable {f : FileDecl}

def fieldAt? (f : FileDecl) : Site → Option FieldDecl
  | .field s i => (f.messageAt? s).bind (·.decl.fields[i]?)
  | _ => none

def extensionAt? (f : FileDecl) : Site → Option FieldDecl
  | .messageExtension s i => (f.messageAt? s).bind (·.decl.extensions[i]?)
  | .fileExtension i => f.extensions[i]?
  | _ => none

def methodAt? (f : FileDecl) : Site → Option MethodDecl
  | .method i j => f.services[i]?.bind (·.methods[j]?)
  | _ => none

/-- The reference of the declaration at a site.  Fields and extensions of scalar types have none to
their type. -/
def referenceAt? (f : FileDecl) (site : Site) : Reference → Option String
  | .type => (((f.fieldAt? site).or (f.extensionAt? site)).map (·.typeName)).filter (· ≠ "")
  | .containing => (f.extensionAt? site).map (·.extendee)
  | .request => (f.methodAt? site).map (·.input)
  | .response => (f.methodAt? site).map (·.output)

end FileDecl

/-- The names under which a node shows what its declaration refers to. -/
def Node.reference? : Node → Reference → Option Naming
  | .field d, .type => some d.type
  | .ext d, .type => some d.type
  | .ext d, .containing => some d.containing
  | .method d, .request => some d.request
  | .method d, .response => some d.response
  | _, _ => none

-- A field or an extension that refers to its type has the names that the reference gives.
theorem FieldDecl.typeNames_of_reference {x : FieldDecl} {reference : String}
    (h : (some x.typeName).filter (· ≠ "") = some reference) (package : String) :
    x.typeNames package = .ofReference reference package := by
  obtain ⟨hname, hne⟩ := Option.filter_eq_some_iff.mp h
  rw [← Option.some.inj hname] at hne ⊢
  exact if_neg (of_decide_eq_true hne)

/-- Every reference of a declaration is shown by its node, with the names that it gives in the
package of the file. -/
theorem FileDecl.Documents.reference?_eq [DescriptorPool] {f : FileDecl}
    {registry : Option Registry} {site : Site} {node : Node} (h : f.Documents registry site node)
    {r : Reference} {reference : String} (hr : f.referenceAt? site r = some reference) :
    node.reference? r = some (.ofReference reference f.package) := by
  obtain ⟨old, hdoc, hbare⟩ := h
  have hsame : ∀ n : Node, n.bare.reference? r = n.reference? r := fun n ↦ by
    cases n <;> cases r <;> rfl
  rw [← hsame, ← hbare, hsame]
  cases hdoc with
  | @field s m i x d hm hx h =>
    obtain ⟨_, _, _, _, rfl⟩ := FieldDecl.document_eq_ok h
    have hat : f.fieldAt? (.field s i) = some x := by rw [fieldAt?, hm]; exact hx
    cases r with
    | type =>
      rw [referenceAt?, hat] at hr
      exact congrArg some (FieldDecl.typeNames_of_reference hr f.package)
    | _ => cases hr
  | @messageExtension s m i x d hm hx h =>
    obtain ⟨_, _, rfl⟩ := FieldDecl.documentExtension_eq_ok h
    have hat : f.extensionAt? (.messageExtension s i) = some x := by
      rw [extensionAt?, hm]
      exact hx
    cases r with
    | type =>
      rw [referenceAt?, hat] at hr
      exact congrArg some (FieldDecl.typeNames_of_reference hr f.package)
    | containing =>
      rw [referenceAt?, hat] at hr
      cases hr
      rfl
    | _ => cases hr
  | @fileExtension i x d hx h =>
    obtain ⟨_, _, rfl⟩ := FieldDecl.documentExtension_eq_ok h
    have hat : f.extensionAt? (.fileExtension i) = some x := hx
    cases r with
    | type =>
      rw [referenceAt?, hat] at hr
      exact congrArg some (FieldDecl.typeNames_of_reference hr f.package)
    | containing =>
      rw [referenceAt?, hat] at hr
      cases hr
      rfl
    | _ => cases hr
  | @method i j x y d hx hy h =>
    obtain ⟨_, _, rfl⟩ := MethodDecl.document_eq_ok h
    have hat : f.methodAt? (.method i j) = some y := by rw [methodAt?, hx]; exact hy
    cases r with
    | request =>
      rw [referenceAt?, hat] at hr
      cases hr
      rfl
    | response =>
      rw [referenceAt?, hat] at hr
      cases hr
      rfl
    | _ => cases hr
  | _ => cases r <;> cases hr

/-- All references in a file: to the types of fields and extensions, to the messages that extensions
are for, and to what methods take and give. -/
def FileDecl.references (f : FileDecl) : List String :=
  ((f.allMessages.flatMap fun m ↦ m.decl.fields ++ m.decl.extensions) ++ f.extensions).filterMap
      (fun x ↦ (some x.typeName).filter (· ≠ "")) ++
    ((f.allMessages.flatMap fun m ↦ m.decl.extensions) ++ f.extensions).map (·.extendee) ++
    (f.services.flatMap (·.methods)).flatMap fun m ↦ [m.input, m.output]

namespace FileDecl

variable {f : FileDecl} {site : Site}

theorem mem_of_fieldAt? {x : FieldDecl} (h : f.fieldAt? site = some x) :
    ∃ m ∈ f.allMessages, x ∈ m.decl.fields := by
  cases site with
  | field s i =>
    obtain ⟨m, hm, hx⟩ := Option.bind_eq_some_iff.mp h
    exact ⟨m, mem_allMessages.mpr ⟨s, hm⟩, List.mem_of_getElem? hx⟩
  | _ => cases h

theorem mem_of_extensionAt? {x : FieldDecl} (h : f.extensionAt? site = some x) :
    (∃ m ∈ f.allMessages, x ∈ m.decl.extensions) ∨ x ∈ f.extensions := by
  cases site with
  | messageExtension s i =>
    obtain ⟨m, hm, hx⟩ := Option.bind_eq_some_iff.mp h
    exact .inl ⟨m, mem_allMessages.mpr ⟨s, hm⟩, List.mem_of_getElem? hx⟩
  | fileExtension i => exact .inr (List.mem_of_getElem? h)
  | _ => cases h

theorem mem_of_methodAt? {x : MethodDecl} (h : f.methodAt? site = some x) :
    ∃ s ∈ f.services, x ∈ s.methods := by
  cases site with
  | method i j =>
    obtain ⟨s, hs, hx⟩ := Option.bind_eq_some_iff.mp h
    exact ⟨s, List.mem_of_getElem? hs, List.mem_of_getElem? hx⟩
  | _ => cases h

theorem mem_references {r : Reference} {reference : String}
    (h : f.referenceAt? site r = some reference) : reference ∈ f.references := by
  cases r with
  | type =>
    obtain ⟨x, hx, hr⟩ : ∃ x, (f.fieldAt? site).or (f.extensionAt? site) = some x ∧
        (some x.typeName).filter (· ≠ "") = some reference := by
      cases ho : (f.fieldAt? site).or (f.extensionAt? site) with
      | none =>
        rw [referenceAt?, ho] at h
        cases h
      | some x =>
        rw [referenceAt?, ho] at h
        exact ⟨x, rfl, h⟩
    have hin : x ∈ (f.allMessages.flatMap fun m ↦ m.decl.fields ++ m.decl.extensions) ++
        f.extensions := by
      rcases Option.or_eq_some_iff.mp hx with hfield | ⟨-, hext⟩
      · obtain ⟨m, hm, hxm⟩ := mem_of_fieldAt? hfield
        exact List.mem_append_left _ (List.mem_flatMap.mpr ⟨m, hm, List.mem_append_left _ hxm⟩)
      · rcases mem_of_extensionAt? hext with ⟨m, hm, hxm⟩ | hxf
        · exact List.mem_append_left _ (List.mem_flatMap.mpr ⟨m, hm, List.mem_append_right _ hxm⟩)
        · exact List.mem_append_right _ hxf
    exact List.mem_append_left _ (List.mem_append_left _ (List.mem_filterMap.mpr ⟨x, hin, hr⟩))
  | containing =>
    obtain ⟨x, hx, rfl⟩ := Option.map_eq_some_iff.mp h
    have hin : x ∈ (f.allMessages.flatMap fun m ↦ m.decl.extensions) ++ f.extensions := by
      rcases mem_of_extensionAt? hx with ⟨m, hm, hxm⟩ | hxf
      · exact List.mem_append_left _ (List.mem_flatMap.mpr ⟨m, hm, hxm⟩)
      · exact List.mem_append_right _ hxf
    exact List.mem_append_left _ (List.mem_append_right _ (List.mem_map.mpr ⟨x, hin, rfl⟩))
  | request =>
    obtain ⟨x, hx, rfl⟩ := Option.map_eq_some_iff.mp h
    obtain ⟨s, hs, hxs⟩ := mem_of_methodAt? hx
    exact List.mem_append_right _ (List.mem_flatMap.mpr
      ⟨x, List.mem_flatMap.mpr ⟨s, hs, hxs⟩, List.mem_cons_self⟩)
  | response =>
    obtain ⟨x, hx, rfl⟩ := Option.map_eq_some_iff.mp h
    obtain ⟨s, hs, hxs⟩ := mem_of_methodAt? hx
    exact List.mem_append_right _ (List.mem_flatMap.mpr
      ⟨x, List.mem_flatMap.mpr ⟨s, hs, hxs⟩, List.mem_cons_of_mem _ List.mem_cons_self⟩)

end FileDecl

namespace Catalog

/-! ## References in a catalog -/

-- There are links for the names that are declared.
theorem mem_keys_links_of_declares [DescriptorPool] {registry : Option Registry}
    {files : List FileDecl} {c : Catalog} (h : build registry files = .ok c) {f : FileDecl}
    (hf : f ∈ files) {name : String} (hname : f.DeclaresName name) : name ∈ c.links.keys := by
  obtain ⟨docs, hdocs, -, hsettled, rfl⟩ := exists_settlement h
  obtain ⟨s, hs, hfs⟩ := exists_of_mem_left (forall₂_sameNames hdocs hsettled) hf
  exact mem_keys_links.mpr ⟨s, hs, (hfs.all name).mpr hname⟩

/-- References and declarations agree on names, and no link is missing.  A reference by the full
name gives the names of the declaration back.  The nodes of a catalog document declarations, and
those of messages and enumerations have their names.  And if all references in the files are by
full names that are declared, then whatever a node refers to, as its type, as the message it
extends, as a request or as a response, has a link. -/
theorem references_agree [DescriptorPool] {registry : Option Registry} {files : List FileDecl}
    {c : Catalog} (h : build registry files = .ok c)
    (hnames : ∀ f ∈ files, f.SegmentNames ∧ f.SegmentEnums) :
    (∀ f ∈ files, ∀ site names, f.namesAt? site = some names → names.ReadBack f.package) ∧
    (∀ node, c.HoldsNode node → ∃ f ∈ files, ∃ site, f.Documents registry site node) ∧
    (∀ f ∈ files, ∀ site node, f.Documents registry site node → node.names? = f.namesAt? site) ∧
    ((∀ f ∈ files, ∀ reference ∈ f.references, ∃ g ∈ files, ∃ name, g.DeclaresName name ∧
        reference = "." ++ name) →
      ∀ f ∈ files, ∀ site node, f.Documents registry site node →
        ∀ r reference, f.referenceAt? site r = some reference →
          ∃ names, node.reference? r = some names ∧
            names = Naming.ofReference reference f.package ∧ names.full ∈ c.links.keys) := by
  refine ⟨fun f hf site names hs ↦ ?_, fun node hn ↦ exists_documents h hn,
    fun f _ site node hd ↦ hd.names?_eq, fun hrefs f hf site node hd r reference hr ↦ ?_⟩
  · exact FileDecl.readBack_namesAt? (hnames f hf).1 (hnames f hf).2 hs
  · obtain ⟨g, hg, name, hname, rfl⟩ := hrefs f hf reference (FileDecl.mem_references hr)
    refine ⟨_, hd.reference?_eq hr, rfl, ?_⟩
    rw [full_ofReference_dot]
    exact mem_keys_links_of_declares h hg hname

/-! ## Two packages, one inside the other -/

/-- A file with a message and an enumeration inside it. -/
def partsFile : FileDecl :=
  plainFile "parts.proto" "shop.parts"
    [{ plainMessage "Part" [] [] with enums := [plainEnum "Grade"] }]

/-- An extension by an enumeration. -/
def gradeExtension : FieldDecl :=
  { plainField "grade" 100 .optional .enumeration ".shop.parts.Part.Grade" with
    extendee := ".shop.Order" }

/-- A file that refers to messages and to an enumeration of both packages. -/
def ordersFile : FileDecl :=
  { plainFile "orders.proto" "shop"
      [{ plainMessage "Order" [plainField "part" 1 .optional .message ".shop.parts.Part",
          plainField "count" 2 .optional (.scalar .int32) ""] [] with
        extensions := [gradeExtension] }] with
    services := [⟨"Orders", [⟨"Find", ".shop.Order", ".shop.parts.Part", false, false, []⟩], []⟩] }

attribute [local instance] Annotations.pool

/-- The extension shows the enumeration under its name relative to the outer package, and both what
it is of and what it extends have links. -/
theorem references_agree_parts : ∃ c, build none [partsFile, ordersFile] = .ok c ∧
    Naming.ofReference ".shop.parts.Part.Grade" "shop.parts" =
      ⟨"Grade", "Part.Grade", "shop.parts.Part.Grade"⟩ ∧
    ∃ node, ordersFile.Documents none (.messageExtension (.top 0) 0) node ∧
      node.reference? .type = some ⟨"Grade", "parts.Part.Grade", "shop.parts.Part.Grade"⟩ ∧
      "shop.parts.Part.Grade" ∈ c.links.keys ∧ "shop.Order" ∈ c.links.keys := by
  obtain ⟨c, hc, -⟩ : ∃ c, build none [partsFile, ordersFile] = .ok c ∧ True :=
    exists_ok (by decide +kernel)
  obtain ⟨doc, hdoc, -⟩ : ∃ doc, ordersFile.document none = .ok doc ∧ True :=
    exists_ok (by decide +kernel)
  have hnames : ∀ f ∈ [partsFile, ordersFile], f.SegmentNames ∧ f.SegmentEnums := by
    decide +kernel
  have hpart : partsFile.DeclaresName "shop.parts.Part" := .inl ⟨.top 0, _, rfl, by decide⟩
  have hgrade : partsFile.DeclaresName "shop.parts.Part.Grade" :=
    .inr ⟨.nested (.top 0) 0, _, rfl, by decide⟩
  have horder : ordersFile.DeclaresName "shop.Order" := .inl ⟨.top 0, _, rfl, by decide⟩
  have hrefs : ∀ f ∈ [partsFile, ordersFile], ∀ reference ∈ f.references,
      ∃ g ∈ [partsFile, ordersFile], ∃ name, g.DeclaresName name ∧ reference = "." ++ name := by
    have hparts : partsFile.references = [] := by decide +kernel
    have horders : ordersFile.references = [".shop.parts.Part", ".shop.parts.Part.Grade",
        ".shop.Order", ".shop.Order", ".shop.parts.Part"] := by decide +kernel
    simp only [List.forall_mem_cons, hparts, horders, List.not_mem_nil, false_implies,
      implies_true, and_true, true_and]
    have hin := List.mem_cons_self (a := partsFile) (l := [ordersFile])
    have hout : ordersFile ∈ [partsFile, ordersFile] :=
      List.mem_cons_of_mem _ (List.mem_singleton.mpr rfl)
    exact ⟨⟨_, hin, _, hpart, rfl⟩, ⟨_, hin, _, hgrade, rfl⟩, ⟨_, hout, _, horder, rfl⟩,
      ⟨_, hout, _, horder, rfl⟩, _, hin, _, hpart, rfl⟩
  have hdeclares : ordersFile.Declares (.messageExtension (.top 0) 0) := ⟨_, rfl, by decide⟩
  obtain ⟨node, -, hnode⟩ := FileDecl.exists_node hdoc hdeclares
  have hfile : ordersFile ∈ [partsFile, ordersFile] :=
    List.mem_cons_of_mem _ (List.mem_singleton.mpr rfl)
  have hdocuments : ordersFile.Documents none (.messageExtension (.top 0) 0) node :=
    ⟨node, hnode, rfl⟩
  obtain ⟨hread, -, -, hlinks⟩ := references_agree hc hnames
  have hown := (hread partsFile List.mem_cons_self (.enumeration (.nested (.top 0) 0))
    ⟨"Grade", "Part.Grade", "shop.parts.Part.Grade"⟩ (by decide)).own
  have hat := hlinks hrefs ordersFile hfile _ node hdocuments
  obtain ⟨_, htype, rfl, htypeKey⟩ := hat .type ".shop.parts.Part.Grade" (by decide)
  obtain ⟨_, -, rfl, hextendedKey⟩ := hat .containing ".shop.Order" (by decide)
  have hgradeNames : Naming.ofReference ".shop.parts.Part.Grade" ordersFile.package =
      ⟨"Grade", "parts.Part.Grade", "shop.parts.Part.Grade"⟩ := by decide
  have horderNames : Naming.ofReference ".shop.Order" ordersFile.package =
      ⟨"Order", "Order", "shop.Order"⟩ := by decide
  rw [hgradeNames] at htype htypeKey
  rw [horderNames] at hextendedKey
  have hwritten : "." ++ "shop.parts.Part.Grade" = ".shop.parts.Part.Grade" := by decide
  rw [hwritten] at hown
  exact ⟨c, hc, hown, node, hdocuments, htype, htypeKey, hextendedKey⟩

end Catalog
end ProtoCatalog
