import ProtoCatalog.Proofs.Nodes

/-!
# No two nodes have one address

The address of a node tells its site, and so the message, enumeration or service that holds it.
Each of these is documented once, and so is each of its parts.
-/

namespace ProtoCatalog

/-! ## Addresses by owners -/

theorem Site.address_injective : Function.Injective Site.address := fun _ _ h ↦ address_inj.mp h

-- Groups of addresses whose sites differ in some respect have no address in common.
theorem nodup_flatMap_sites {α κ : Type} (key : α → κ) (respect : Site → κ) {l : List α}
    {f : α → List Address} (hl : (l.map key).Nodup) (hf : ∀ a ∈ l, (f a).Nodup)
    (hkey : ∀ a ∈ l, ∀ b ∈ f a, ∃ site : Site, b = site.address ∧ respect site = key a) :
    (l.flatMap f).Nodup := by
  rw [List.nodup_flatMap]
  refine ⟨hf, ?_⟩
  apply (List.pairwise_map.mp hl).imp_of_mem
  intro a b ha hb hne x hxa hxb
  obtain ⟨s, hs, hks⟩ := hkey a ha x hxa
  obtain ⟨t, ht, hkt⟩ := hkey b hb x hxb
  have hst : s = t := Site.address_injective (hs.symm.trans ht)
  exact hne (by rw [← hks, ← hkt, hst])

-- A declaration and the parts of one kind that it has.
theorem nodup_cons_parts {whole : Site} {part : Nat → Site} (hp : Function.Injective part)
    (hne : ∀ i, whole ≠ part i) (n : Nat) :
    (whole.address :: (List.range n).map fun i ↦ (part i).address).Nodup := by
  rw [List.nodup_cons]
  constructor
  · intro hm
    obtain ⟨i, -, hi⟩ := List.mem_map.mp hm
    exact hne i (Site.address_injective hi.symm)
  · exact List.nodup_range.map (Site.address_injective.comp hp)

/-- The nodes of a declaration and its parts, one for each. -/
structure Group [DescriptorPool] (ctx : DocContext) (whole : Site) (path : Address)
    (nodes : List Node) : Prop where
  path_eq : path = whole.address
  nodup : (nodes.map Node.address).Nodup
  exists_site : ∀ node ∈ nodes, ∃ site, Documented ctx site node ∧ site.owner = whole

-- Groups of different declarations have no address in common.
theorem nodup_flatMap_groups [DescriptorPool] {α σ : Type} {ctx : DocContext} {docs : List α}
    {path : α → Address} {nodes : α → List Node} {whole : σ → Site}
    (hpath : (docs.map path).Nodup)
    (h : ∀ d ∈ docs, ∃ s, Group ctx (whole s) (path d) (nodes d)) :
    ((docs.flatMap nodes).map Node.address).Nodup := by
  rw [List.map_flatMap]
  apply nodup_flatMap_sites path (fun site ↦ site.owner.address) hpath
  · intro d hd
    obtain ⟨s, hs⟩ := h d hd
    exact hs.nodup
  · intro d hd a ha
    obtain ⟨s, hs⟩ := h d hd
    obtain ⟨node, hn, rfl⟩ := List.mem_map.mp ha
    obtain ⟨site, hsite, howner⟩ := hs.exists_site node hn
    exact ⟨site, hsite.source.1, by rw [howner, hs.path_eq]⟩

/-! ## Enumerations and services -/

theorem EnumDoc.map_address_nodes (d : EnumDoc) :
    d.nodes.map Node.address = d.source.path :: d.values.map (·.address) := by
  rw [nodes, List.map_cons, List.map_map]
  rfl

theorem ServiceDoc.map_address_nodes (d : ServiceDoc) :
    d.nodes.map Node.address = d.source.path :: d.methods.map (·.address) := by
  rw [nodes, List.map_cons, List.map_map]
  rfl

theorem MessageDoc.map_address_nodes (d : MessageDoc) :
    d.nodes.map Node.address = d.source.path :: (d.extensions.map (·.address) ++
      (d.allFields.map (·.address) ++ d.oneofs.map (·.source.path))) := by
  simp only [MessageDoc.nodes, List.map_cons, List.map_append, List.map_map]
  rfl

section Docs

variable [DescriptorPool] {ctx : DocContext}

theorem EnumDoc.nodup_address_nodes {s : EnumSite} {e : Placed EnumDecl} {d : EnumDoc}
    (he : ctx.file.enumAt? s = some e) (h : EnumDecl.document ctx e = .ok d) :
    (d.nodes.map Node.address).Nodup := by
  have hpath : d.source.path = (Site.enumeration s).address :=
    (Documented.enumeration he h).source.1
  have hvalues : d.values.map (·.address) =
      (List.range e.decl.values.length).map fun i ↦ (Site.enumValue s i).address := by
    obtain ⟨_, values, _, hall, rfl⟩ := EnumDecl.document_eq_ok h
    rw [FileDecl.enumAt?_address he] at hall
    apply map_address_documentAll hall
    intro a v y hy
    obtain ⟨_, _, rfl⟩ := EnumValueDecl.document_eq_ok hy
    rfl
  rw [map_address_nodes, hpath, hvalues]
  apply nodup_cons_parts
  · intro i j hij
    exact (Site.enumValue.inj hij).2
  · intro i hi
    cases hi

theorem ServiceDoc.nodup_address_nodes {i : Nat} {x : ServiceDecl} {d : ServiceDoc}
    (hx : ctx.file.services[i]? = some x) (h : x.document ctx (Site.service i).address = .ok d) :
    (d.nodes.map Node.address).Nodup := by
  have hpath : d.source.path = (Site.service i).address := (Documented.service hx h).source.1
  have hmethods : d.methods.map (·.address) =
      (List.range x.methods.length).map fun j ↦ (Site.method i j).address := by
    obtain ⟨_, methods, _, hall, rfl⟩ := ServiceDecl.document_eq_ok h
    apply map_address_documentAll hall
    intro a m y hy
    obtain ⟨_, _, rfl⟩ := MethodDecl.document_eq_ok hy
    rfl
  rw [map_address_nodes, hpath, hmethods]
  apply nodup_cons_parts
  · intro j k hjk
    exact (Site.method.inj hjk).2
  · intro j hj
    cases hj

theorem EnumDoc.group {s : EnumSite} {e : Placed EnumDecl} {d : EnumDoc}
    (he : ctx.file.enumAt? s = some e) (h : EnumDecl.document ctx e = .ok d) :
    Group ctx (.enumeration s) d.source.path d.nodes where
  path_eq := (Documented.enumeration he h).source.1
  nodup := nodup_address_nodes he h
  exists_site := fun _ hn ↦ exists_site he h hn

theorem ServiceDoc.group {i : Nat} {x : ServiceDecl} {d : ServiceDoc}
    (hx : ctx.file.services[i]? = some x) (h : x.document ctx (Site.service i).address = .ok d) :
    Group ctx (.service i) d.source.path d.nodes where
  path_eq := (Documented.service hx h).source.1
  nodup := nodup_address_nodes hx h
  exists_site := fun _ hn ↦ exists_site hx h hn

/-! ## Messages -/

namespace MessageDoc

variable {s : MessageSite} {m : Placed MessageDecl} {d : MessageDoc}

theorem map_address_extensions (hm : ctx.file.messageAt? s = some m)
    (h : MessageDecl.document ctx m = .ok d) : d.extensions.map (·.address) =
      ((List.range m.decl.extensions.length).map (Site.messageExtension s)).map Site.address := by
  obtain ⟨_, extensions, _, _, hall, _, rfl⟩ := MessageDecl.document_eq_ok h
  rw [FileDecl.messageAt?_address hm] at hall
  rw [List.map_map]
  apply map_address_documentAll hall
  intro a x y hy
  obtain ⟨_, _, rfl⟩ := FieldDecl.documentExtension_eq_ok hy
  rfl

theorem map_address_allFields_perm (hm : ctx.file.messageAt? s = some m)
    (h : MessageDecl.document ctx m = .ok d) : (d.allFields.map (·.address)).Perm
      (((List.range m.decl.fields.length).map (Site.field s)).map Site.address) := by
  obtain ⟨fields, hall, hp⟩ := MessageDecl.allFields_perm h
  rw [FileDecl.messageAt?_address hm] at hall
  rw [List.map_map]
  have haddr := map_address_documentAll hall fun _ _ _ ↦ FieldDecl.address_document
  exact haddr ▸ hp.map (·.address)

theorem map_address_oneofs (hm : ctx.file.messageAt? s = some m)
    (h : MessageDecl.document ctx m = .ok d) :
    ∃ ks : List Int, ks.Nodup ∧
      d.oneofs.map (·.source.path) = (ks.map (Site.oneof s)).map Site.address := by
  obtain ⟨_, _, fields, _, _, _, rfl⟩ := MessageDecl.document_eq_ok h
  refine ⟨_, Keys.nodup_eraseDups ((MessageDecl.oneofMembers m.decl.fields fields).map (·.1)), ?_⟩
  show (MessageDecl.oneofDocs ctx m fields).map _ = _
  rw [MessageDecl.oneofDocs_eq_map, FileDecl.messageAt?_address hm, List.map_map, List.map_map]
  apply List.map_congr_left
  intro k _
  exact FileDecl.path_sourceAt _ _

theorem nodup_address_nodes (hm : ctx.file.messageAt? s = some m)
    (h : MessageDecl.document ctx m = .ok d) : (d.nodes.map Node.address).Nodup := by
  have hpath : d.source.path = (Site.message s).address := (Documented.message hm h).source.1
  obtain ⟨ks, hks, honeofs⟩ := map_address_oneofs hm h
  let sites := Site.message s ::
    ((List.range m.decl.extensions.length).map (Site.messageExtension s) ++
      ((List.range m.decl.fields.length).map (Site.field s) ++ ks.map (Site.oneof s)))
  -- The nodes are at these sites, in some order, and the sites are all different.
  have hperm : (d.nodes.map Node.address).Perm (sites.map Site.address) := by
    rw [map_address_nodes, hpath, map_address_extensions hm h, honeofs]
    simp only [sites, List.map_cons, List.map_append]
    exact (((map_address_allFields_perm hm h).append_right _).append_left _).cons _
  have hnodup : sites.Nodup := by
    have hext : Function.Injective (Site.messageExtension s) := fun _ _ hij ↦
      (Site.messageExtension.inj hij).2
    have hfield : Function.Injective (Site.field s) := fun _ _ hij ↦ (Site.field.inj hij).2
    have honeof : Function.Injective (Site.oneof s) := fun _ _ hij ↦ (Site.oneof.inj hij).2
    rw [List.nodup_cons, List.nodup_append, List.nodup_append]
    refine ⟨by simp, List.nodup_range.map hext,
      ⟨List.nodup_range.map hfield, hks.map honeof, ?_⟩, ?_⟩
    · intro a ha b hb
      obtain ⟨i, -, rfl⟩ := List.mem_map.mp ha
      obtain ⟨k, -, rfl⟩ := List.mem_map.mp hb
      exact nofun
    · intro a ha b hb
      obtain ⟨i, -, rfl⟩ := List.mem_map.mp ha
      rcases List.mem_append.mp hb with hb | hb
      · obtain ⟨j, -, rfl⟩ := List.mem_map.mp hb
        exact nofun
      · obtain ⟨k, -, rfl⟩ := List.mem_map.mp hb
        exact nofun
  exact hperm.symm.nodup (hnodup.map Site.address_injective)

theorem group (hm : ctx.file.messageAt? s = some m) (h : MessageDecl.document ctx m = .ok d) :
    Group ctx (.message s) d.source.path d.nodes where
  path_eq := (Documented.message hm h).source.1
  nodup := nodup_address_nodes hm h
  exists_site := fun _ hn ↦ exists_site hm h hn

end MessageDoc

end Docs

/-! ## Files -/

namespace FileDecl

/-- The nodes of a file by the collections that list them, its own in front. -/
def parts (doc : FileDoc) : List (Collection × List Node) :=
  [(.fileSyntax, [.file doc]), (.fileEnums, doc.enums.flatMap EnumDoc.nodes),
   (.fileExtensions, doc.extensions.map .ext),
   (.fileMessages, doc.messages.flatMap MessageDoc.nodes),
   (.fileServices, doc.services.flatMap ServiceDoc.nodes)]

theorem nodes_eq_flatMap (doc : FileDoc) : doc.nodes = (parts doc).flatMap (·.2) := by
  simp [FileDoc.nodes, parts]

variable [DescriptorPool] {registry : Option Registry} {f : FileDecl} {doc : FileDoc}

theorem map_path_enums (h : f.document registry = .ok doc) :
    (doc.enums.map (·.source.path)).Perm (f.allEnums.map (·.address)) := by
  obtain ⟨_, enums, _, _, _, _, hall, _, _, _, rfl⟩ := document_eq_ok h
  have hmap : enums.map (·.source.path) = f.allEnums.map (·.address) := by
    apply map_eq_map_of_forall₂ (mapM_eq_ok.mp hall)
    intro e d hd
    obtain ⟨_, _, _, _, rfl⟩ := EnumDecl.document_eq_ok hd
    exact path_sourceAt f _
  exact hmap ▸ (sortByName_perm _ _).map _

theorem map_path_messages (h : f.document registry = .ok doc) :
    (doc.messages.map (·.source.path)).Perm (f.allMessages.map (·.address)) := by
  obtain ⟨messages, hall, hp⟩ := messages_document h
  have hmap : messages.map (·.source.path) = f.allMessages.map (·.address) := by
    apply map_eq_map_of_forall₂ hall
    intro m d hd
    obtain ⟨_, _, _, _, _, _, rfl⟩ := MessageDecl.document_eq_ok hd
    exact path_sourceAt f _
  exact hmap ▸ hp.map _

theorem map_path_services (h : f.document registry = .ok doc) :
    (doc.services.map (·.source.path)).Perm
      ((List.range f.services.length).map fun i ↦ (Site.service i).address) := by
  obtain ⟨_, _, _, _, services, _, _, _, _, hall, rfl⟩ := document_eq_ok h
  have hmap : services.map (·.source.path) =
      (List.range f.services.length).map fun i ↦ (Site.service i).address := by
    apply map_address_documentAll hall
    intro a x y hy
    obtain ⟨_, _, _, _, rfl⟩ := ServiceDecl.document_eq_ok hy
    exact path_sourceAt f a
  exact hmap ▸ (sortByName_perm _ _).map _

theorem map_address_fileExtensions (h : f.document registry = .ok doc) :
    (doc.extensions.map (·.address)).Perm
      ((List.range f.extensions.length).map fun i ↦ (Site.fileExtension i).address) := by
  obtain ⟨_, _, _, extensions, _, _, _, _, hall, _, rfl⟩ := document_eq_ok h
  have hmap : extensions.map (·.address) =
      (List.range f.extensions.length).map fun i ↦ (Site.fileExtension i).address := by
    apply map_address_documentAll hall
    intro a x y hy
    obtain ⟨_, _, rfl⟩ := FieldDecl.documentExtension_eq_ok hy
    rfl
  exact hmap ▸ (sortByName_perm _ _).map _

theorem exists_site_of_group {α σ : Type} {ctx : DocContext} {docs : List α} {path : α → Address}
    {nodes : α → List Node} {whole : σ → Site} {c : Collection} (hc : ∀ s, (whole s).collection = c)
    (h : ∀ d ∈ docs, ∃ s, Group ctx (whole s) (path d) (nodes d)) :
    ∀ node ∈ docs.flatMap nodes, ∃ site, Documented ctx site node ∧ site.collection = c := by
  intro node hn
  obtain ⟨d, hd, hn⟩ := List.mem_flatMap.mp hn
  obtain ⟨s, hs⟩ := h d hd
  obtain ⟨site, hsite, howner⟩ := hs.exists_site node hn
  exact ⟨site, hsite, by rw [← Site.collection_owner, howner, hc]⟩

/-- The nodes of each part have different addresses, and their sites are listed there. -/
theorem parts_distinct (h : f.document registry = .ok doc) :
    ∀ p ∈ parts doc, (p.2.map Node.address).Nodup ∧
      ∀ node ∈ p.2, ∃ site, Documented ⟨f, registry⟩ site node ∧ site.collection = p.1 := by
  have henums : ∀ d ∈ doc.enums,
      ∃ s, Group ⟨f, registry⟩ (.enumeration s) d.source.path d.nodes := by
    intro d hd
    obtain ⟨s, e, hs, hdoc⟩ := exists_enum_site h hd
    exact ⟨s, EnumDoc.group hs hdoc⟩
  have hmessages : ∀ d ∈ doc.messages,
      ∃ s, Group ⟨f, registry⟩ (.message s) d.source.path d.nodes := by
    intro d hd
    obtain ⟨s, m, hs, hdoc⟩ := exists_message_site h hd
    exact ⟨s, MessageDoc.group hs hdoc⟩
  have hservices : ∀ d ∈ doc.services,
      ∃ i, Group ⟨f, registry⟩ (.service i) d.source.path d.nodes := by
    intro d hd
    obtain ⟨i, x, hx, hdoc⟩ := exists_service_site h hd
    exact ⟨i, ServiceDoc.group hx hdoc⟩
  -- One goal for each part; those with groups inside them go through the groups.
  simp only [parts, List.forall_mem_cons, List.not_mem_nil, false_implies, implies_true, and_true]
  refine ⟨⟨List.nodup_singleton _, ?_⟩, ⟨?_, exists_site_of_group (fun _ ↦ rfl) henums⟩, ⟨?_, ?_⟩,
    ⟨?_, exists_site_of_group (fun _ ↦ rfl) hmessages⟩,
    ⟨?_, exists_site_of_group (fun _ ↦ rfl) hservices⟩⟩
  · exact ⟨.file, .file h, rfl⟩
  · exact nodup_flatMap_groups ((map_path_enums h).symm.nodup f.nodup_address_allEnums) henums
  · have haddr := (map_address_fileExtensions h).symm.nodup
    rw [List.map_map]
    apply haddr
    apply List.nodup_range.map
    intro i j hij
    exact Site.fileExtension.inj (Site.address_injective hij)
  · intro node hn
    obtain ⟨d, hd, rfl⟩ := List.mem_map.mp hn
    obtain ⟨i, x, hx, hdoc⟩ := exists_extension_site h hd
    exact ⟨_, .fileExtension hx hdoc, rfl⟩
  · exact nodup_flatMap_groups ((map_path_messages h).symm.nodup f.nodup_address_allMessages)
      hmessages
  · apply nodup_flatMap_groups ((map_path_services h).symm.nodup ?_) hservices
    apply List.nodup_range.map
    intro i j hij
    exact Site.service.inj (Site.address_injective hij)

/-- No two nodes of a documented file have one address. -/
theorem nodup_address_nodes (h : f.document registry = .ok doc) :
    (doc.nodes.map Node.address).Nodup := by
  rw [nodes_eq_flatMap, List.map_flatMap]
  apply nodup_flatMap_sites (fun p : Collection × List Node ↦ p.1) Site.collection
  · simp only [parts, List.map_cons, List.map_nil]
    decide
  · intro p hp
    exact (parts_distinct h p hp).1
  · intro p hp a ha
    obtain ⟨node, hn, rfl⟩ := List.mem_map.mp ha
    obtain ⟨site, hsite, hc⟩ := (parts_distinct h p hp).2 node hn
    exact ⟨site, hsite.source.1, hc⟩

end FileDecl
end ProtoCatalog
