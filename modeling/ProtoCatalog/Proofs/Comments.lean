import Mathlib.Data.List.Sort
import ProtoCatalog.Proofs.Veils
import ProtoCatalog.Schema.Annotations

/-!
# Comments reach the declaration that they address

What the locations of a file say of one address goes into the source and the description of the one
node with that address, and nowhere else.
-/

namespace ProtoCatalog

/-! ## Steps that agree -/

section Steps

variable {ε α β γ δ : Type}

theorem map_bind_congr {x y : Except ε α} {u : α → γ} {k l : α → Except ε β} {v : β → δ}
    (hx : x.map u = y.map u) (hk : ∀ a b, u a = u b → (k a).map v = (l b).map v) :
    (x >>= k).map v = (y >>= l).map v := by
  -- Both sides fail alike or both go on: what the first step is seen to give decides.
  cases x with
  | error e =>
    cases y with
    | error e' =>
      have he : e = e' := Except.error.inj hx
      rw [he]
      rfl
    | ok b => cases hx
  | ok a =>
    cases y with
    | error e' => cases hx
    | ok b => exact hk a b (Except.ok.inj hx)

theorem map_bind_right {x : Except ε α} {k l : α → Except ε β} {v : β → δ}
    (hk : ∀ a, (k a).map v = (l a).map v) : (x >>= k).map v = (x >>= l).map v := by
  cases x with
  | error e => rfl
  | ok a => exact hk a

theorem map_mapM_congr {f g : α → Except ε β} {v : β → δ} {xs : List α}
    (h : ∀ x, (f x).map v = (g x).map v) :
    (xs.mapM f).map (List.map v) = (xs.mapM g).map (List.map v) := by
  induction xs with
  | nil => rfl
  | cons x rest ih =>
    rw [List.mapM_cons, List.mapM_cons]
    apply map_bind_congr (h x)
    intro a b hab
    apply map_bind_congr ih
    intro as bs habs
    show Except.ok _ = Except.ok _
    rw [List.map_cons, List.map_cons, hab, habs]

end Steps

theorem map_documentAll_congr {α β δ : Type} {path : Address} {collection : Collection}
    {f g : Address → α → Except DeclFault β} {v : β → δ} {decls : List α}
    (h : ∀ a x, (f a x).map v = (g a x).map v) :
    (documentAll path collection f decls).map (List.map v) =
      (documentAll path collection g decls).map (List.map v) :=
  map_mapM_congr fun p ↦ h p.1 p.2

-- Sorting looks at names, which no comment changes.
theorem map_sortByName_congr {α : Type} (name : α → String) {v : α → α} {docs docs' : List α}
    (h : docs.map v = docs'.map v) (hv : ∀ a, name (v a) = name a) :
    (sortByName name docs).map v = (sortByName name docs').map v := by
  have hsort : ∀ xs : List α, (sortByName name xs).map v = sortByName name (xs.map v) := by
    intro xs
    apply List.map_mergeSort
    intro a _ b _
    rw [hv, hv]
  rw [hsort, hsort, h]

/-! ## Declarations -/

section Declarations

variable {p : Address} {f : FileDecl} {registry : Option Registry} {ls ls' : List Location}

/-- Two lists of locations that say the same of every address but one. -/
def AgreeBut (p : Address) (ls ls' : List Location) : Prop :=
  ∀ q, q ≠ p → Location.find? ls q = Location.find? ls' q

theorem FileDecl.file_sourceAt (f : FileDecl) (a : Address) : (f.sourceAt a).file = f.name := by
  unfold sourceAt Source.find?
  cases Location.find? f.locations a <;> rfl

theorem AgreeBut.sourceAt (h : AgreeBut p ls ls') {a : Address} (ha : a ≠ p) :
    FileDecl.sourceAt { f with locations := ls } a =
      FileDecl.sourceAt { f with locations := ls' } a := by
  simp only [FileDecl.sourceAt, Source.find?, h a ha]

theorem AgreeBut.veil_sourceAt (h : AgreeBut p ls ls') (a : Address) :
    (FileDecl.sourceAt { f with locations := ls } a).veil p =
      (FileDecl.sourceAt { f with locations := ls' } a).veil p := by
  by_cases ha : a = p
  · simp only [Source.veil, FileDecl.path_sourceAt, FileDecl.file_sourceAt, if_pos ha]
  · rw [h.sourceAt ha]

theorem AgreeBut.hide (h : AgreeBut p ls ls') (a : Address) (describe : Source → String) :
    ProtoCatalog.hide p a (describe (FileDecl.sourceAt { f with locations := ls } a)) =
      ProtoCatalog.hide p a (describe (FileDecl.sourceAt { f with locations := ls' } a)) := by
  unfold ProtoCatalog.hide
  by_cases ha : a = p
  · rw [if_pos ha, if_pos ha]
  · rw [h.sourceAt ha]

theorem EnumValueDecl.veil_document [DescriptorPool] (h : AgreeBut p ls ls') (a : Address)
    (v : EnumValueDecl) :
    (v.document ⟨{ f with locations := ls }, registry⟩ a).map (EnumValueDoc.veil p) =
      (v.document ⟨{ f with locations := ls' }, registry⟩ a).map (EnumValueDoc.veil p) := by
  apply map_bind_right
  intro options
  show Except.ok _ = Except.ok _
  simp only [EnumValueDoc.veil, DocContext.descriptionAt, h.hide]

theorem EnumDecl.veil_document [DescriptorPool] (h : AgreeBut p ls ls') (e : Placed EnumDecl) :
    (EnumDecl.document ⟨{ f with locations := ls }, registry⟩ e).map (EnumDoc.veil p) =
      (EnumDecl.document ⟨{ f with locations := ls' }, registry⟩ e).map (EnumDoc.veil p) := by
  apply map_bind_right
  intro options
  apply map_bind_congr (map_documentAll_congr (EnumValueDecl.veil_document h))
  intro values values' hv
  show Except.ok _ = Except.ok _
  simp only [EnumDoc.veil, FileDecl.path_sourceAt, hv, h.veil_sourceAt, h.hide _ Source.description]
  rfl

theorem FieldDecl.veil_document [DescriptorPool] (h : AgreeBut p ls ls') (oneofs : List OneofDecl)
    (a : Address) (x : FieldDecl) :
    (x.document ⟨{ f with locations := ls }, registry⟩ oneofs a).map (FieldDoc.veil p) =
      (x.document ⟨{ f with locations := ls' }, registry⟩ oneofs a).map (FieldDoc.veil p) := by
  apply map_bind_right
  intro options
  apply map_bind_right
  intro oneof
  show Except.ok _ = Except.ok _
  simp only [FieldDoc.veil, DocContext.descriptionAt, h.hide]
  rfl

theorem FieldDecl.veil_documentExtension [DescriptorPool] (h : AgreeBut p ls ls') (long : String)
    (scope : Option Naming) (a : Address) (x : FieldDecl) :
    (x.documentExtension ⟨{ f with locations := ls }, registry⟩ long scope a).map
        (ExtensionDoc.veil p) =
      (x.documentExtension ⟨{ f with locations := ls' }, registry⟩ long scope a).map
        (ExtensionDoc.veil p) := by
  apply map_bind_right
  intro options
  show Except.ok _ = Except.ok _
  simp only [ExtensionDoc.veil, DocContext.descriptionAt, h.hide]
  rfl

theorem MethodDecl.veil_document [DescriptorPool] (h : AgreeBut p ls ls') (a : Address)
    (m : MethodDecl) :
    (m.document ⟨{ f with locations := ls }, registry⟩ a).map (MethodDoc.veil p) =
      (m.document ⟨{ f with locations := ls' }, registry⟩ a).map (MethodDoc.veil p) := by
  apply map_bind_right
  intro options
  show Except.ok _ = Except.ok _
  simp only [MethodDoc.veil, DocContext.descriptionAt, h.hide]
  rfl

theorem ServiceDecl.veil_document [DescriptorPool] (h : AgreeBut p ls ls') (a : Address)
    (x : ServiceDecl) :
    (x.document ⟨{ f with locations := ls }, registry⟩ a).map (ServiceDoc.veil p) =
      (x.document ⟨{ f with locations := ls' }, registry⟩ a).map (ServiceDoc.veil p) := by
  apply map_bind_right
  intro options
  apply map_bind_congr (map_documentAll_congr (MethodDecl.veil_document h))
  intro methods methods' hm
  show Except.ok _ = Except.ok _
  simp only [ServiceDoc.veil, FileDecl.path_sourceAt, hm, h.veil_sourceAt,
    h.hide _ Source.description]
  rfl

/-! ## Oneofs -/

theorem MessageDecl.oneofMembers_map (decls : List FieldDecl) (docs : List FieldDoc)
    (v : FieldDoc → FieldDoc) :
    oneofMembers decls (docs.map v) = (oneofMembers decls docs).map (Prod.map id v) := by
  rw [oneofMembers, oneofMembers, List.zip_map_right, List.filterMap_map, List.map_filterMap]
  apply List.filterMap_congr
  intro e _
  obtain ⟨d, y⟩ := e
  simp only [Function.comp_apply, Prod.map, id_eq]
  by_cases hm : d.isOneofMember = true
  · rw [if_pos hm, if_pos hm, Option.map_map]
    rfl
  · rw [if_neg hm, if_neg hm, Option.map_none]

theorem MessageDecl.membersAt_map (decls : List FieldDecl) (docs : List FieldDoc) (k : Int)
    (v : FieldDoc → FieldDoc) :
    membersAt decls (docs.map v) k = (membersAt decls docs k).map v := by
  rw [membersAt, membersAt, oneofMembers_map, List.filter_map, List.map_map, List.map_map]
  rfl

-- The veiled fields of a message tell its oneofs, but for their names.
theorem MessageDecl.oneofKeys_congr {decls : List FieldDecl} {docs docs' : List FieldDoc}
    (h : docs.map (FieldDoc.veil p) = docs'.map (FieldDoc.veil p)) :
    (oneofMembers decls docs).map (·.1) = (oneofMembers decls docs').map (·.1) := by
  have hkeys : ∀ ys : List FieldDoc, (oneofMembers decls (ys.map (FieldDoc.veil p))).map (·.1) =
      (oneofMembers decls ys).map (·.1) := by
    intro ys
    rw [oneofMembers_map, List.map_map]
    rfl
  rw [← hkeys docs, h, hkeys]

theorem OneofDoc.veil_ofMembers (h : AgreeBut p ls ls') (a : Address) (k : Int)
    {docs docs' : List FieldDoc} (hd : docs.map (FieldDoc.veil p) = docs'.map (FieldDoc.veil p)) :
    (OneofDoc.ofMembers ⟨{ f with locations := ls }, registry⟩ a k docs).veil p =
      (OneofDoc.ofMembers ⟨{ f with locations := ls' }, registry⟩ a k docs').veil p := by
  have hname : ∀ ys : List FieldDoc,
      ys.head?.bind (·.oneof) = (ys.map (FieldDoc.veil p)).head?.bind (·.oneof) := by
    intro ys
    rw [List.head?_map]
    cases ys.head? <;> rfl
  simp only [OneofDoc.ofMembers, OneofDoc.veil, FileDecl.path_sourceAt, hd, hname docs,
    hname docs', h.veil_sourceAt, h.hide _ fun s ↦ Comment.join [s.leading, s.trailing]]

theorem MessageDecl.veil_oneofDocs (h : AgreeBut p ls ls') (m : Placed MessageDecl)
    {docs docs' : List FieldDoc} (hd : docs.map (FieldDoc.veil p) = docs'.map (FieldDoc.veil p)) :
    (oneofDocs ⟨{ f with locations := ls }, registry⟩ m docs).map (OneofDoc.veil p) =
      (oneofDocs ⟨{ f with locations := ls' }, registry⟩ m docs').map (OneofDoc.veil p) := by
  rw [oneofDocs_eq_map, oneofDocs_eq_map, List.map_map, List.map_map, oneofKeys_congr hd]
  apply List.map_congr_left
  intro k _
  apply OneofDoc.veil_ofMembers h
  rw [← membersAt_map, ← membersAt_map, hd]

theorem FieldDoc.veil_plain {docs docs' : List FieldDoc}
    (hd : docs.map (FieldDoc.veil p) = docs'.map (FieldDoc.veil p)) :
    (docs.filter (·.oneof.isNone)).map (FieldDoc.veil p) =
      (docs'.filter (·.oneof.isNone)).map (FieldDoc.veil p) := by
  have hfilter : ∀ ys : List FieldDoc, (ys.filter (·.oneof.isNone)).map (FieldDoc.veil p) =
      (ys.map (FieldDoc.veil p)).filter (·.oneof.isNone) := by
    intro ys
    rw [List.filter_map]
    rfl
  rw [hfilter, hfilter, hd]

/-! ## Messages and files -/

/-- The documentation of a message from that of its parts. -/
def MessageDecl.docOf (ctx : DocContext) (m : Placed MessageDecl) (options : Option OptionMap)
    (extensions : List ExtensionDoc) (fields : List FieldDoc) : MessageDoc where
  names := ctx.names m.decl.name m.longName
  description := (ctx.file.sourceAt m.address).description
  hasExtensions := !m.decl.extensions.isEmpty
  hasFields := !m.decl.fields.isEmpty
  hasOneofs := !(oneofDocs ctx m fields).isEmpty
  extensions := extensions
  fields := fields.filter (·.oneof.isNone)
  oneofs := oneofDocs ctx m fields
  options := options
  source := ctx.file.sourceAt m.address
  internal := false

theorem MessageDecl.veil_docOf (h : AgreeBut p ls ls') (m : Placed MessageDecl)
    (options : Option OptionMap) {extensions extensions' : List ExtensionDoc}
    (he : extensions.map (ExtensionDoc.veil p) = extensions'.map (ExtensionDoc.veil p))
    {fields fields' : List FieldDoc}
    (hf : fields.map (FieldDoc.veil p) = fields'.map (FieldDoc.veil p)) :
    (docOf ⟨{ f with locations := ls }, registry⟩ m options extensions fields).veil p =
      (docOf ⟨{ f with locations := ls' }, registry⟩ m options extensions' fields').veil p := by
  have honeofs : (oneofDocs ⟨{ f with locations := ls }, registry⟩ m fields).map
      (OneofDoc.veil p) = (oneofDocs ⟨{ f with locations := ls' }, registry⟩ m fields').map
      (OneofDoc.veil p) := veil_oneofDocs h m hf
  -- Whether there are oneofs is a flag of its own, and a veil keeps their number.
  have hempty := congrArg List.isEmpty honeofs
  rw [List.isEmpty_map, List.isEmpty_map] at hempty
  simp only [docOf, MessageDoc.veil, FileDecl.path_sourceAt, he, FieldDoc.veil_plain hf, honeofs,
    hempty, h.veil_sourceAt, h.hide _ Source.description]
  rfl

theorem MessageDecl.veil_document [DescriptorPool] (h : AgreeBut p ls ls')
    (m : Placed MessageDecl) :
    (MessageDecl.document ⟨{ f with locations := ls }, registry⟩ m).map (MessageDoc.veil p) =
      (MessageDecl.document ⟨{ f with locations := ls' }, registry⟩ m).map (MessageDoc.veil p) := by
  -- Options take nothing from comments; extensions and fields agree but for their descriptions.
  apply map_bind_right
  intro options
  apply map_bind_congr (map_documentAll_congr fun a x ↦ FieldDecl.veil_documentExtension h _ _ a x)
  intro extensions extensions' he
  apply map_bind_congr (map_documentAll_congr fun a x ↦ FieldDecl.veil_document h _ a x)
  intro fields fields' hf
  exact congrArg Except.ok (veil_docOf h m options he hf)

/-- Locations that agree but at one address give documents that agree but for its node. -/
theorem FileDecl.veil_document [DescriptorPool] (h : AgreeBut p ls ls') (f : FileDecl)
    (registry : Option Registry) :
    (FileDecl.document registry { f with locations := ls }).map (FileDoc.veil p) =
      (FileDecl.document registry { f with locations := ls' }).map (FileDoc.veil p) := by
  apply map_bind_right
  intro options
  apply map_bind_congr (map_mapM_congr fun e ↦ EnumDecl.veil_document (f := f) h e)
  intro enums enums' he
  apply map_bind_congr (map_mapM_congr fun m ↦ MessageDecl.veil_document (f := f) h m)
  intro messages messages' hm
  apply map_bind_congr
    (map_documentAll_congr fun a x ↦ FieldDecl.veil_documentExtension (f := f) h _ _ a x)
  intro extensions extensions' hx
  apply map_bind_congr (map_documentAll_congr fun a x ↦ ServiceDecl.veil_document (f := f) h a x)
  intro services services' hs
  have henums := map_sortByName_congr (fun d : EnumDoc ↦ d.names.long) he fun _ ↦ rfl
  have hmessages := map_sortByName_congr (fun d : MessageDoc ↦ d.names.long) hm fun _ ↦ rfl
  have hexts := map_sortByName_congr (fun d : ExtensionDoc ↦ d.names.long) hx fun _ ↦ rfl
  have hservices := map_sortByName_congr (fun d : ServiceDoc ↦ d.names.long) hs fun _ ↦ rfl
  show Except.ok _ = Except.ok _
  simp only [FileDoc.veil, h.hide _ fun s ↦ Comment.clean s.leading, henums, hmessages, hexts,
    hservices]

/-- Locations that say something else of an address at which nothing stands change nothing. -/
theorem FileDecl.document_eq_of_agreeBut [DescriptorPool] {f : FileDecl}
    {registry : Option Registry} {doc : FileDoc} (hdoc : f.document registry = .ok doc)
    (h : AgreeBut p f.locations ls) (hp : ∀ node ∈ doc.nodes, node.address ≠ p) :
    FileDecl.document registry { f with locations := ls } = .ok doc := by
  have hveil := FileDecl.veil_document h f registry
  change (f.document registry).map (FileDoc.veil p) = _ at hveil
  rw [hdoc] at hveil
  cases hother : FileDecl.document registry { f with locations := ls } with
  | error fault =>
    rw [hother] at hveil
    cases hveil
  | ok other =>
    rw [hother] at hveil
    have heq : doc.veil p = other.veil p := Except.ok.inj hveil
    -- The other document has its nodes at the same addresses, so nothing of either is hidden.
    have haddr : doc.nodes.map Node.address = other.nodes.map Node.address := by
      rw [← FileDoc.map_address_veil doc, heq, FileDoc.map_address_veil]
    have hq : ∀ node ∈ other.nodes, node.address ≠ p := by
      intro node hn he
      have hin : node.address ∈ doc.nodes.map Node.address := haddr ▸ List.mem_map_of_mem hn
      obtain ⟨n, hn, hna⟩ := List.mem_map.mp hin
      exact hp n hn (hna.trans he)
    rw [← FileDoc.veil_eq_self hp, heq, FileDoc.veil_eq_self hq]

end Declarations

/-- Comments reach exactly the declaration that they address.  Different sites have different
addresses; the nodes of a documented file are the declarations at its sites, one for each; what a
node has of comments is from the source at its site, which is that of the first location there and
else an empty one.  And locations that agree but at one address give documents that agree but for
the source and the description of the node there, or altogether if there is none. -/
theorem comments_reach_declarations [DescriptorPool] {registry : Option Registry} {f : FileDecl}
    {doc : FileDoc} (h : f.document registry = .ok doc) :
    (∀ s t : Site, s.address = t.address → s = t) ∧
    (doc.nodes.map Node.address).Nodup ∧
    (∀ node ∈ doc.nodes, ∃ site, Documented ⟨f, registry⟩ site node) ∧
    (∀ site, f.Declares site → ∃ node ∈ doc.nodes, Documented ⟨f, registry⟩ site node) ∧
    (∀ site node, Documented ⟨f, registry⟩ site node → node.address = site.address ∧
      (∀ s, node.source? = some s → s = f.sourceAt site.address) ∧
      node.description = site.describe (f.sourceAt site.address)) ∧
    (∀ front l rest, f.locations = front ++ l :: rest → (∀ k ∈ front, k.path ≠ l.path) →
      f.sourceAt l.path = .ofLocation f.name l) ∧
    (∀ a, (∀ l ∈ f.locations, l.path ≠ a) → f.sourceAt a = .unplaced f.name a) ∧
    (∀ p ls ls', AgreeBut p ls ls' →
      (FileDecl.document registry { f with locations := ls }).map (FileDoc.veil p) =
        (FileDecl.document registry { f with locations := ls' }).map (FileDoc.veil p)) ∧
    ∀ p ls, AgreeBut p f.locations ls → (∀ node ∈ doc.nodes, node.address ≠ p) →
      FileDecl.document registry { f with locations := ls } = .ok doc := by
  refine ⟨fun s t hst ↦ Site.address_injective hst, FileDecl.nodup_address_nodes h, ?_, ?_, ?_,
    ?_, ?_, ?_, ?_⟩
  · intro node hn
    exact FileDecl.exists_site h hn
  · intro site hs
    exact FileDecl.exists_node h hs
  · intro site node hnode
    exact hnode.source
  · intro front l rest hl hfront
    exact FileDecl.sourceAt_eq_ofLocation hl hfront
  · intro a ha
    exact FileDecl.sourceAt_eq_unplaced ha
  · intro p ls ls' hls
    exact FileDecl.veil_document hls f registry
  · intro p ls hls hp
    exact FileDecl.document_eq_of_agreeBut h hls hp

def shelfLocation : Location := ⟨[4, 0], [2, 0, 4, 1], " A shelf.\n", ""⟩

/-- A file with one message, of which two locations tell. -/
def shelfFile : FileDecl where
  name := "shelf.proto"
  package := "shop"
  syntaxName := "proto3"
  messages := [⟨"Shelf", [], [], [], [], [], []⟩]
  enums := []
  services := []
  extensions := []
  locations := [shelfLocation, ⟨[4, 0], [], "Not read.", ""⟩]
  options := []

attribute [local instance] Annotations.pool

/-- The comment of the first location describes the message. -/
theorem comments_reach_declarations_shelf : ∃ doc, shelfFile.document none = .ok doc ∧
    (doc.nodes.map Node.address).Nodup ∧
      ∃ node ∈ doc.nodes, node.address = [4, 0] ∧ node.description = "A shelf." := by
  obtain ⟨doc, hdoc, -⟩ : ∃ doc, shelfFile.document none = .ok doc ∧ True :=
    exists_ok (by decide +kernel)
  obtain ⟨-, hnodup, -, hnodes, hsource, hfirst, -, -, -⟩ := comments_reach_declarations hdoc
  obtain ⟨node, hn, hnode⟩ := hnodes (.message (.top 0)) ⟨_, rfl⟩
  obtain ⟨haddress, -, hdescription⟩ := hsource _ node hnode
  refine ⟨doc, hdoc, hnodup, node, hn, haddress, ?_⟩
  have hplaced : shelfFile.sourceAt [4, 0] = .ofLocation "shelf.proto" shelfLocation :=
    hfirst [] shelfLocation _ rfl (List.forall_mem_nil _)
  rw [hdescription]
  show (shelfFile.sourceAt [4, 0]).description = "A shelf."
  rw [hplaced]
  decide +kernel

end ProtoCatalog
