import ProtoCatalog.Proofs.Documenting
import ProtoCatalog.Proofs.Walk

/-!
# Documented declarations and their sites

A documented file holds one node for each of its declarations, itself included.  Every node is the
documentation of the declaration at some site, and the declaration at every site has a node.
-/

namespace ProtoCatalog

/-! ## Nodes -/

/-- A documented declaration. -/
inductive Node where
  | file (doc : FileDoc)
  | message (doc : MessageDoc)
  | field (doc : FieldDoc)
  | ext (doc : ExtensionDoc)
  | oneof (doc : OneofDoc)
  | enumeration (doc : EnumDoc)
  | enumValue (doc : EnumValueDoc)
  | service (doc : ServiceDoc)
  | method (doc : MethodDoc)

namespace Node

/-- The address that a node's comments were found at. -/
def address : Node → Address
  | .file _ => Address.syntaxStatement
  | .message d => d.source.path
  | .field d => d.address
  | .ext d => d.address
  | .oneof d => d.source.path
  | .enumeration d => d.source.path
  | .enumValue d => d.address
  | .service d => d.source.path
  | .method d => d.address

/-- The source of a node, where its kind has one. -/
def source? : Node → Option Source
  | .message d => some d.source
  | .oneof d => some d.source
  | .enumeration d => some d.source
  | .service d => some d.source
  | _ => none

def description : Node → String
  | .file d => d.description
  | .message d => d.description
  | .field d => d.description
  | .ext d => d.description
  | .oneof d => d.description
  | .enumeration d => d.description
  | .enumValue d => d.description
  | .service d => d.description
  | .method d => d.description

end Node

def EnumDoc.nodes (d : EnumDoc) : List Node := .enumeration d :: d.values.map .enumValue

def MessageDoc.nodes (d : MessageDoc) : List Node :=
  .message d :: (d.extensions.map .ext ++ (d.allFields.map .field ++ d.oneofs.map .oneof))

def ServiceDoc.nodes (d : ServiceDoc) : List Node := .service d :: d.methods.map .method

/-- All documented declarations of a file, and the file. -/
def FileDoc.nodes (d : FileDoc) : List Node :=
  .file d :: (d.enums.flatMap EnumDoc.nodes ++ (d.extensions.map .ext ++
    (d.messages.flatMap MessageDoc.nodes ++ d.services.flatMap ServiceDoc.nodes)))

/-! ## Sites that are declared -/

/-- The sites at which a file declares something. -/
def FileDecl.Declares (f : FileDecl) : Site → Prop
  | .file => True
  | .message s => ∃ m, f.messageAt? s = some m
  | .field s i => ∃ m, f.messageAt? s = some m ∧ i < m.decl.fields.length
  | .messageExtension s i => ∃ m, f.messageAt? s = some m ∧ i < m.decl.extensions.length
  | .oneof s k => ∃ m, f.messageAt? s = some m ∧
      ∃ d ∈ m.decl.fields, d.isOneofMember = true ∧ d.oneofIndex = some k
  | .enumeration s => ∃ e, f.enumAt? s = some e
  | .enumValue s i => ∃ e, f.enumAt? s = some e ∧ i < e.decl.values.length
  | .service i => i < f.services.length
  | .method i j => ∃ x, f.services[i]? = some x ∧ j < x.methods.length
  | .fileExtension i => i < f.extensions.length

/-- A node is the documentation of the declaration at a site. -/
inductive Documented [DescriptorPool] (ctx : DocContext) : Site → Node → Prop
  | file {d : FileDoc} (h : ctx.file.document ctx.registry = .ok d) :
    Documented ctx .file (.file d)
  | message {s : MessageSite} {m : Placed MessageDecl} {d : MessageDoc}
    (hm : ctx.file.messageAt? s = some m) (h : MessageDecl.document ctx m = .ok d) :
    Documented ctx (.message s) (.message d)
  | field {s : MessageSite} {m : Placed MessageDecl} {i : Nat} {x : FieldDecl} {d : FieldDoc}
    (hm : ctx.file.messageAt? s = some m) (hx : m.decl.fields[i]? = some x)
    (h : x.document ctx m.decl.oneofs (Site.field s i).address = .ok d) :
    Documented ctx (.field s i) (.field d)
  | messageExtension {s : MessageSite} {m : Placed MessageDecl} {i : Nat} {x : FieldDecl}
    {d : ExtensionDoc} (hm : ctx.file.messageAt? s = some m)
    (hx : m.decl.extensions[i]? = some x)
    (h : x.documentExtension ctx (inScope m.longName x.name)
      (some (ctx.names m.decl.name m.longName)) (Site.messageExtension s i).address = .ok d) :
    Documented ctx (.messageExtension s i) (.ext d)
  | oneof {s : MessageSite} {m : Placed MessageDecl} {k : Int} {fields : List FieldDoc}
    (hm : ctx.file.messageAt? s = some m)
    (h : documentAll s.address .messageFields (FieldDecl.document ctx m.decl.oneofs)
      m.decl.fields = .ok fields)
    (hk : k ∈ (MessageDecl.oneofMembers m.decl.fields fields).map (·.1)) :
    Documented ctx (.oneof s k)
      (.oneof (OneofDoc.ofMembers ctx s.address k (MessageDecl.membersAt m.decl.fields fields k)))
  | enumeration {s : EnumSite} {e : Placed EnumDecl} {d : EnumDoc}
    (he : ctx.file.enumAt? s = some e) (h : EnumDecl.document ctx e = .ok d) :
    Documented ctx (.enumeration s) (.enumeration d)
  | enumValue {s : EnumSite} {e : Placed EnumDecl} {i : Nat} {v : EnumValueDecl}
    {d : EnumValueDoc} (he : ctx.file.enumAt? s = some e) (hv : e.decl.values[i]? = some v)
    (h : v.document ctx (Site.enumValue s i).address = .ok d) :
    Documented ctx (.enumValue s i) (.enumValue d)
  | service {i : Nat} {x : ServiceDecl} {d : ServiceDoc} (hx : ctx.file.services[i]? = some x)
    (h : x.document ctx (Site.service i).address = .ok d) :
    Documented ctx (.service i) (.service d)
  | method {i j : Nat} {x : ServiceDecl} {y : MethodDecl} {d : MethodDoc}
    (hx : ctx.file.services[i]? = some x) (hy : x.methods[j]? = some y)
    (h : y.document ctx (Site.method i j).address = .ok d) :
    Documented ctx (.method i j) (.method d)
  | fileExtension {i : Nat} {x : FieldDecl} {d : ExtensionDoc}
    (hx : ctx.file.extensions[i]? = some x)
    (h : x.documentExtension ctx x.name none (Site.fileExtension i).address = .ok d) :
    Documented ctx (.fileExtension i) (.ext d)

/-! ## What a node takes from comments -/

theorem FileDecl.path_sourceAt (f : FileDecl) (a : Address) : (f.sourceAt a).path = a := by
  unfold sourceAt Source.find?
  cases h : Location.find? f.locations a with
  | none => rfl
  | some l =>
    have hpath := List.find?_some h
    exact beq_iff_eq.mp hpath

/-- The first location with an address tells its source. -/
theorem FileDecl.sourceAt_eq_ofLocation {f : FileDecl} {front rest : List Location} {l : Location}
    (h : f.locations = front ++ l :: rest) (hfront : ∀ k ∈ front, k.path ≠ l.path) :
    f.sourceAt l.path = .ofLocation f.name l := by
  have hfind : Location.find? f.locations l.path = some l := by
    rw [Location.find?, List.find?_eq_some_iff_append]
    refine ⟨beq_iff_eq.mpr rfl, front, rest, h, ?_⟩
    intro k hk
    rw [Bool.not_eq_true', beq_eq_false_iff_ne]
    exact hfront k hk
  rw [sourceAt, Source.find?, hfind]
  rfl

theorem FileDecl.sourceAt_eq_unplaced {f : FileDecl} {a : Address}
    (h : ∀ l ∈ f.locations, l.path ≠ a) : f.sourceAt a = .unplaced f.name a := by
  have hfind : Location.find? f.locations a = none := by
    apply List.find?_eq_none.mpr
    intro l hl hpath
    exact h l hl (beq_iff_eq.mp hpath)
  rw [sourceAt, Source.find?, hfind]
  rfl

/-- The description that a source gives: the file's is that of the comment in front alone, and a
oneof's has its comments as they are. -/
def Site.describe : Site → Source → String
  | .file, s => Comment.clean s.leading
  | .oneof _ _, s => Comment.join [s.leading, s.trailing]
  | _, s => s.description

/-- A node has the address of its site, and whatever it takes from comments is from there. -/
theorem Documented.source [DescriptorPool] {ctx : DocContext} {site : Site} {node : Node}
    (h : Documented ctx site node) : node.address = site.address ∧
      (∀ s, node.source? = some s → s = ctx.file.sourceAt site.address) ∧
      node.description = site.describe (ctx.file.sourceAt site.address) := by
  cases h with
  | file h =>
    obtain ⟨_, _, _, _, _, _, _, _, _, _, rfl⟩ := FileDecl.document_eq_ok h
    exact ⟨rfl, nofun, rfl⟩
  | message hm h =>
    obtain ⟨_, _, _, _, _, _, rfl⟩ := MessageDecl.document_eq_ok h
    rw [FileDecl.messageAt?_address hm]
    exact ⟨FileDecl.path_sourceAt _ _, fun _ hs ↦ (Option.some.inj hs).symm, rfl⟩
  | field hm hx h =>
    obtain ⟨_, _, _, _, rfl⟩ := FieldDecl.document_eq_ok h
    exact ⟨rfl, nofun, rfl⟩
  | messageExtension hm hx h =>
    obtain ⟨_, _, rfl⟩ := FieldDecl.documentExtension_eq_ok h
    exact ⟨rfl, nofun, rfl⟩
  | oneof hm h hk =>
    exact ⟨FileDecl.path_sourceAt _ _, fun _ hs ↦ (Option.some.inj hs).symm, rfl⟩
  | enumeration he h =>
    obtain ⟨_, _, _, _, rfl⟩ := EnumDecl.document_eq_ok h
    rw [FileDecl.enumAt?_address he]
    exact ⟨FileDecl.path_sourceAt _ _, fun _ hs ↦ (Option.some.inj hs).symm, rfl⟩
  | enumValue he hv h =>
    obtain ⟨_, _, rfl⟩ := EnumValueDecl.document_eq_ok h
    exact ⟨rfl, nofun, rfl⟩
  | service hx h =>
    obtain ⟨_, _, _, _, rfl⟩ := ServiceDecl.document_eq_ok h
    exact ⟨FileDecl.path_sourceAt _ _, fun _ hs ↦ (Option.some.inj hs).symm, rfl⟩
  | method hx hy h =>
    obtain ⟨_, _, rfl⟩ := MethodDecl.document_eq_ok h
    exact ⟨rfl, nofun, rfl⟩
  | fileExtension hx h =>
    obtain ⟨_, _, rfl⟩ := FieldDecl.documentExtension_eq_ok h
    exact ⟨rfl, nofun, rfl⟩

/-! ## Every node is that of a site -/

section Sites

variable [DescriptorPool] {ctx : DocContext} {node : Node}

theorem EnumDoc.exists_site {s : EnumSite} {e : Placed EnumDecl} {d : EnumDoc}
    (he : ctx.file.enumAt? s = some e) (h : EnumDecl.document ctx e = .ok d)
    (hn : node ∈ d.nodes) :
    ∃ site, Documented ctx site node ∧ site.owner = .enumeration s := by
  rcases List.mem_cons.mp hn with rfl | hn
  · exact ⟨_, .enumeration he h, rfl⟩
  · obtain ⟨v, hv, rfl⟩ := List.mem_map.mp hn
    obtain ⟨_, values, _, hvalues, rfl⟩ := EnumDecl.document_eq_ok h
    obtain ⟨i, x, hx, hdoc⟩ := mem_documentAll hvalues hv
    rw [FileDecl.enumAt?_address he] at hdoc
    exact ⟨_, .enumValue he hx hdoc, rfl⟩

theorem MessageDoc.exists_site {s : MessageSite} {m : Placed MessageDecl} {d : MessageDoc}
    (hm : ctx.file.messageAt? s = some m) (h : MessageDecl.document ctx m = .ok d)
    (hn : node ∈ d.nodes) : ∃ site, Documented ctx site node ∧ site.owner = .message s := by
  have haddr := FileDecl.messageAt?_address hm
  rcases List.mem_cons.mp hn with rfl | hn
  · exact ⟨_, .message hm h, rfl⟩
  · rcases List.mem_append.mp hn with hn | hn
    · obtain ⟨x, hx, rfl⟩ := List.mem_map.mp hn
      obtain ⟨_, extensions, _, _, hext, _, rfl⟩ := MessageDecl.document_eq_ok h
      obtain ⟨i, y, hy, hdoc⟩ := mem_documentAll hext hx
      rw [haddr] at hdoc
      exact ⟨_, .messageExtension hm hy hdoc, rfl⟩
    · rcases List.mem_append.mp hn with hn | hn
      · obtain ⟨x, hx, rfl⟩ := List.mem_map.mp hn
        obtain ⟨fields, hfields, hp⟩ := MessageDecl.allFields_perm h
        obtain ⟨i, y, hy, hdoc⟩ := mem_documentAll hfields (hp.mem_iff.mp hx)
        rw [haddr] at hdoc
        exact ⟨_, .field hm hy hdoc, rfl⟩
      · obtain ⟨x, hx, rfl⟩ := List.mem_map.mp hn
        obtain ⟨_, _, fields, _, _, hfields, rfl⟩ := MessageDecl.document_eq_ok h
        rw [MessageDecl.oneofDocs_eq_map] at hx
        obtain ⟨k, hk, rfl⟩ := List.mem_map.mp hx
        rw [haddr] at hfields ⊢
        exact ⟨_, .oneof hm hfields (List.mem_eraseDups.mp hk), rfl⟩

theorem ServiceDoc.exists_site {i : Nat} {x : ServiceDecl} {d : ServiceDoc}
    (hx : ctx.file.services[i]? = some x) (h : x.document ctx (Site.service i).address = .ok d)
    (hn : node ∈ d.nodes) : ∃ site, Documented ctx site node ∧ site.owner = .service i := by
  rcases List.mem_cons.mp hn with rfl | hn
  · exact ⟨_, .service hx h, rfl⟩
  · obtain ⟨y, hy, rfl⟩ := List.mem_map.mp hn
    obtain ⟨_, methods, _, hmethods, rfl⟩ := ServiceDecl.document_eq_ok h
    obtain ⟨j, z, hz, hdoc⟩ := mem_documentAll hmethods hy
    exact ⟨_, .method hx hz hdoc, rfl⟩

end Sites

namespace FileDecl

theorem mem_nodes {d : FileDoc} {node : Node} : node ∈ d.nodes ↔ node = .file d ∨
    (∃ e ∈ d.enums, node ∈ e.nodes) ∨ (∃ x ∈ d.extensions, node = .ext x) ∨
      (∃ m ∈ d.messages, node ∈ m.nodes) ∨ ∃ x ∈ d.services, node ∈ x.nodes := by
  simp only [FileDoc.nodes, List.mem_cons, List.mem_append, List.mem_flatMap, List.mem_map,
    eq_comm]

variable [DescriptorPool] {registry : Option Registry} {f : FileDecl} {doc : FileDoc}
  {node : Node}

theorem exists_enum_site (h : f.document registry = .ok doc) {d : EnumDoc} (hd : d ∈ doc.enums) :
    ∃ s e, f.enumAt? s = some e ∧ EnumDecl.document ⟨f, registry⟩ e = .ok d := by
  obtain ⟨e, he, hdoc⟩ := exists_enum_of_mem h hd
  obtain ⟨s, hs⟩ := mem_allEnums.mp he
  exact ⟨s, e, hs, hdoc⟩

theorem exists_message_site (h : f.document registry = .ok doc) {d : MessageDoc}
    (hd : d ∈ doc.messages) :
    ∃ s m, f.messageAt? s = some m ∧ MessageDecl.document ⟨f, registry⟩ m = .ok d := by
  obtain ⟨m, hm, hdoc⟩ := exists_decl_of_mem h hd
  obtain ⟨s, hs⟩ := mem_allMessages.mp hm
  exact ⟨s, m, hs, hdoc⟩

theorem exists_service_site (h : f.document registry = .ok doc) {d : ServiceDoc}
    (hd : d ∈ doc.services) : ∃ (i : Nat) (x : ServiceDecl), f.services[i]? = some x ∧
      x.document ⟨f, registry⟩ (Site.service i).address = .ok d := by
  obtain ⟨_, _, _, _, services, _, _, _, _, hall, rfl⟩ := document_eq_ok h
  exact mem_documentAll hall ((sortByName_perm _ _).mem_iff.mp hd)

theorem exists_extension_site (h : f.document registry = .ok doc) {d : ExtensionDoc}
    (hd : d ∈ doc.extensions) : ∃ (i : Nat) (x : FieldDecl), f.extensions[i]? = some x ∧
      x.documentExtension ⟨f, registry⟩ x.name none (Site.fileExtension i).address = .ok d := by
  obtain ⟨_, _, _, extensions, _, _, _, _, hall, _, rfl⟩ := document_eq_ok h
  exact mem_documentAll hall ((sortByName_perm _ _).mem_iff.mp hd)

/-- Every node is the documentation of the declaration at some site. -/
theorem exists_site (h : f.document registry = .ok doc) (hn : node ∈ doc.nodes) :
    ∃ site, Documented ⟨f, registry⟩ site node := by
  rcases mem_nodes.mp hn with rfl | ⟨e, he, hne⟩ | ⟨x, hx, rfl⟩ | ⟨m, hm, hnm⟩ | ⟨x, hx, hnx⟩
  · exact ⟨_, .file h⟩
  · obtain ⟨s, ed, hs, hdoc⟩ := exists_enum_site h he
    obtain ⟨site, hsite, -⟩ := EnumDoc.exists_site hs hdoc hne
    exact ⟨site, hsite⟩
  · obtain ⟨i, y, hy, hdoc⟩ := exists_extension_site h hx
    exact ⟨_, .fileExtension hy hdoc⟩
  · obtain ⟨s, md, hs, hdoc⟩ := exists_message_site h hm
    obtain ⟨site, hsite, -⟩ := MessageDoc.exists_site hs hdoc hnm
    exact ⟨site, hsite⟩
  · obtain ⟨i, y, hy, hdoc⟩ := exists_service_site h hx
    obtain ⟨site, hsite, -⟩ := ServiceDoc.exists_site hy hdoc hnx
    exact ⟨site, hsite⟩

end FileDecl

/-! ## Every declaration has a node -/

theorem MessageDoc.mem_nodes {d : MessageDoc} {node : Node} : node ∈ d.nodes ↔ node = .message d ∨
    (∃ x ∈ d.extensions, node = .ext x) ∨ (∃ x ∈ d.allFields, node = .field x) ∨
      ∃ x ∈ d.oneofs, node = .oneof x := by
  simp only [MessageDoc.nodes, List.mem_cons, List.mem_append, List.mem_map, eq_comm]

section Sites

variable [DescriptorPool] {ctx : DocContext}

theorem EnumDoc.exists_value {s : EnumSite} {e : Placed EnumDecl} {d : EnumDoc}
    (he : ctx.file.enumAt? s = some e) (h : EnumDecl.document ctx e = .ok d) {i : Nat}
    (hi : i < e.decl.values.length) :
    ∃ node ∈ d.nodes, Documented ctx (.enumValue s i) node := by
  have hv := List.getElem?_eq_getElem hi
  obtain ⟨_, values, _, hvalues, rfl⟩ := EnumDecl.document_eq_ok h
  obtain ⟨y, hy, hdoc⟩ := getElem?_documentAll hvalues hv
  rw [FileDecl.enumAt?_address he] at hdoc
  exact ⟨.enumValue y, List.mem_cons_of_mem _ (List.mem_map_of_mem (List.mem_of_getElem? hy)),
    .enumValue he hv hdoc⟩

theorem ServiceDoc.exists_method {i j : Nat} {x : ServiceDecl} {d : ServiceDoc}
    (hx : ctx.file.services[i]? = some x) (h : x.document ctx (Site.service i).address = .ok d)
    (hj : j < x.methods.length) : ∃ node ∈ d.nodes, Documented ctx (.method i j) node := by
  have hm := List.getElem?_eq_getElem hj
  obtain ⟨_, methods, _, hmethods, rfl⟩ := ServiceDecl.document_eq_ok h
  obtain ⟨y, hy, hdoc⟩ := getElem?_documentAll hmethods hm
  exact ⟨.method y, List.mem_cons_of_mem _ (List.mem_map_of_mem (List.mem_of_getElem? hy)),
    .method hx hm hdoc⟩

namespace MessageDoc

variable {s : MessageSite} {m : Placed MessageDecl} {d : MessageDoc}

theorem exists_field (hm : ctx.file.messageAt? s = some m) (h : MessageDecl.document ctx m = .ok d)
    {i : Nat} (hi : i < m.decl.fields.length) :
    ∃ node ∈ d.nodes, Documented ctx (.field s i) node := by
  have hx := List.getElem?_eq_getElem hi
  obtain ⟨fields, hfields, hp⟩ := MessageDecl.allFields_perm h
  obtain ⟨y, hy, hdoc⟩ := getElem?_documentAll hfields hx
  rw [FileDecl.messageAt?_address hm] at hdoc
  have hin : y ∈ d.allFields := hp.mem_iff.mpr (List.mem_of_getElem? hy)
  exact ⟨.field y, mem_nodes.mpr (.inr (.inr (.inl ⟨y, hin, rfl⟩))), .field hm hx hdoc⟩

theorem exists_extension (hm : ctx.file.messageAt? s = some m)
    (h : MessageDecl.document ctx m = .ok d) {i : Nat} (hi : i < m.decl.extensions.length) :
    ∃ node ∈ d.nodes, Documented ctx (.messageExtension s i) node := by
  have hx := List.getElem?_eq_getElem hi
  obtain ⟨_, extensions, _, _, hext, _, rfl⟩ := MessageDecl.document_eq_ok h
  obtain ⟨y, hy, hdoc⟩ := getElem?_documentAll hext hx
  rw [FileDecl.messageAt?_address hm] at hdoc
  have hin : y ∈ extensions := List.mem_of_getElem? hy
  exact ⟨.ext y, mem_nodes.mpr (.inr (.inl ⟨y, hin, rfl⟩)), .messageExtension hm hx hdoc⟩

theorem exists_oneof (hm : ctx.file.messageAt? s = some m) (h : MessageDecl.document ctx m = .ok d)
    {x : FieldDecl} (hx : x ∈ m.decl.fields) (hmember : x.isOneofMember = true) {k : Int}
    (hk : x.oneofIndex = some k) : ∃ node ∈ d.nodes, Documented ctx (.oneof s k) node := by
  obtain ⟨_, _, fields, _, _, hfields, rfl⟩ := MessageDecl.document_eq_ok h
  obtain ⟨i, hi⟩ := List.mem_iff_getElem?.mp hx
  obtain ⟨y, hy, -⟩ := getElem?_documentAll hfields hi
  have hkey : k ∈ (MessageDecl.oneofMembers m.decl.fields fields).map (·.1) :=
    List.mem_map.mpr ⟨(k, y), MessageDecl.mem_oneofMembers hi hy hmember hk, rfl⟩
  have hin : OneofDoc.ofMembers ctx m.address k (MessageDecl.membersAt m.decl.fields fields k) ∈
      MessageDecl.oneofDocs ctx m fields := by
    rw [MessageDecl.oneofDocs_eq_map]
    exact List.mem_map.mpr ⟨k, List.mem_eraseDups.mpr hkey, rfl⟩
  rw [FileDecl.messageAt?_address hm] at hfields
  -- The node is said by the site's address, the documented oneof by the message's.
  have hdoc := Documented.oneof hm hfields hkey
  rw [← FileDecl.messageAt?_address hm] at hdoc
  exact ⟨_, mem_nodes.mpr (.inr (.inr (.inr ⟨_, hin, rfl⟩))), hdoc⟩

end MessageDoc

end Sites

namespace FileDecl

variable [DescriptorPool] {registry : Option Registry} {f : FileDecl} {doc : FileDoc}

-- The enumeration at a site is documented, and its nodes are the file's.
theorem exists_enum_at (h : f.document registry = .ok doc) {s : EnumSite} {e : Placed EnumDecl}
    (he : f.enumAt? s = some e) :
    ∃ d, EnumDecl.document ⟨f, registry⟩ e = .ok d ∧ ∀ node ∈ d.nodes, node ∈ doc.nodes := by
  obtain ⟨d, hd, hdoc⟩ := exists_enum_document h (mem_allEnums.mpr ⟨s, he⟩)
  exact ⟨d, hdoc, fun node hn ↦ mem_nodes.mpr (.inr (.inl ⟨d, hd, hn⟩))⟩

theorem exists_message_at (h : f.document registry = .ok doc) {s : MessageSite}
    {m : Placed MessageDecl} (hm : f.messageAt? s = some m) :
    ∃ d, MessageDecl.document ⟨f, registry⟩ m = .ok d ∧ ∀ node ∈ d.nodes, node ∈ doc.nodes := by
  obtain ⟨d, hd, hdoc⟩ := exists_message_document h (mem_allMessages.mpr ⟨s, hm⟩)
  exact ⟨d, hdoc, fun node hn ↦ mem_nodes.mpr (.inr (.inr (.inr (.inl ⟨d, hd, hn⟩))))⟩

theorem exists_service_at (h : f.document registry = .ok doc) {i : Nat} {x : ServiceDecl}
    (hx : f.services[i]? = some x) :
    ∃ d, x.document ⟨f, registry⟩ (Site.service i).address = .ok d ∧
      ∀ node ∈ d.nodes, node ∈ doc.nodes := by
  obtain ⟨_, _, _, _, services, _, _, _, _, hall, rfl⟩ := document_eq_ok h
  obtain ⟨d, hd, hdoc⟩ := getElem?_documentAll hall hx
  have hin := (sortByName_perm (·.names.long) services).mem_iff.mpr (List.mem_of_getElem? hd)
  exact ⟨d, hdoc, fun node hn ↦ mem_nodes.mpr (.inr (.inr (.inr (.inr ⟨d, hin, hn⟩))))⟩

/-- Whatever a file declares has a node. -/
theorem exists_node (h : f.document registry = .ok doc) {site : Site} (hs : f.Declares site) :
    ∃ node ∈ doc.nodes, Documented ⟨f, registry⟩ site node := by
  cases site with
  | file => exact ⟨.file doc, List.mem_cons_self, .file h⟩
  | message s =>
    obtain ⟨m, hm⟩ := hs
    obtain ⟨d, hdoc, hin⟩ := exists_message_at h hm
    exact ⟨.message d, hin _ List.mem_cons_self, .message hm hdoc⟩
  | field s i =>
    obtain ⟨m, hm, hi⟩ := hs
    obtain ⟨d, hdoc, hin⟩ := exists_message_at h hm
    obtain ⟨node, hn, hnode⟩ := MessageDoc.exists_field hm hdoc hi
    exact ⟨node, hin node hn, hnode⟩
  | messageExtension s i =>
    obtain ⟨m, hm, hi⟩ := hs
    obtain ⟨d, hdoc, hin⟩ := exists_message_at h hm
    obtain ⟨node, hn, hnode⟩ := MessageDoc.exists_extension hm hdoc hi
    exact ⟨node, hin node hn, hnode⟩
  | oneof s k =>
    obtain ⟨m, hm, x, hx, hmember, hk⟩ := hs
    obtain ⟨d, hdoc, hin⟩ := exists_message_at h hm
    obtain ⟨node, hn, hnode⟩ := MessageDoc.exists_oneof hm hdoc hx hmember hk
    exact ⟨node, hin node hn, hnode⟩
  | enumeration s =>
    obtain ⟨e, he⟩ := hs
    obtain ⟨d, hdoc, hin⟩ := exists_enum_at h he
    exact ⟨.enumeration d, hin _ List.mem_cons_self, .enumeration he hdoc⟩
  | enumValue s i =>
    obtain ⟨e, he, hi⟩ := hs
    obtain ⟨d, hdoc, hin⟩ := exists_enum_at h he
    obtain ⟨node, hn, hnode⟩ := EnumDoc.exists_value he hdoc hi
    exact ⟨node, hin node hn, hnode⟩
  | service i =>
    have hx := List.getElem?_eq_getElem hs
    obtain ⟨d, hdoc, hin⟩ := exists_service_at h hx
    exact ⟨.service d, hin _ List.mem_cons_self, .service hx hdoc⟩
  | method i j =>
    obtain ⟨x, hx, hj⟩ := hs
    obtain ⟨d, hdoc, hin⟩ := exists_service_at h hx
    obtain ⟨node, hn, hnode⟩ := ServiceDoc.exists_method hx hdoc hj
    exact ⟨node, hin node hn, hnode⟩
  | fileExtension i =>
    have hx := List.getElem?_eq_getElem hs
    obtain ⟨_, _, _, extensions, _, _, _, _, hall, _, rfl⟩ := document_eq_ok h
    obtain ⟨d, hd, hdoc⟩ := getElem?_documentAll hall hx
    have hin := (sortByName_perm (·.names.long) extensions).mem_iff.mpr (List.mem_of_getElem? hd)
    exact ⟨.ext d, mem_nodes.mpr (.inr (.inr (.inl ⟨d, hin, rfl⟩))), .fileExtension hx hdoc⟩

end FileDecl
end ProtoCatalog
