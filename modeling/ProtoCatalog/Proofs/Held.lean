import ProtoCatalog.Proofs.Nodes
import ProtoCatalog.Proofs.Resolving

/-!
# The nodes that a catalog holds

A catalog holds documented declarations on the listings of its files and of its packages, and in
its table of messages.  Each of them is the documentation of a declaration in some file; settling
changed nothing of it but marks, and the key and value types of map fields.
-/

namespace ProtoCatalog

/-! ## Nodes by the listings they are on -/

namespace FileDoc

variable {f : FileDoc} {node : Node}

theorem mem_nodes_of_enum {e : EnumDoc} (he : e ∈ f.enums) (hn : node ∈ e.nodes) :
    node ∈ f.nodes := FileDecl.mem_nodes.mpr (.inr (.inl ⟨e, he, hn⟩))

theorem mem_nodes_of_extension {x : ExtensionDoc} (hx : x ∈ f.extensions) : .ext x ∈ f.nodes :=
  FileDecl.mem_nodes.mpr (.inr (.inr (.inl ⟨x, hx, rfl⟩)))

theorem mem_nodes_of_message {m : MessageDoc} (hm : m ∈ f.messages) (hn : node ∈ m.nodes) :
    node ∈ f.nodes := FileDecl.mem_nodes.mpr (.inr (.inr (.inr (.inl ⟨m, hm, hn⟩))))

theorem mem_nodes_of_service {x : ServiceDoc} (hx : x ∈ f.services) (hn : node ∈ x.nodes) :
    node ∈ f.nodes := FileDecl.mem_nodes.mpr (.inr (.inr (.inr (.inr ⟨x, hx, hn⟩))))

end FileDoc

namespace MessageDoc

variable {m : MessageDoc}

theorem mem_nodes_of_extension {x : ExtensionDoc} (hx : x ∈ m.extensions) : .ext x ∈ m.nodes :=
  mem_nodes.mpr (.inr (.inl ⟨x, hx, rfl⟩))

theorem mem_nodes_of_field {f : FieldDoc} (hf : f ∈ m.allFields) : .field f ∈ m.nodes :=
  mem_nodes.mpr (.inr (.inr (.inl ⟨f, hf, rfl⟩)))

theorem mem_nodes_of_oneof {o : OneofDoc} (ho : o ∈ m.oneofs) : .oneof o ∈ m.nodes :=
  mem_nodes.mpr (.inr (.inr (.inr ⟨o, ho, rfl⟩)))

end MessageDoc

/-! ## What settling leaves of a node -/

/-- A node without what settling may change: the marks of messages, and the key and value types of
their fields. -/
def Node.bare : Node → Node
  | .file d => .file { d with messages := [] }
  | .message d => .message { d with fields := [], oneofs := [], internal := false }
  | .field d => .field { d with mapKey := "", mapValue := "" }
  | .oneof d => .oneof { d with fields := [] }
  | node => node

theorem Node.description_bare (node : Node) : node.bare.description = node.description := by
  cases node <;> rfl

theorem Node.source?_bare (node : Node) : node.bare.source? = node.source? := by
  cases node <;> rfl

namespace Catalog

variable {ms : List MessageDoc} {m x : MessageDoc}

theorem ResolvedMessage.allFields (h : ResolvedMessage ms m x) :
    List.Forall₂ (ResolvedField ms) m.allFields x.allFields := by
  apply List.rel_append h.fields
  exact List.rel_flatMap h.oneofs fun o q hoq ↦ hoq.2

/-- The nodes of a resolved message are those of the message as it was documented. -/
theorem ResolvedMessage.exists_bare (h : ResolvedMessage ms m x) {node : Node}
    (hn : node ∈ x.nodes) : ∃ old ∈ m.nodes, old.bare = node.bare := by
  rcases MessageDoc.mem_nodes.mp hn with rfl | ⟨e, he, rfl⟩ | ⟨g, hg, rfl⟩ | ⟨q, hq, rfl⟩
  · refine ⟨.message m, List.mem_cons_self, ?_⟩
    rw [h.kept]
    rfl
  · have hkept : x.extensions = m.extensions := by rw [h.kept]
    exact ⟨.ext e, MessageDoc.mem_nodes_of_extension (hkept ▸ he), rfl⟩
  · obtain ⟨f, hf, hfg⟩ := exists_of_mem_right h.allFields hg
    refine ⟨.field f, MessageDoc.mem_nodes_of_field hf, ?_⟩
    rw [hfg.kept]
    rfl
  · obtain ⟨o, ho, hoq, -⟩ := exists_of_mem_right h.oneofs hq
    refine ⟨.oneof o, MessageDoc.mem_nodes_of_oneof ho, ?_⟩
    rw [hoq]
    rfl

theorem Settlement.exists_bare {docs settled : List FileDoc} (h : Settlement docs settled)
    {s : FileDoc} (hs : s ∈ settled) {node : Node} (hn : node ∈ s.nodes) :
    ∃ d ∈ docs, ∃ old ∈ d.nodes, old.bare = node.bare := by
  obtain ⟨d, hd, hkept, hmessages⟩ := exists_of_mem_right h.files hs
  refine ⟨d, hd, ?_⟩
  rcases FileDecl.mem_nodes.mp hn with rfl | ⟨e, he, hne⟩ | ⟨x, hx, rfl⟩ | ⟨x, hx, hnx⟩ |
    ⟨x, hx, hnx⟩
  · refine ⟨.file d, List.mem_cons_self, ?_⟩
    rw [hkept]
    rfl
  · have hin : e ∈ d.enums := by rw [hkept] at he; exact he
    exact ⟨node, FileDoc.mem_nodes_of_enum hin hne, rfl⟩
  · have hin : x ∈ d.extensions := by rw [hkept] at hx; exact hx
    exact ⟨.ext x, FileDoc.mem_nodes_of_extension hin, rfl⟩
  · obtain ⟨m, hm, hmx⟩ := exists_of_mem_right hmessages hx
    obtain ⟨old, hold, hbare⟩ := hmx.exists_bare hnx
    exact ⟨old, FileDoc.mem_nodes_of_message hm hold, hbare⟩
  · have hin : x ∈ d.services := by rw [hkept] at hx; exact hx
    exact ⟨node, FileDoc.mem_nodes_of_service hin hnx, rfl⟩

end Catalog

/-! ## The nodes of a catalog -/

/-- All documented declarations on the listings of a package. -/
def PackageDoc.nodes (p : PackageDoc) : List Node :=
  p.services.flatMap ServiceDoc.nodes ++
    (p.messages.flatMap MessageDoc.nodes ++ p.enums.flatMap EnumDoc.nodes)

theorem PackageDoc.mem_nodes {p : PackageDoc} {node : Node} : node ∈ p.nodes ↔
    (∃ x ∈ p.services, node ∈ x.nodes) ∨ (∃ m ∈ p.messages, node ∈ m.nodes) ∨
      ∃ e ∈ p.enums, node ∈ e.nodes := by
  simp only [nodes, List.mem_append, List.mem_flatMap]

namespace Catalog

/-- The nodes that a catalog holds: those of its files, those of its packages, and those of the
messages in its table. -/
def HoldsNode (c : Catalog) (node : Node) : Prop :=
  (∃ f ∈ c.files, node ∈ f.nodes) ∨ (∃ p ∈ c.packages, node ∈ p.nodes) ∨
    ∃ name m, c.messages.find? name = some m ∧ node ∈ m.nodes

theorem mem_gather_services {files : List FileDoc} {name : String} {x : ServiceDoc} :
    x ∈ (gather files name).services ↔ ∃ f ∈ files, f.package = name ∧ x ∈ f.services := by
  rw [gather, (sortByName_perm _ _).mem_iff, List.mem_flatMap]
  simp only [List.mem_filter, beq_iff_eq, and_assoc]

-- A file without its internal messages has no nodes that the file has not.
theorem exists_bare_of_mem_listed {s : FileDoc} {node : Node}
    (hn : node ∈ ({ s with messages := listed s.messages } : FileDoc).nodes) :
    ∃ old ∈ s.nodes, old.bare = node.bare := by
  rcases FileDecl.mem_nodes.mp hn with rfl | ⟨e, he, hne⟩ | ⟨x, hx, rfl⟩ | ⟨m, hm, hnm⟩ |
    ⟨x, hx, hnx⟩
  · exact ⟨.file s, List.mem_cons_self, rfl⟩
  · exact ⟨node, FileDoc.mem_nodes_of_enum he hne, rfl⟩
  · exact ⟨.ext x, FileDoc.mem_nodes_of_extension hx, rfl⟩
  · have hin : m ∈ s.messages := (mem_listed.mp hm).1
    exact ⟨node, FileDoc.mem_nodes_of_message hin hnm, rfl⟩
  · exact ⟨node, FileDoc.mem_nodes_of_service hx hnx, rfl⟩

/-- Whatever the catalog of some files holds is a node of one of them. -/
theorem exists_bare_of_holdsNode {files : List FileDoc} {node : Node}
    (h : (assemble files).HoldsNode node) : ∃ s ∈ files, ∃ old ∈ s.nodes, old.bare = node.bare := by
  rcases h with ⟨g, hg, hn⟩ | ⟨p, hp, hn⟩ | ⟨name, m, hm, hn⟩
  · obtain ⟨s, hs, rfl⟩ := List.mem_map.mp hg
    exact ⟨s, hs, exists_bare_of_mem_listed hn⟩
  · obtain ⟨q, hq, rfl⟩ := List.mem_map.mp hp
    obtain ⟨package, -, rfl⟩ := List.mem_map.mp hq
    rcases PackageDoc.mem_nodes.mp hn with ⟨x, hx, hnx⟩ | ⟨m, hm, hnm⟩ | ⟨e, he, hne⟩
    · obtain ⟨s, hs, -, hin⟩ := mem_gather_services.mp hx
      exact ⟨s, hs, node, FileDoc.mem_nodes_of_service hin hnx, rfl⟩
    · obtain ⟨s, hs, -, hin⟩ := mem_gather_messages.mp (mem_listed.mp hm).1
      exact ⟨s, hs, node, FileDoc.mem_nodes_of_message hin hnm, rfl⟩
    · obtain ⟨s, hs, -, hin⟩ := mem_gather_enums.mp he
      exact ⟨s, hs, node, FileDoc.mem_nodes_of_enum hin hne, rfl⟩
  · obtain ⟨-, s, hs, hin⟩ := mem_of_find?_messageTable hm
    exact ⟨s, hs, node, FileDoc.mem_nodes_of_message hin hn, rfl⟩

end Catalog

/-! ## Where nodes come from -/

/-- A node documents the declaration at a site of a file: it is what was documented there, but for
what settling may change. -/
def FileDecl.Documents [DescriptorPool] (f : FileDecl) (registry : Option Registry) (site : Site)
    (node : Node) : Prop := ∃ old, Documented ⟨f, registry⟩ site old ∧ old.bare = node.bare

/-- Every node of a built catalog documents a declaration of some file. -/
theorem Catalog.exists_documents [DescriptorPool] {registry : Option Registry}
    {files : List FileDecl} {c : Catalog} (h : build registry files = .ok c) {node : Node}
    (hn : c.HoldsNode node) : ∃ f ∈ files, ∃ site, f.Documents registry site node := by
  obtain ⟨docs, hdocs, -, hsettled, rfl⟩ := exists_settlement h
  obtain ⟨s, hs, x, hx, hxn⟩ := exists_bare_of_holdsNode hn
  obtain ⟨d, hd, old, hold, hbare⟩ := hsettled.exists_bare hs hx
  obtain ⟨f, hf, hdoc⟩ := exists_of_mem_right hdocs hd
  obtain ⟨site, hsite⟩ := FileDecl.exists_site hdoc hold
  exact ⟨f, hf, site, old, hsite, hbare.trans hxn⟩

/-- The node of a declaration is described by what the source at its site gives. -/
theorem FileDecl.Documents.description_eq [DescriptorPool] {f : FileDecl}
    {registry : Option Registry} {site : Site} {node : Node} (h : f.Documents registry site node) :
    node.description = site.describe (f.sourceAt site.address) := by
  obtain ⟨old, hdoc, hbare⟩ := h
  rw [← hdoc.source.2.2, ← Node.description_bare old, hbare, Node.description_bare]

-- A node that has a source has the one at its site.
theorem FileDecl.Documents.source_eq [DescriptorPool] {f : FileDecl} {registry : Option Registry}
    {site : Site} {node : Node} (h : f.Documents registry site node) {s : Source}
    (hs : node.source? = some s) : s = f.sourceAt site.address := by
  obtain ⟨old, hdoc, hbare⟩ := h
  apply hdoc.source.2.1
  rw [← Node.source?_bare, hbare, Node.source?_bare, hs]

-- A node is a oneof just if it documents one.
theorem FileDecl.Documents.oneof_iff [DescriptorPool] {f : FileDecl} {registry : Option Registry}
    {site : Site} {node : Node} (h : f.Documents registry site node) :
    (∃ d, node = .oneof d) ↔ ∃ m k, site = .oneof m k := by
  obtain ⟨old, hdoc, hbare⟩ := h
  constructor
  · rintro ⟨d, rfl⟩
    cases hdoc with
    | oneof hm hall hk => exact ⟨_, _, rfl⟩
    | _ => cases hbare
  · rintro ⟨m, k, rfl⟩
    cases hdoc with
    | oneof hm hall hk =>
      cases node with
      | oneof d => exact ⟨d, rfl⟩
      | _ => cases hbare

end ProtoCatalog
