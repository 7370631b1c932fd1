import ProtoCatalog.Proofs.Cleaning
import ProtoCatalog.Proofs.Held
import ProtoCatalog.Proofs.MapEntries
import ProtoCatalog.Schema.Annotations

/-!
# Descriptions that may be shown

A cleaned comment begins with no decoration and not with the mark of hidden comments.  Every
description in a catalog is one, but for two kinds: a oneof has its comments as they are, and the
note of a package loses blanks that cleaning keeps, so that what stands behind them comes to the
front.
-/

namespace ProtoCatalog

/-! ## Descriptions of nodes -/

/-- The comment that describes a declaration: a file has the one in front of its syntax statement,
and everything else both of its comments. -/
def Site.comment : Site → Source → String
  | .file, s => s.leading
  | _, s => Comment.join [s.leading, s.trailing]

-- All but oneofs are described by a cleaned comment.
theorem Site.describe_eq_clean {site : Site} (h : ∀ m k, site ≠ .oneof m k) (s : Source) :
    site.describe s = Comment.clean (site.comment s) := by
  cases site with
  | oneof m k => exact absurd rfl (h m k)
  | _ => rfl

namespace Catalog

variable {registry : Option Registry} {files : List FileDecl} {c : Catalog}

/-- A oneof is described by its comments as they are. -/
theorem description_oneof [DescriptorPool] (h : build registry files = .ok c) {d : OneofDoc}
    (hn : c.HoldsNode (.oneof d)) :
    d.description = Comment.join [d.source.leading, d.source.trailing] := by
  obtain ⟨f, -, site, hdoc⟩ := exists_documents h hn
  have hdescription : d.description = site.describe (f.sourceAt site.address) := hdoc.description_eq
  obtain ⟨m, k, rfl⟩ := hdoc.oneof_iff.mp ⟨d, rfl⟩
  rw [hdescription, ← hdoc.source_eq rfl]
  rfl

-- What a package has of a file is the file's description without blanks at its ends.
theorem exists_file_of_note {docs : List FileDoc} {p : PackageDoc} {n : PackageNote}
    (hp : p ∈ (assemble docs).packages) (hn : n ∈ p.notes) :
    ∃ f ∈ (assemble docs).files, f.package = p.name ∧ f.name = n.file ∧
      n.description = Text.trim f.description := by
  obtain ⟨q, hq, rfl⟩ := List.mem_map.mp hp
  obtain ⟨name, -, rfl⟩ := List.mem_map.mp hq
  obtain ⟨f, hf, hnote⟩ := List.mem_filterMap.mp hn
  obtain ⟨hin, hpackage⟩ := List.mem_filter.mp hf
  refine ⟨_, List.mem_map_of_mem hin, beq_iff_eq.mp hpackage, ?_⟩
  dsimp only at hnote
  split at hnote
  · cases hnote
  · cases hnote
    exact ⟨rfl, rfl⟩

/-- Descriptions may be shown, with two exceptions.  Every node but a oneof is described by the
cleaned comment of its declaration, which may be shown and is empty if the comment is hidden.  A
oneof has its comment as it is; it may be shown just if cleaning would change nothing.  A package
has of each file the trimmed description; it may be shown just if what stands behind the blanks in
front of the file's description may. -/
theorem descriptions_shown [DescriptorPool] (h : build registry files = .ok c) :
    (∀ node, c.HoldsNode node → (∀ d, node ≠ .oneof d) → Comment.IsShown node.description ∧
      ∃ f ∈ files, ∃ site, f.Documents registry site node ∧
        node.description = Comment.clean (site.comment (f.sourceAt site.address)) ∧
        (Comment.IsHidden (site.comment (f.sourceAt site.address)) → node.description = "")) ∧
    (∀ d, c.HoldsNode (.oneof d) →
      d.description = Comment.join [d.source.leading, d.source.trailing] ∧
      (Comment.IsShown d.description ↔ d.source.description = d.description)) ∧
    ∀ p ∈ c.packages, ∀ n ∈ p.notes, ∃ f ∈ c.files, f.package = p.name ∧ f.name = n.file ∧
      n.description = Text.trim f.description ∧ (Comment.IsShown n.description ↔
        Comment.IsShown (String.ofList (Text.dropLeading Text.isBlank f.description.toList))) := by
  refine ⟨fun node hn hkind ↦ ?_, fun d hd ↦ ?_, fun p hp n hn ↦ ?_⟩
  · obtain ⟨f, hf, site, hdoc⟩ := exists_documents h hn
    have hsite : ∀ m k, site ≠ .oneof m k := by
      intro m k hs
      obtain ⟨d, hd⟩ := hdoc.oneof_iff.mpr ⟨m, k, hs⟩
      exact hkind d hd
    have hclean := hdoc.description_eq.trans (Site.describe_eq_clean hsite _)
    refine ⟨hclean ▸ Comment.isShown_clean _, f, hf, site, hdoc, hclean, ?_⟩
    intro hhidden
    rw [hclean, Comment.clean_of_isHidden hhidden]
  · have hjoin := description_oneof h hd
    have hclean : d.source.description = Comment.clean d.description := by rw [hjoin]; rfl
    refine ⟨hjoin, ?_⟩
    rw [hclean, Comment.clean_eq_self_iff]
  · obtain ⟨docs, -, rfl⟩ := build_eq_ok.mp h
    obtain ⟨f, hf, hpackage, hname, htrim⟩ := exists_file_of_note hp hn
    refine ⟨f, hf, hpackage, hname, htrim, ?_⟩
    rw [htrim, Text.isShown_trim_iff]

/-! ## Comments of a oneof and of a file -/

/-- A member of the first oneof of a message. -/
def cardField : FieldDecl :=
  { plainField "card" 1 .optional (.scalar .string) "" with oneofIndex := some 0 }

/-- A file whose comment is hidden behind a tab, with a message whose oneof is to be hidden. -/
def paymentFile : FileDecl :=
  { plainFile "pay.proto" "shop"
      [{ plainMessage "Payment" [cardField] [] with oneofs := [⟨"method"⟩] }] with
    locations := [⟨[12], [0, 0, 18], "*	@exclude", ""⟩,
      ⟨[4, 0], [2, 0, 6, 1], " * A payment.
", ""⟩,
      ⟨[4, 0, 8, 0], [3, 2, 5, 3], " @exclude internal
", ""⟩] }

attribute [local instance] Annotations.pool

-- What the catalog of the file has as descriptions.
theorem build_payment : ∃ c, build none [paymentFile] = .ok c ∧
    (∃ f ∈ c.files, ∃ m ∈ f.messages, m.description = "A payment." ∧
      ∃ d ∈ m.oneofs, d.description = "@exclude internal" ∧ d.source.description = "" ∧
        Comment.IsHidden (Comment.join [d.source.leading, d.source.trailing])) ∧
    ∃ p ∈ c.packages, ∃ n ∈ p.notes, n.description = "@exclude" := exists_ok (by decide +kernel)

/-- The message's description may be shown, and those of its oneof and of the package may not. -/
theorem descriptions_shown_payment : ∃ c, build none [paymentFile] = .ok c ∧
    (∃ m, c.HoldsNode (.message m) ∧ m.description = "A payment." ∧
      Comment.IsShown m.description) ∧
    (∃ d, c.HoldsNode (.oneof d) ∧ d.description ≠ "" ∧ ¬ Comment.IsShown d.description) ∧
    ∃ p ∈ c.packages, ∃ n ∈ p.notes, ∃ f ∈ c.files, f.name = n.file ∧
      n.description = Text.trim f.description := by
  obtain ⟨c, hc, ⟨f, hf, m, hm, hmessage, d, hd, honeof, hclean, -⟩, p, hp, n, hn, -⟩ :=
    build_payment
  have hin : ∀ node ∈ m.nodes, c.HoldsNode node := fun node hnode ↦
    .inl ⟨f, hf, FileDoc.mem_nodes_of_message hm hnode⟩
  have hoin : Node.oneof d ∈ m.nodes := MessageDoc.mem_nodes_of_oneof hd
  obtain ⟨hnodes, honeofs, hnotes⟩ := descriptions_shown hc
  obtain ⟨hshown, -⟩ := hnodes _ (hin _ List.mem_cons_self) nofun
  obtain ⟨-, hiff⟩ := honeofs d (hin _ hoin)
  obtain ⟨g, hg, -, hname, htrim, -⟩ := hnotes p hp n hn
  have hne : d.description ≠ "" := by rw [honeof]; decide
  refine ⟨c, hc, ⟨m, hin _ List.mem_cons_self, hmessage, hshown⟩, ⟨d, hin _ hoin, hne, ?_⟩,
    p, hp, n, hn, g, hg, hname, htrim⟩
  intro hs
  exact hne (by rw [← hiff.mp hs, hclean])

/-- Two descriptions begin with the mark of hidden comments: that of the oneof, whose comment is
hidden, and what the package has of the file. -/
theorem descriptions_not_shown_payment : ∃ c, build none [paymentFile] = .ok c ∧
    (∃ d, c.HoldsNode (.oneof d) ∧
      Comment.IsHidden (Comment.join [d.source.leading, d.source.trailing]) ∧
      d.description = "@exclude internal" ∧ ¬ Comment.IsShown d.description) ∧
    ∃ p ∈ c.packages, ∃ n ∈ p.notes, n.description = "@exclude" ∧
      ¬ Comment.IsShown n.description := by
  obtain ⟨c, hc, ⟨f, hf, m, hm, -, d, hd, honeof, -, hhidden⟩, p, hp, n, hn, hnote⟩ := build_payment
  have hoin : Node.oneof d ∈ m.nodes := MessageDoc.mem_nodes_of_oneof hd
  refine ⟨c, hc, ⟨d, .inl ⟨f, hf, ?_⟩, hhidden, honeof, ?_⟩, p, hp, n, hn, hnote, ?_⟩
  · exact FileDoc.mem_nodes_of_message hm hoin
  · rw [honeof]
    decide
  · rw [hnote]
    decide

end Catalog
end ProtoCatalog
