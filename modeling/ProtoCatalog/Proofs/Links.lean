import ProtoCatalog.Proofs.MapEntries
import ProtoCatalog.Proofs.Order
import ProtoCatalog.Proofs.Resolving
import ProtoCatalog.Schema.Annotations

/-!
# Cross-references

The tables of a catalog have the full names that its files declare, and no others.  Where several
packages declare one name, its link leads to the greatest of them: links are put into their table
package by package, and later ones replace earlier ones.
-/

namespace ProtoCatalog

/-! ## Declared names -/

namespace FileDecl

variable [DescriptorPool] {registry : Option Registry} {f : FileDecl} {doc : FileDoc}
    {name : String}

/-- A file declares a message with a full name, directly or inside another message. -/
def DeclaresMessage (f : FileDecl) (name : String) : Prop :=
  ∃ s m, f.messageAt? s = some m ∧ f.fullName m = name

/-- A file declares an enumeration with a full name, directly or inside a message. -/
def DeclaresEnum (f : FileDecl) (name : String) : Prop :=
  ∃ s e, f.enumAt? s = some e ∧ inScope f.package e.longName = name

def DeclaresName (f : FileDecl) (name : String) : Prop :=
  f.DeclaresMessage name ∨ f.DeclaresEnum name

-- The messages of a documented file have the names that the file declares for messages.
theorem exists_message_named_iff (h : f.document registry = .ok doc) :
    (∃ m ∈ doc.messages, m.names.full = name) ↔ f.DeclaresMessage name := by
  constructor
  · rintro ⟨d, hd, rfl⟩
    obtain ⟨m, hm, hmd⟩ := exists_decl_of_mem h hd
    obtain ⟨s, hs⟩ := mem_allMessages.mp hm
    refine ⟨s, m, hs, ?_⟩
    rw [MessageDecl.names_document hmd]
    rfl
  · rintro ⟨s, m, hs, rfl⟩
    obtain ⟨d, hd, hmd⟩ := exists_message_document h (mem_allMessages.mpr ⟨s, hs⟩)
    refine ⟨d, hd, ?_⟩
    rw [MessageDecl.names_document hmd]
    rfl

-- And so it is for enumerations.
theorem exists_enum_named_iff (h : f.document registry = .ok doc) :
    (∃ e ∈ doc.enums, e.names.full = name) ↔ f.DeclaresEnum name := by
  constructor
  · rintro ⟨d, hd, rfl⟩
    obtain ⟨e, he, hed⟩ := exists_enum_of_mem h hd
    obtain ⟨s, hs⟩ := mem_allEnums.mp he
    refine ⟨s, e, hs, ?_⟩
    rw [EnumDecl.names_document hed]
    rfl
  · rintro ⟨s, e, hs, rfl⟩
    obtain ⟨d, hd, hed⟩ := exists_enum_document h (mem_allEnums.mpr ⟨s, hs⟩)
    refine ⟨d, hd, ?_⟩
    rw [EnumDecl.names_document hed]
    rfl

end FileDecl

namespace Catalog

/-! ## Names of documented files -/

/-- A documented file has a message with a full name. -/
def HasMessage (f : FileDoc) (name : String) : Prop := ∃ m ∈ f.messages, m.names.full = name

/-- A documented file has a message or an enumeration with a full name. -/
def HasName (f : FileDoc) (name : String) : Prop :=
  HasMessage f name ∨ ∃ e ∈ f.enums, e.names.full = name

/-- A documented file has the package of a declared file, and the names that it declares. -/
structure SameNames (f : FileDecl) (s : FileDoc) : Prop where
  package : s.package = f.package
  messages : ∀ name, HasMessage s name ↔ f.DeclaresMessage name
  all : ∀ name, HasName s name ↔ f.DeclaresName name

theorem hasMessage_iff {f : FileDoc} {name : String} :
    HasMessage f name ↔ name ∈ fullNames f.messages := List.mem_map.symm

theorem fullNames_of_forall₂ {ms xs ys : List MessageDoc}
    (h : List.Forall₂ (ResolvedMessage ms) xs ys) : fullNames ys = fullNames xs :=
  map_eq_map_of_forall₂ h fun x y hxy ↦ by rw [hxy.kept]

/-- Settling takes no name away and adds none. -/
theorem forall₂_sameNames [DescriptorPool] {registry : Option Registry} {files : List FileDecl}
    {docs settled : List FileDoc}
    (hdocs : List.Forall₂ (fun f d ↦ f.document registry = .ok d) files docs)
    (hs : Settlement docs settled) : List.Forall₂ SameNames files settled := by
  refine forall₂_trans (fun f d s hfd hds ↦ ?_) hdocs hs.files
  obtain ⟨hkept, hmessages⟩ := hds
  have hpackage : s.package = f.package := by rw [hkept, ← FileDecl.package_document hfd]
  have hnames : ∀ name, HasMessage s name ↔ f.DeclaresMessage name := by
    intro name
    rw [hasMessage_iff, fullNames_of_forall₂ hmessages, ← hasMessage_iff]
    exact FileDecl.exists_message_named_iff hfd
  have henums : s.enums = d.enums := by rw [hkept]
  refine ⟨hpackage, hnames, fun name ↦ ?_⟩
  rw [HasName, hnames, henums, FileDecl.exists_enum_named_iff hfd, FileDecl.DeclaresName]

/-! ## Links package by package -/

/-- A link leads to a package that is not after that of another link. -/
def LeadsBefore (a b : String × Link) : Prop :=
  ∀ p x q y, a.2 = .declared p x → b.2 = .declared q y → p ≤ q

theorem leadsBefore_of_le {p q : PackageDoc} (h : p.name ≤ q.name) {a b : String × Link}
    (ha : a ∈ packageLinks p) (hb : b ∈ packageLinks q) : LeadsBefore a b := by
  intro n x k y hn hk
  rw [(mem_packageLinks.mp ha).1] at hn
  rw [(mem_packageLinks.mp hb).1] at hk
  cases hn
  cases hk
  exact h

/-- Links come in the order of the packages that they lead to. -/
theorem pairwise_links (files : List FileDoc) :
    (((packageNames files).map (gather files)).flatMap packageLinks).Pairwise LeadsBefore := by
  rw [List.pairwise_flatMap, List.pairwise_map]
  constructor
  · intro p _
    exact List.pairwise_of_forall_mem_list fun a ha b hb ↦ leadsBefore_of_le (le_refl _) ha hb
  · apply (pairwise_packageNames files).imp
    intro n k hnk a ha b hb
    exact leadsBefore_of_le (p := gather files n) (q := gather files k) hnk.le ha hb

theorem mem_keys_links {files : List FileDoc} {name : String} :
    name ∈ (assemble files).links.keys ↔ ∃ f ∈ files, HasName f name := by
  rw [assemble, Table.mem_keys_ofList, List.mem_map]
  constructor
  · rintro ⟨⟨_, l⟩, hl, rfl⟩
    obtain ⟨f, hf, -, hn⟩ := mem_links.mp hl
    exact ⟨f, hf, hn⟩
  · rintro ⟨f, hf, hn⟩
    exact ⟨(name, .declared f.package name), mem_links.mpr ⟨f, hf, rfl, hn⟩, rfl⟩

/-- The link to a name leads to the greatest package of those that have it. -/
theorem find?_links_iff {files : List FileDoc} {name : String} {l : Link} :
    (assemble files).links.find? name = some l ↔ ∃ f ∈ files, HasName f name ∧
      l = .declared f.package name ∧ ∀ g ∈ files, HasName g name → g.package ≤ f.package := by
  have hgreatest : ∀ {l}, (assemble files).links.find? name = some l → ∃ f ∈ files, HasName f name ∧
      l = .declared f.package name ∧ ∀ g ∈ files, HasName g name → g.package ≤ f.package := by
    intro l hl
    obtain ⟨hin, hlast⟩ := Table.find?_ofList_of_pairwise (pairwise_links files) hl
    obtain ⟨f, hf, rfl, hn⟩ := mem_links.mp hin
    refine ⟨f, hf, hn, rfl, fun g hg hgn ↦ ?_⟩
    rcases hlast _ (mem_links.mpr ⟨g, hg, rfl, hgn⟩) rfl with he | hle
    · obtain ⟨hpackage, -⟩ := Link.declared.inj (congrArg Prod.snd he)
      exact hpackage.le
    · exact hle _ _ _ _ rfl rfl
  constructor
  · exact hgreatest
  · rintro ⟨f, hf, hn, rfl, hmax⟩
    -- The name has a link, and no two packages are both the greatest.
    obtain ⟨l, hl⟩ := Table.mem_keys_iff.mp (mem_keys_links.mpr ⟨f, hf, hn⟩)
    obtain ⟨g, hg, hgn, rfl, hgmax⟩ := hgreatest hl
    rw [hl, le_antisymm (hmax g hg hgn) (hgmax f hf hn)]

theorem mem_keys_messageTable {files : List FileDoc} {name : String} :
    name ∈ (messageTable files).keys ↔ ∃ f ∈ files, HasMessage f name := by
  rw [messageTable, Table.mem_keys_ofList, List.map_flatMap, List.mem_flatMap]
  simp only [List.map_map, HasMessage, List.mem_map, Function.comp_apply]

/-! ## Dots in front of a name -/

theorem withoutDots_dots_append (k : Nat) (name : String) :
    withoutDots (String.ofList (List.replicate k '.') ++ name) = withoutDots name := by
  have hdots : ∀ rest : List Char, (List.replicate k '.' ++ rest).dropWhile (· = '.') =
      rest.dropWhile (· = '.') := by
    intro rest
    apply List.dropWhile_append_of_pos
    intro c hc
    exact decide_eq_true (List.eq_of_mem_replicate hc)
  rw [withoutDots, String.toList_append, String.toList_ofList, hdots, withoutDots]

/-! ## The tables of a built catalog -/

-- Where all names of messages differ, each finds what its declaration became.
theorem Settled.exists_comesFrom [DescriptorPool] {registry : Option Registry}
    {files : List FileDecl} {docs : List FileDoc} {c : Catalog} (h : Settled registry files docs c)
    {f : FileDecl} (hf : f ∈ files) {s : MessageSite} {m : Placed MessageDecl}
    (hm : f.messageAt? s = some m) :
    ∃ x, c.HoldsMessage (f.fullName m) x ∧ ComesFrom registry f m x := by
  obtain ⟨d, hd, -, hheld⟩ := h.holdsMessage hf hm
  have hresolved : ResolvedMessage (nodes docs) d
      (settleMessage (messageTable docs) (mapTypes docs) d) :=
    resolvedMessage_resolveMessage (fresh_document hd) _
  exact ⟨_, hheld, d, nodes docs, hd, hresolved⟩

theorem Settled.message? [DescriptorPool] {registry : Option Registry} {files : List FileDecl}
    {docs : List FileDoc} {c : Catalog} (h : Settled registry files docs c) {i : Nat} {f : FileDecl}
    (hf : files[i]? = some f) {s : MessageSite} {m : Placed MessageDecl}
    (hm : f.messageAt? s = some m) (hdot : (f.fullName m).toList.head? ≠ some '.') :
    ∃ x, c.HoldsMessage (f.fullName m) x ∧ ComesFrom registry f m x ∧
      c.message? (f.fullName m) = some x ∧ c.message? ("." ++ f.fullName m) = some x ∧
      ∃ g, c.files[i]? = some g ∧ (x ∈ g.messages ↔ x.internal = false) := by
  obtain ⟨x, hheld, hfrom⟩ := h.exists_comesFrom (List.mem_of_getElem? hf) hm
  obtain ⟨g, hg, -, hlist⟩ := h.file_lists hf hm hheld
  have hdrop : withoutDots ("." ++ f.fullName m) = f.fullName m :=
    (withoutDots_dots_append 1 (f.fullName m)).trans (withoutDots_eq hdot)
  refine ⟨x, hheld, hfrom, ?_, ?_, g, hg, hlist⟩
  · rw [Catalog.message?, withoutDots_eq hdot]
    exact hheld.1
  · rw [Catalog.message?, hdrop]
    exact hheld.1

/-- The tables are complete and exact.  Links are there for the full names of all messages and
enumerations, entries of maps among them, and each leads to the greatest package that declares the
name.  The table of messages has the full names of all messages; where these differ, whoever asks
for one that does not begin with a dot, with or without a dot in front, finds the message that its
declaration became, whether it is listed or internal.  Dots in front of what is asked for do not
matter. -/
theorem cross_references_exact [DescriptorPool] {registry : Option Registry} {files : List FileDecl}
    {c : Catalog} (h : build registry files = .ok c) :
    (∀ name, name ∈ c.links.keys ↔ ∃ f ∈ files, f.DeclaresName name) ∧
    (∀ name l, c.links.find? name = some l ↔ ∃ f ∈ files, f.DeclaresName name ∧
      l = .declared f.package name ∧ ∀ g ∈ files, g.DeclaresName name → g.package ≤ f.package) ∧
    (∀ name, name ∈ c.messages.keys ↔ ∃ f ∈ files, f.DeclaresMessage name) ∧
    ((FileDecl.messageNames files).Nodup → ∀ (i : Nat) f, files[i]? = some f →
      ∀ s m, f.messageAt? s = some m → (f.fullName m).toList.head? ≠ some '.' →
      ∃ x, c.HoldsMessage (f.fullName m) x ∧ ComesFrom registry f m x ∧
        c.message? (f.fullName m) = some x ∧ c.message? ("." ++ f.fullName m) = some x ∧
        ∃ g, c.files[i]? = some g ∧ (x ∈ g.messages ↔ x.internal = false)) ∧
    ∀ (k : Nat) query, c.link? (String.ofList (List.replicate k '.') ++ query) = c.link? query := by
  obtain ⟨docs, hdocs, -, hsettled, hc⟩ := exists_settlement h
  have hnames := forall₂_sameNames hdocs hsettled
  refine ⟨fun name ↦ ?_, fun name l ↦ ?_, fun name ↦ ?_, ?_, ?_⟩
  · rw [hc, mem_keys_links]
    exact exists_mem_iff_of_forall₂ hnames fun f s hs ↦ hs.all name
  · rw [hc, find?_links_iff]
    -- The greatest package is the same, whether it is looked for before or after documenting.
    refine exists_mem_iff_of_forall₂ hnames fun f s hs ↦ ?_
    have hgreatest : (∀ t ∈ settle docs, HasName t name → t.package ≤ f.package) ↔
        ∀ g ∈ files, g.DeclaresName name → g.package ≤ f.package := by
      refine forall_mem_iff_of_forall₂ hnames fun g t ht ↦ ?_
      rw [ht.all, ht.package]
    rw [hs.all, hs.package, hgreatest]
  · rw [hc]
    show name ∈ (messageTable (settle docs)).keys ↔ _
    rw [mem_keys_messageTable]
    exact exists_mem_iff_of_forall₂ hnames fun f s hs ↦ hs.messages name
  · intro hd i f hf s m hm hdot
    obtain ⟨docs, hs⟩ := exists_settled h hd
    exact hs.message? hf hm hdot
  · intro k query
    rw [link?, link?, withoutDots_dots_append]

/-! ## A name of two packages -/

/-- An enumeration without values or options. -/
def plainEnum (name : String) : EnumDecl := { name := name, values := [], options := [] }

/-- A file of one enumeration, whose full name may be that of a message in another package. -/
def kindFile (package name : String) : FileDecl :=
  { plainFile "kind.proto" package [] with enums := [plainEnum name] }

/-- The files of two packages: an enumeration in one, and an entry in the other. -/
def kindFiles : List FileDecl := [kindFile "shop.Item" "LabelsEntry", labelsFile "shop"]

attribute [local instance] Annotations.pool

/-- The two share a full name.  Its link leads to the enumeration's package, which is the greater,
and the entry is found all the same. -/
theorem cross_references_exact_kind : ∃ c, build none kindFiles = .ok c ∧
    "shop.Item.LabelsEntry" ∈ c.links.keys ∧ "shop.Item.LabelsEntry" ∈ c.messages.keys ∧
    c.links.find? "shop.Item.LabelsEntry" =
      some (.declared "shop.Item" "shop.Item.LabelsEntry") ∧
    (∃ x, c.HoldsMessage "shop.Item.LabelsEntry" x ∧ c.message? "shop.Item.LabelsEntry" = some x ∧
      c.message? ".shop.Item.LabelsEntry" = some x) ∧
    c.link? "..shop.Item" = c.link? "shop.Item" := by
  obtain ⟨c, hc, -⟩ : ∃ c, build none kindFiles = .ok c ∧ True := exists_ok (by decide +kernel)
  have hdistinct : (FileDecl.messageNames kindFiles).Nodup := by decide +kernel
  have hkind : (kindFile "shop.Item" "LabelsEntry").DeclaresName "shop.Item.LabelsEntry" :=
    .inr ⟨.top 0, ⟨[5, 0], "LabelsEntry", plainEnum "LabelsEntry"⟩, rfl, by decide⟩
  have hn : (labelsFile "shop").messageAt? (.nested (.top 0) 0) =
      some ⟨[4, 0, 3, 0], "Item.LabelsEntry", labelsEntry⟩ := rfl
  have hname : (labelsFile "shop").fullName ⟨[4, 0, 3, 0], "Item.LabelsEntry", labelsEntry⟩ =
      "shop.Item.LabelsEntry" := by decide
  have hpackages : ∀ g ∈ kindFiles, g.package ≤ "shop.Item" := by decide +kernel
  obtain ⟨hkeys, hlinks, hmessages, hfound, hdots⟩ := cross_references_exact hc
  obtain ⟨x, hx, -, hasked, hdot, -⟩ := hfound hdistinct 1 _ rfl _ _ hn (by decide)
  rw [hname] at hx hasked hdot
  exact ⟨c, hc, (hkeys _).mpr ⟨_, List.mem_cons_self, hkind⟩,
    (hmessages _).mpr ⟨_, List.mem_cons_of_mem _ List.mem_cons_self, _, _, hn, hname⟩,
    (hlinks _ _).mpr ⟨_, List.mem_cons_self, hkind, rfl, fun g hg _ ↦ hpackages g hg⟩,
    ⟨x, hx, hasked, hdot⟩, hdots 2 "shop.Item"⟩

end Catalog
end ProtoCatalog
