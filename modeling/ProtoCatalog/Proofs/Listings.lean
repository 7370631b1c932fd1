import ProtoCatalog.Proofs.MapEntries
import ProtoCatalog.Proofs.Nodes
import ProtoCatalog.Proofs.Order
import ProtoCatalog.Proofs.Resolving
import ProtoCatalog.Schema.Annotations

/-!
# The listings of files and packages

A file lists its declarations by their names inside the package, and a package lists those of its
files by their full names.  Inside one package the two orders are the same, so the listing of a
package has that of each file in it, in its own order.
-/

namespace ProtoCatalog

/-! ## Sorted and merged lists -/

section Lists

variable {α β : Type}

/-- A list sorted by a name: ascending, with the same members, and those that have one name in the
order that they came in. -/
structure StableSort (name : α → String) (docs sorted : List α) : Prop where
  ascending : sorted.Pairwise fun a b ↦ name a ≤ name b
  perm : sorted.Perm docs
  stable : ∀ n, sorted.filter (name · == n) = docs.filter (name · == n)

/-- Lists merged by a name: ascending, with the members of all, and each list in its own order. -/
structure Merged (name : α → String) (lists : List (List α)) (all : List α) : Prop where
  ascending : all.Pairwise fun a b ↦ name a ≤ name b
  perm : all.Perm lists.flatten
  sublist : ∀ l ∈ lists, l.Sublist all

theorem stableSort_sortByName (name : α → String) (docs : List α) :
    StableSort name docs (sortByName name docs) :=
  ⟨pairwise_sortByName name docs, sortByName_perm name docs, filter_sortByName name docs⟩

theorem StableSort.filter {name : α → String} {docs sorted : List α}
    (h : StableSort name docs sorted) (p : α → Bool) :
    StableSort name (docs.filter p) (sorted.filter p) := by
  refine ⟨h.ascending.filter p, h.perm.filter p, fun n ↦ ?_⟩
  rw [List.filter_comm, h.stable, List.filter_comm]

/-- There is one way to sort a list by a name and keep the order of what has one name. -/
theorem StableSort.unique {name : α → String} {docs s t : List α} (hs : StableSort name docs s)
    (ht : StableSort name docs t) : s = t :=
  eq_of_filter_eq hs.ascending ht.ascending fun n ↦ (hs.stable n).trans (ht.stable n).symm

/-- Sorted lists are sorted together as the lists behind each other are. -/
theorem StableSort.append {name : α → String} {xs ys s t : List α} (hs : StableSort name xs s)
    (ht : StableSort name ys t) : StableSort name (xs ++ ys) (sortByName name (s ++ t)) := by
  refine ⟨pairwise_sortByName name _, ?_, fun n ↦ ?_⟩
  · exact (sortByName_perm name _).trans (hs.perm.append ht.perm)
  · rw [filter_sortByName, List.filter_append, hs.stable, ht.stable, List.filter_append]

theorem merged_sortByName {name : α → String} {lists : List (List α)}
    (h : ∀ l ∈ lists, l.Pairwise fun a b ↦ name a ≤ name b) :
    Merged name lists (sortByName name lists.flatten) :=
  ⟨pairwise_sortByName name _, sortByName_perm name _,
    fun l hl ↦ sublist_sortByName (h l hl) (List.sublist_flatten_of_mem hl)⟩

theorem Merged.filter {name : α → String} {lists : List (List α)} {all : List α}
    (h : Merged name lists all) (p : α → Bool) :
    Merged name (lists.map (List.filter p)) (all.filter p) := by
  refine ⟨h.ascending.filter p, ?_, fun l hl ↦ ?_⟩
  · rw [← List.filter_flatten]
    exact h.perm.filter p
  · obtain ⟨own, hown, rfl⟩ := List.mem_map.mp hl
    exact (h.sublist own hown).filter p

-- Where the members of a list differ, what they are taken to is given by a function.
theorem exists_map_of_forall₂ [Nonempty β] {R : α → β → Prop} {xs : List α} {ys : List β}
    (hd : xs.Nodup) (h : List.Forall₂ R xs ys) :
    ∃ g : α → β, ys = xs.map g ∧ ∀ x ∈ xs, R x (g x) := by
  classical
  induction h with
  | nil => exact ⟨fun _ ↦ Classical.arbitrary β, rfl, nofun⟩
  | @cons a b as bs hab _ ih =>
    obtain ⟨ha, has⟩ := List.nodup_cons.mp hd
    obtain ⟨g, rfl, hg⟩ := ih has
    have hother : ∀ x ∈ as, Function.update g a b x = g x := by
      intro x hx
      apply Function.update_of_ne
      rintro rfl
      exact ha hx
    refine ⟨Function.update g a b, ?_, ?_⟩
    · rw [List.map_cons, Function.update_self, List.map_congr_left hother]
    · intro x hx
      rcases List.mem_cons.mp hx with rfl | hx
      · rwa [Function.update_self]
      · rw [hother x hx]
        exact hg x hx

/-- What a sorted list is taken to, name for name, is sorted from what the list before the sorting
is taken to. -/
theorem exists_sortByName_of_forall₂ {R : α → β → Prop} {name : α → String} {name' : β → String}
    (hR : ∀ x y, R x y → name' y = name x) {docs : List α} (hd : docs.Nodup) {ys : List β}
    (h : List.Forall₂ R (sortByName name docs) ys) :
    ∃ walk, List.Forall₂ R docs walk ∧ ys = sortByName name' walk := by
  have hmem : ∀ x, x ∈ sortByName name docs ↔ x ∈ docs := fun _ ↦
    (sortByName_perm name docs).mem_iff
  cases docs with
  | nil =>
    have hnil : ∀ {γ : Type} (n : γ → String), sortByName n [] = [] := fun n ↦
      List.perm_nil.mp (sortByName_perm n [])
    rw [hnil, List.forall₂_nil_left_iff] at h
    exact ⟨[], .nil, by rw [h, hnil]⟩
  | cons first rest =>
    obtain ⟨y, -, -⟩ := exists_of_mem_left h ((hmem first).mpr List.mem_cons_self)
    have : Nonempty β := ⟨y⟩
    obtain ⟨g, rfl, hg⟩ :=
      exists_map_of_forall₂ ((sortByName_perm name (first :: rest)).symm.nodup hd) h
    have hgR : ∀ x ∈ first :: rest, R x (g x) := fun x hx ↦ hg x ((hmem x).mpr hx)
    refine ⟨(first :: rest).map g, ?_, ?_⟩
    · rw [List.forall₂_map_right_iff, List.forall₂_same]
      exact hgR
    · apply List.map_mergeSort
      intro a ha b hb
      rw [hR a _ (hgR a ha), hR b _ (hgR b hb)]

end Lists

/-! ## Blank descriptions -/

-- Nothing is left of a text just if it is blank.
theorem Text.trim_eq_empty_iff {s : String} :
    Text.trim s = "" ↔ s.toList.all Text.isBlank = true := by
  rw [Text.trim, ← String.toList_inj, String.toList_ofList, List.all_eq_true]
  show (List.dropWhile Text.isBlank (s.toList.dropWhile Text.isBlank).reverse).reverse = [] ↔ _
  rw [List.reverse_eq_nil_iff, List.dropWhile_eq_nil_iff]
  simp only [List.mem_reverse]
  constructor
  · intro h
    -- The first character that is left would not be blank.
    by_contra hno
    have hne : s.toList.dropWhile Text.isBlank ≠ [] := fun he ↦
      hno (List.dropWhile_eq_nil_iff.mp he)
    have hfirst := List.head_dropWhile_not Text.isBlank hne
    rw [h _ (List.head_mem hne)] at hfirst
    exact absurd hfirst (by decide)
  · intro h
    rw [List.dropWhile_eq_nil_iff.mpr h]
    exact nofun

namespace Catalog

theorem packageNotes_eq (files : List FileDoc) :
    packageNotes files = (files.filter fun f ↦ !f.description.toList.all Text.isBlank).map
      fun f ↦ ⟨f.name, Text.trim f.description⟩ := by
  induction files with
  | nil => rfl
  | cons f rest ih =>
    rw [packageNotes] at ih ⊢
    rw [List.filterMap_cons, List.filter_cons, ih]
    by_cases h : Text.trim f.description = ""
    · simp [h, Text.trim_eq_empty_iff.mp h]
    · simp [h, mt Text.trim_eq_empty_iff.mpr h]

end Catalog

/-! ## Listings of files -/

namespace FileDecl

variable {registry : Option Registry} {f : FileDecl} {d s : FileDoc}

/-- The walk over a file comes to every message and every enumeration in it, and to each once.  It
takes the messages as they stand in the file, those inside a message before the ones behind it. -/
structure Walked (f : FileDecl) : Prop where
  messages : ∀ m, m ∈ f.allMessages ↔ ∃ s, f.messageAt? s = some m
  messagesInOrder : f.allMessages.Pairwise fun m n ↦ m.address < n.address
  enums : ∀ e, e ∈ f.allEnums ↔ ∃ s, f.enumAt? s = some e
  enumsOnce : (f.allEnums.map (·.address)).Nodup

/-- A settled file lists its declarations, each collection sorted by the names inside the package.
Declarations of one name are in the order of the walk.  With the internal messages left out that
is still so. -/
structure Lists [DescriptorPool] (registry : Option Registry) (f : FileDecl) (s : FileDoc) :
    Prop where
  name : s.name = f.name
  package : s.package = f.package
  enums : ∃ walk, List.Forall₂ (fun e x ↦ EnumDecl.document ⟨f, registry⟩ e = .ok x)
      f.allEnums walk ∧ StableSort (·.names.long) walk s.enums
  extensions : ∃ walk, documentAll Address.file .fileExtensions (fun path e ↦
      e.documentExtension ⟨f, registry⟩ e.name none path) f.extensions = .ok walk ∧
    StableSort (·.names.long) walk s.extensions
  services : ∃ walk, documentAll Address.file .fileServices (ServiceDecl.document ⟨f, registry⟩)
      f.services = .ok walk ∧ StableSort (·.names.long) walk s.services
  messages : ∃ walk, List.Forall₂ (Catalog.ComesFrom registry f) f.allMessages walk ∧
    StableSort (·.names.long) walk s.messages ∧
    StableSort (·.names.long) (walk.filter (!·.internal)) (s.messages.filter (!·.internal))

theorem walked (f : FileDecl) : f.Walked :=
  ⟨fun _ ↦ mem_allMessages, pairwise_address_allMessages f, fun _ ↦ mem_allEnums,
    nodup_address_allEnums f⟩

-- The messages of a file differ, since their addresses do.
theorem nodup_of_forall₂_document [DescriptorPool] {docs : List MessageDoc}
    (h : List.Forall₂ (fun m x ↦ MessageDecl.document ⟨f, registry⟩ m = .ok x)
      f.allMessages docs) : docs.Nodup := by
  have hpaths : docs.map (·.source.path) = f.allMessages.map (·.address) := by
    apply map_eq_map_of_forall₂ h
    intro m x hx
    obtain ⟨_, _, _, _, _, _, rfl⟩ := MessageDecl.document_eq_ok hx
    exact path_sourceAt f m.address
  exact List.Nodup.of_map _ (hpaths ▸ nodup_address_allMessages f)

/-- Settling keeps every declaration on its listing. -/
theorem lists_of_document [DescriptorPool] {ms : List MessageDoc} (h : f.document registry = .ok d)
    (hkept : s = { d with messages := s.messages })
    (hs : List.Forall₂ (Catalog.ResolvedMessage ms) d.messages s.messages) :
    f.Lists registry s := by
  obtain ⟨_, enums, messages, extensions, services, _, henums, hmessages, hextensions, hservices,
    rfl⟩ := document_eq_ok h
  have hdocs := mapM_eq_ok.mp hmessages
  have hlong : ∀ x y, Catalog.ResolvedMessage ms x y → y.names.long = x.names.long :=
    fun x y hxy ↦ by rw [hxy.kept]
  obtain ⟨walk, hwalk, hsorted⟩ :=
    exists_sortByName_of_forall₂ hlong (nodup_of_forall₂_document hdocs) hs
  have hstable : StableSort (·.names.long) walk s.messages :=
    hsorted ▸ stableSort_sortByName _ walk
  have hcomes : List.Forall₂ (Catalog.ComesFrom registry f) f.allMessages walk :=
    forall₂_trans (fun m x y hx hxy ↦ ⟨x, ms, hx, hxy⟩) hdocs hwalk
  rw [hkept]
  exact ⟨rfl, rfl, ⟨enums, mapM_eq_ok.mp henums, stableSort_sortByName _ enums⟩,
    ⟨extensions, hextensions, stableSort_sortByName _ extensions⟩,
    ⟨services, hservices, stableSort_sortByName _ services⟩,
    ⟨walk, hcomes, hstable, hstable.filter _⟩⟩

end FileDecl

/-! ## Listings of packages -/

/-- The declarations of a file are in the order of their full names. -/
structure FileDoc.FullOrder (s : FileDoc) : Prop where
  messages : s.messages.Pairwise fun a b ↦ a.names.full ≤ b.names.full
  enums : s.enums.Pairwise fun a b ↦ a.names.full ≤ b.names.full
  services : s.services.Pairwise fun a b ↦ a.names.full ≤ b.names.full

/-- A package lists what files list, merged by the full names, and has a note for each file whose
description is not blank, in the order of the files. -/
structure PackageDoc.Gathers (p : PackageDoc) (own : List FileDoc) : Prop where
  messages : Merged (·.names.full) (own.map (·.messages)) p.messages
  enums : Merged (·.names.full) (own.map (·.enums)) p.enums
  services : Merged (·.names.full) (own.map (·.services)) p.services
  notes : p.notes = (own.filter fun f ↦ !f.description.toList.all Text.isBlank).map
    fun f ↦ ⟨f.name, Text.trim f.description⟩

-- Inside one package full names are in the order of the names inside it.
theorem StableSort.pairwise_full {α : Type} {names : α → Naming} {docs sorted : List α}
    (h : StableSort (fun x ↦ (names x).long) docs sorted) (package : String)
    (hfull : ∀ x ∈ docs, (names x).full = inScope package (names x).long) :
    sorted.Pairwise fun a b ↦ (names a).full ≤ (names b).full := by
  apply h.ascending.imp_of_mem
  intro a b ha hb hab
  rw [hfull a (h.perm.mem_iff.mp ha), hfull b (h.perm.mem_iff.mp hb)]
  exact inScope_le hab

theorem FileDecl.Lists.fullOrder [DescriptorPool] {registry : Option Registry} {f : FileDecl}
    {s : FileDoc} (h : f.Lists registry s) : s.FullOrder := by
  constructor
  · obtain ⟨walk, hwalk, hsorted, -⟩ := h.messages
    apply hsorted.pairwise_full f.package
    intro x hx
    obtain ⟨m, -, d, _, hd, hdx⟩ := exists_of_mem_right hwalk hx
    rw [hdx.kept, MessageDecl.names_document hd]
    rfl
  · obtain ⟨walk, hwalk, hsorted⟩ := h.enums
    apply hsorted.pairwise_full f.package
    intro x hx
    obtain ⟨e, -, hd⟩ := exists_of_mem_right hwalk hx
    rw [EnumDecl.names_document hd]
    rfl
  · obtain ⟨walk, hwalk, hsorted⟩ := h.services
    apply hsorted.pairwise_full f.package
    intro x hx
    obtain ⟨_, _, -, hd⟩ := mem_documentAll hwalk hx
    obtain ⟨_, _, _, _, rfl⟩ := ServiceDecl.document_eq_ok hd
    rfl

namespace Catalog

/-- A package of some settled files gathers what those of them that are in it list. -/
theorem gathers_gather {files : List FileDoc} (h : ∀ s ∈ files, s.FullOrder) (name : String) :
    PackageDoc.Gathers
      { gather files name with messages := listed (gather files name).messages }
      ((assemble files).files.filter (·.package == name)) := by
  have hown : ∀ s ∈ files.filter (·.package == name), s.FullOrder :=
    fun s hs ↦ h s (List.mem_filter.mp hs).1
  have hfiles : (assemble files).files.filter (·.package == name) =
      (files.filter (·.package == name)).map fun f ↦ { f with messages := listed f.messages } :=
    List.filter_map
  rw [hfiles]
  constructor
  · have hmerged : Merged (·.names.full) ((files.filter (·.package == name)).map (·.messages))
        (gather files name).messages :=
      merged_sortByName (List.forall_mem_map.mpr fun s hs ↦ (hown s hs).messages)
    have hlisted := hmerged.filter (!·.internal)
    rw [List.map_map] at hlisted ⊢
    exact hlisted
  · rw [List.map_map]
    exact merged_sortByName (List.forall_mem_map.mpr fun s hs ↦ (hown s hs).enums)
  · rw [List.map_map]
    exact merged_sortByName (List.forall_mem_map.mpr fun s hs ↦ (hown s hs).services)
  · show packageNotes _ = _
    rw [packageNotes_eq, List.filter_map, List.map_map]
    rfl

theorem map_name_packages (files : List FileDoc) :
    (assemble files).packages.map (·.name) = packageNames files := by
  show ((((packageNames files).map (gather files)).map _).map _) = _
  rw [List.map_map, List.map_map]
  exact List.map_id _

/-- The listings lose nothing and repeat nothing.  The files come as they were given; each lists all
its declarations, sorted by their names inside the package, but for the internal messages.  The
packages are those of the files, each once, in ascending order; each merges the listings of its
files, keeping the order of every one, and has the notes of its files in their order. -/
theorem listings_agree [DescriptorPool] {registry : Option Registry} {files : List FileDecl}
    {c : Catalog} (h : build registry files = .ok c) :
    (∀ f ∈ files, f.Walked) ∧
    (∃ docs settled, List.Forall₂ (fun f d ↦ f.document registry = .ok d) files docs ∧
      Settlement docs settled ∧ List.Forall₂ (FileDecl.Lists registry) files settled ∧
      c.files = settled.map fun s ↦ { s with messages := s.messages.filter (!·.internal) }) ∧
    (c.packages.map (·.name)).Pairwise (· < ·) ∧
    (∀ name, name ∈ c.packages.map (·.name) ↔ ∃ f ∈ files, f.package = name) ∧
    ∀ p ∈ c.packages, p.Gathers (c.files.filter (·.package == p.name)) := by
  obtain ⟨docs, hdocs, -, hsettled, rfl⟩ := exists_settlement h
  have hlists : List.Forall₂ (FileDecl.Lists registry) files (settle docs) := by
    refine forall₂_trans (fun f d s hd hs ↦ ?_) hdocs hsettled.files
    exact FileDecl.lists_of_document hd hs.1 hs.2
  refine ⟨fun f _ ↦ f.walked, ⟨docs, settle docs, hdocs, hsettled, hlists, rfl⟩, ?_, ?_, ?_⟩
  · rw [map_name_packages]
    exact pairwise_packageNames _
  · intro name
    rw [map_name_packages, mem_packageNames]
    exact exists_mem_iff_of_forall₂ hlists fun f s hs ↦ by rw [hs.package]
  · intro p hp
    obtain ⟨q, hq, rfl⟩ := List.mem_map.mp hp
    obtain ⟨name, -, rfl⟩ := List.mem_map.mp hq
    refine gathers_gather (fun s hs ↦ ?_) name
    obtain ⟨f, -, hfs⟩ := exists_of_mem_right hlists hs
    exact hfs.fullOrder

/-! ## One package in two files -/

/-- A file that says what its package is, with two messages that are not in order. -/
def orderFile : FileDecl :=
  { plainFile "order.proto" "shop" [plainMessage "Order" [] [], plainMessage "Item" [] []] with
    locations := [⟨[12], [], " A shop.\n", ""⟩] }

def cartFile : FileDecl := plainFile "cart.proto" "shop" [plainMessage "Cart" [] []]

attribute [local instance] Annotations.pool

/-- There is one package.  It merges what the two files list, and has the note of the first. -/
theorem listings_agree_shop : ∃ c order cart p, build none [orderFile, cartFile] = .ok c ∧
    c.files = [order, cart] ∧ c.packages = [p] ∧ p.name = "shop" ∧
    Merged (·.names.full) [order.messages, cart.messages] p.messages ∧
    p.notes = [⟨"order.proto", "A shop."⟩] := by
  obtain ⟨c, hc, hshown, hpackages⟩ : ∃ c, build none [orderFile, cartFile] = .ok c ∧
      c.files.map (fun f ↦ (f.name, f.package, f.description)) =
        [("order.proto", "shop", "A shop."), ("cart.proto", "shop", "")] ∧
      c.packages.map (·.name) = ["shop"] := exists_ok (by decide +kernel)
  obtain ⟨-, -, -, -, hgathers⟩ := listings_agree hc
  obtain ⟨order, others, hfiles, horder, hothers⟩ := List.map_eq_cons_iff.mp hshown
  obtain ⟨cart, last, rfl, hcart, hlast⟩ := List.map_eq_cons_iff.mp hothers
  obtain ⟨p, more, hp, hname, hmore⟩ := List.map_eq_cons_iff.mp hpackages
  obtain rfl := List.map_eq_nil_iff.mp hlast
  obtain rfl := List.map_eq_nil_iff.mp hmore
  obtain ⟨honame, hopackage, hotext⟩ : order.name = "order.proto" ∧ order.package = "shop" ∧
      order.description = "A shop." := by simpa only [Prod.mk.injEq] using horder
  obtain ⟨hcpackage, hctext⟩ : cart.package = "shop" ∧ cart.description = "" := by
    simpa only [Prod.mk.injEq] using (Prod.mk.inj hcart).2
  have hown : c.files.filter (·.package == p.name) = [order, cart] := by
    simp [hfiles, hname, hopackage, hcpackage]
  have hp' : p.Gathers [order, cart] := hown ▸ hgathers p (hp ▸ List.mem_singleton.mpr rfl)
  have hnoted : [order, cart].filter (fun f ↦ !f.description.toList.all Text.isBlank) =
      [order] := by
    rw [List.filter_cons_of_pos (by rw [hotext]; decide),
      List.filter_cons_of_neg (by rw [hctext]; decide), List.filter_nil]
  have htrim : Text.trim "A shop." = "A shop." := by decide
  refine ⟨c, order, cart, p, hc, hfiles, hp, hname, hp'.messages, ?_⟩
  rw [hp'.notes, hnoted, List.map_singleton, honame, hotext, htrim]

end Catalog
end ProtoCatalog
