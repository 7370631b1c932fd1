import Mathlib.Algebra.Ring.Nat
import ProtoCatalog.Proofs.Joining
import ProtoCatalog.Proofs.References
import ProtoCatalog.Schema.Annotations

/-!
# Full names tell declarations apart

In one package, where siblings have different names without dots, no two messages or enumerations
share a full name, however deep they are: the last segment of a long name tells the place among the
siblings, and what is in front of it is the long name of the message around them.  So none of them
takes the entry of another in the tables of a catalog.
-/

namespace ProtoCatalog

/-! ## Names in scopes -/

theorem inScope_injective (scope : String) : Function.Injective (inScope scope) := by
  intro a b h
  by_cases hs : scope = ""
  · rwa [hs, inScope_empty, inScope_empty] at h
  · rw [← String.toList_inj, toList_inScope a hs, toList_inScope b hs] at h
    exact String.toList_inj.mp (List.cons.inj (List.append_cancel_left h)).2

-- Only a name inside a scope has a dot.
theorem ne_inScope {scope name short : String} (hs : scope ≠ "") (hshort : IsSegment short) :
    short ≠ inScope scope name := by
  intro h
  apply hshort.no_dot
  rw [h, toList_inScope name hs]
  exact List.mem_append_right _ List.mem_cons_self

/-- A name without dots and its scope are read off the two together. -/
theorem inScope_inj {scope other a b : String} (hs : scope ≠ "") (ho : other ≠ "")
    (ha : IsSegment a) (hb : IsSegment b) (h : inScope scope a = inScope other b) :
    scope = other ∧ a = b := by
  have hname : a = b := by
    rw [← @lastSegment_inScope scope a ha.no_dot, h, lastSegment_inScope hb.no_dot]
  subst hname
  rw [← String.toList_inj, toList_inScope a hs, toList_inScope a ho] at h
  exact ⟨String.toList_inj.mp (List.append_cancel_right h), rfl⟩

/-! ## Places among siblings -/

-- Where all members of all groups differ, a member tells its group and its place in it.
theorem eq_of_nodup_flatMap {α β : Type} {u : α → List β} {xs : List α} (h : (xs.flatMap u).Nodup)
    {i j k l : Nat} {x y : α} {b : β} (hx : xs[i]? = some x) (hy : xs[j]? = some y)
    (hk : (u x)[k]? = some b) (hl : (u y)[l]? = some b) : i = j ∧ k = l := by
  obtain ⟨heach, hpair⟩ := List.nodup_flatMap.mp h
  rw [List.pairwise_iff_getElem] at hpair
  obtain ⟨hi, rfl⟩ := List.getElem?_eq_some_iff.mp hx
  obtain ⟨hj, rfl⟩ := List.getElem?_eq_some_iff.mp hy
  rcases Nat.lt_trichotomy i j with hlt | rfl | hgt
  · exact absurd (List.mem_of_getElem? hl) (hpair i j hi hj hlt (List.mem_of_getElem? hk))
  · obtain ⟨hlen, -⟩ := List.getElem?_eq_some_iff.mp hk
    exact ⟨rfl, (List.getElem?_inj hlen (heach _ (List.getElem_mem hi))).mp (hk.trans hl.symm)⟩
  · exact absurd (List.mem_of_getElem? hk) (hpair j i hj hi hgt (List.mem_of_getElem? hl))

section Siblings

variable (message : Nat → MessageSite) (enumeration : Nat → EnumSite)
  (messages : List MessageDecl) (enums : List EnumDecl)

/-- The names of sibling messages and enumerations. -/
def siblingNames : List String := messages.map (·.name) ++ enums.map (·.name)

/-- The site that the name at a place among siblings is of. -/
def siblingSite (place : Nat) : Site :=
  if place < messages.length then .message (message place)
  else .enumeration (enumeration (place - messages.length))

variable {messages enums}

theorem place_message {i : Nat} {d : MessageDecl} (h : messages[i]? = some d) :
    (siblingNames messages enums)[i]? = some d.name ∧
      siblingSite message enumeration messages i = .message (message i) := by
  have hi : i < messages.length := (List.getElem?_eq_some_iff.mp h).1
  refine ⟨?_, if_pos hi⟩
  rw [siblingNames, List.getElem?_append_left (by simpa using hi), List.getElem?_map, h]
  rfl

theorem place_enum {j : Nat} {d : EnumDecl} (h : enums[j]? = some d) :
    (siblingNames messages enums)[messages.length + j]? = some d.name ∧
      siblingSite message enumeration messages (messages.length + j) =
        .enumeration (enumeration j) := by
  constructor
  · rw [siblingNames, List.getElem?_append_right (by simp), List.getElem?_map]
    simp [h]
  · rw [siblingSite, if_neg (by omega), Nat.add_sub_cancel_left]

end Siblings

/-- The names of the messages and enumerations directly in a message. -/
def MessageDecl.innerNames (m : MessageDecl) : List String := siblingNames m.nested m.enums

namespace FileDecl

/-- The names of the messages and enumerations directly in a file. -/
def outerNames (f : FileDecl) : List String := siblingNames f.messages f.enums

variable {f : FileDecl}

/-- A message or an enumeration stands at a place among its siblings, which gives it its names. -/
inductive Stands (f : FileDecl) : Site → Naming → Prop
  | outer {place : Nat} {short : String} (h : f.outerNames[place]? = some short) :
    Stands f (siblingSite .top .top f.messages place) (.declared f.package short short)
  | inner {s : MessageSite} {m : Placed MessageDecl} {place : Nat} {short : String}
    (hm : f.messageAt? s = some m) (h : m.decl.innerNames[place]? = some short) :
    Stands f (siblingSite (.nested s) (.nested s) m.decl.nested place)
      (.declared f.package short (inScope m.longName short))

theorem stands_of_namesAt? {site : Site} {names : Naming} (h : f.namesAt? site = some names) :
    f.Stands site names := by
  cases site with
  | message s =>
    obtain ⟨m, hs, rfl⟩ := Option.map_eq_some_iff.mp h
    cases s with
    | top i =>
      obtain ⟨d, hd, rfl⟩ := Option.map_eq_some_iff.mp hs
      obtain ⟨hplace, hsite⟩ := place_message .top .top hd
      exact hsite ▸ Stands.outer hplace
    | nested outer j =>
      obtain ⟨m, hm, hs⟩ := Option.bind_eq_some_iff.mp hs
      obtain ⟨d, hd, rfl⟩ := Option.map_eq_some_iff.mp hs
      obtain ⟨hplace, hsite⟩ := place_message (.nested outer) (.nested outer) hd
      exact hsite ▸ Stands.inner hm hplace
  | enumeration s =>
    obtain ⟨e, hs, rfl⟩ := Option.map_eq_some_iff.mp h
    cases s with
    | top i =>
      obtain ⟨d, hd, rfl⟩ := Option.map_eq_some_iff.mp hs
      obtain ⟨hplace, hsite⟩ := place_enum .top .top hd
      exact hsite ▸ Stands.outer hplace
    | nested outer j =>
      obtain ⟨m, hm, hs⟩ := Option.bind_eq_some_iff.mp hs
      obtain ⟨d, hd, rfl⟩ := Option.map_eq_some_iff.mp hs
      obtain ⟨hplace, hsite⟩ := place_enum (.nested outer) (.nested outer) hd
      exact hsite ▸ Stands.inner hm hplace
  | _ => cases h

theorem namesAt?_message {s : MessageSite} {m : Placed MessageDecl} (h : f.messageAt? s = some m) :
    f.namesAt? (.message s) = some (.declared f.package m.decl.name m.longName) := by
  rw [namesAt?, h]
  rfl

theorem namesAt?_enum {s : EnumSite} {e : Placed EnumDecl} (h : f.enumAt? s = some e) :
    f.namesAt? (.enumeration s) = some (.declared f.package e.decl.name e.longName) := by
  rw [namesAt?, h]
  rfl

theorem full_of_namesAt? {site : Site} {names : Naming} (h : f.namesAt? site = some names) :
    names.full = inScope f.package names.long := by
  cases stands_of_namesAt? h <;> rfl

theorem isSegment_of_namesAt? (hm : f.SegmentNames) (he : f.SegmentEnums) {site : Site}
    {names : Naming} (h : f.namesAt? site = some names) : IsSegment names.short := by
  cases site with
  | message s =>
    obtain ⟨m, hs, rfl⟩ := Option.map_eq_some_iff.mp h
    exact hm s m hs
  | enumeration s =>
    obtain ⟨e, hs, rfl⟩ := Option.map_eq_some_iff.mp h
    exact he s e hs
  | _ => cases h

end FileDecl

/-! ## One package -/

/-- The files of one package, where siblings have different names, and all names are segments. -/
structure SiblingsDiffer (files : List FileDecl) : Prop where
  package : ∀ f ∈ files, ∀ g ∈ files, f.package = g.package
  outer : (files.flatMap FileDecl.outerNames).Nodup
  inner : ∀ f ∈ files, ∀ m ∈ f.allMessages, m.decl.innerNames.Nodup
  messages : ∀ f ∈ files, f.SegmentNames
  enums : ∀ f ∈ files, f.SegmentEnums

namespace SiblingsDiffer

variable {files : List FileDecl} {i j : Nat} {f g : FileDecl} {site other : Site}
  {names names' : Naming}

/-- A long name tells the file and the site of its declaration. -/
theorem eq_of_long (h : SiblingsDiffer files) (hf : files[i]? = some f) (hg : files[j]? = some g)
    (hsite : f.namesAt? site = some names) (hother : g.namesAt? other = some names')
    (hlong : names.long = names'.long) : i = j ∧ site = other := by
  have hfin := List.mem_of_getElem? hf
  have hgin := List.mem_of_getElem? hg
  -- Over the length of the long name: that of the message around is shorter.
  induction hn : names.long.toList.length using Nat.strong_induction_on
    generalizing site other names names' with
  | _ n ih =>
    have hshort := FileDecl.isSegment_of_namesAt? (h.messages f hfin) (h.enums f hfin) hsite
    have hshort' := FileDecl.isSegment_of_namesAt? (h.messages g hgin) (h.enums g hgin) hother
    have hne : ∀ {f s m}, f ∈ files → f.messageAt? s = some m → m.longName ≠ "" :=
      fun hf hm ↦ (FileDecl.longName_start (h.messages _ hf) hm).1
    cases FileDecl.stands_of_namesAt? hsite with
    | @outer place short hplace =>
      cases FileDecl.stands_of_namesAt? hother with
      | @outer place' short' hplace' =>
        obtain rfl : short = short' := hlong
        obtain ⟨rfl, rfl⟩ := eq_of_nodup_flatMap h.outer hf hg hplace hplace'
        obtain rfl : f = g := Option.some.inj (hf.symm.trans hg)
        exact ⟨rfl, rfl⟩
      | inner hm' hplace' => exact absurd hlong (ne_inScope (hne hgin hm') hshort)
    | @inner s m place short hm hplace =>
      cases FileDecl.stands_of_namesAt? hother with
      | outer hplace' => exact absurd hlong.symm (ne_inScope (hne hfin hm) hshort')
      | @inner s' m' place' short' hm' hplace' =>
        obtain ⟨hscope, rfl⟩ := inScope_inj (hne hfin hm) (hne hgin hm') hshort hshort' hlong
        have hshorter : m.longName.toList.length < n := by
          rw [← hn]
          show _ < (inScope m.longName short).toList.length
          rw [toList_inScope short (hne hfin hm), List.length_append, List.length_cons]
          omega
        obtain ⟨rfl, hs⟩ := ih _ hshorter (FileDecl.namesAt?_message hm)
          (FileDecl.namesAt?_message hm') hscope rfl
        cases hs
        -- In one message the places are the same too.
        obtain rfl : f = g := Option.some.inj (hf.symm.trans hg)
        obtain rfl : m = m' := Option.some.inj (hm.symm.trans hm')
        have hdistinct := h.inner f hfin m (FileDecl.mem_allMessages.mpr ⟨s, hm⟩)
        obtain ⟨hlen, -⟩ := List.getElem?_eq_some_iff.mp hplace
        obtain rfl := (List.getElem?_inj hlen hdistinct).mp (hplace.trans hplace'.symm)
        exact ⟨rfl, rfl⟩

/-- And so does a full name. -/
theorem eq_of_full (h : SiblingsDiffer files) (hf : files[i]? = some f) (hg : files[j]? = some g)
    (hsite : f.namesAt? site = some names) (hother : g.namesAt? other = some names')
    (hfull : names.full = names'.full) : i = j ∧ site = other := by
  have hpackage := h.package f (List.mem_of_getElem? hf) g (List.mem_of_getElem? hg)
  apply h.eq_of_long hf hg hsite hother
  apply inScope_injective f.package
  rw [← FileDecl.full_of_namesAt? hsite, hfull, FileDecl.full_of_namesAt? hother, hpackage]

end SiblingsDiffer

/-! ## All full names -/

namespace FileDecl

variable {f : FileDecl}

/-- The addresses and the full names of the messages and enumerations of a file. -/
def types (f : FileDecl) : List (Address × String) :=
  f.allMessages.map (fun m ↦ (m.address, f.fullName m)) ++
    f.allEnums.map fun e ↦ (e.address, inScope f.package e.longName)

theorem exists_site_of_mem_types {t : Address × String} (h : t ∈ f.types) :
    ∃ site names, f.namesAt? site = some names ∧ t = (site.address, names.full) := by
  rcases List.mem_append.mp h with h | h
  · obtain ⟨m, hm, rfl⟩ := List.mem_map.mp h
    obtain ⟨s, hs⟩ := mem_allMessages.mp hm
    exact ⟨_, _, namesAt?_message hs, by rw [messageAt?_address hs]; rfl⟩
  · obtain ⟨e, he, rfl⟩ := List.mem_map.mp h
    obtain ⟨s, hs⟩ := mem_allEnums.mp he
    exact ⟨_, _, namesAt?_enum hs, by rw [enumAt?_address hs]; rfl⟩

theorem nodup_address_types (f : FileDecl) : (f.types.map (·.1)).Nodup := by
  rw [types, List.map_append, List.map_map, List.map_map, List.nodup_append]
  refine ⟨f.nodup_address_allMessages, f.nodup_address_allEnums, ?_⟩
  intro a ha b hb hab
  obtain ⟨m, hm, rfl⟩ := List.mem_map.mp ha
  obtain ⟨e, he, rfl⟩ := List.mem_map.mp hb
  obtain ⟨s, hs⟩ := mem_allMessages.mp hm
  obtain ⟨t, ht⟩ := mem_allEnums.mp he
  have hsite : (Site.message s).address = (Site.enumeration t).address := by
    rw [Site.address, ← messageAt?_address hs, Site.address, ← enumAt?_address ht]
    exact hab
  cases Site.address_inj.mp hsite

theorem typeNames_perm (files : List FileDecl) :
    (typeNames files).Perm (files.flatMap fun f ↦ f.types.map (·.2)) := by
  have htypes : ∀ f : FileDecl, f.types.map (·.2) =
      f.allMessages.map f.fullName ++ f.allEnums.map fun e ↦ inScope f.package e.longName := by
    intro f
    rw [types, List.map_append, List.map_map, List.map_map]
    rfl
  simp only [htypes]
  exact List.flatMap_append_perm _ _ _

end FileDecl

theorem SiblingsDiffer.nodup_typeNames {files : List FileDecl} (h : SiblingsDiffer files) :
    (FileDecl.typeNames files).Nodup := by
  rw [(FileDecl.typeNames_perm files).nodup_iff, List.nodup_flatMap]
  constructor
  · intro f hf
    obtain ⟨i, hi⟩ := List.mem_iff_getElem?.mp hf
    apply List.pairwise_map.mpr
    apply (List.pairwise_map.mp f.nodup_address_types).imp_of_mem
    intro a b ha hb haddress hname
    obtain ⟨site, names, hsite, rfl⟩ := FileDecl.exists_site_of_mem_types ha
    obtain ⟨other, names', hother, rfl⟩ := FileDecl.exists_site_of_mem_types hb
    obtain ⟨-, rfl⟩ := h.eq_of_full hi hi hsite hother hname
    exact haddress rfl
  · rw [List.pairwise_iff_getElem]
    intro i j hi hj hij name hfirst hsecond
    obtain ⟨a, ha, rfl⟩ := List.mem_map.mp hfirst
    obtain ⟨b, hb, hname⟩ := List.mem_map.mp hsecond
    obtain ⟨site, names, hsite, rfl⟩ := FileDecl.exists_site_of_mem_types ha
    obtain ⟨other, names', hother, rfl⟩ := FileDecl.exists_site_of_mem_types hb
    obtain ⟨rfl, -⟩ := h.eq_of_full (List.getElem?_eq_getElem hi) (List.getElem?_eq_getElem hj)
      hsite hother hname.symm
    exact Nat.lt_irrefl _ hij

/-! ## The tables of a catalog -/

/-- Each message and each enumeration of some files has an entry of its own in the tables of a
catalog, and there are no other entries. -/
structure Catalog.OwnEntries [DescriptorPool] (registry : Option Registry) (files : List FileDecl)
    (c : Catalog) : Prop where
  links : c.links.keys.Perm (FileDecl.typeNames files)
  linkCount : c.links.entries.length =
    (files.map fun f ↦ f.allMessages.length + f.allEnums.length).sum
  link : ∀ f ∈ files, ∀ site names, f.namesAt? site = some names →
    c.links.find? names.full = some (.declared f.package names.full)
  messages : c.messages.keys.Perm (FileDecl.messageNames files)
  messageCount : c.messages.entries.length = (files.map (·.allMessages.length)).sum
  message : ∀ f ∈ files, ∀ s m, f.messageAt? s = some m →
    ∃ x, c.messages.find? (f.fullName m) = some x ∧ ComesFrom registry f m x

theorem FileDecl.declaresName_of_namesAt? {f : FileDecl} {site : Site} {names : Naming}
    (h : f.namesAt? site = some names) : f.DeclaresName names.full := by
  cases site with
  | message s =>
    obtain ⟨m, hs, rfl⟩ := Option.map_eq_some_iff.mp h
    exact .inl ⟨s, m, hs, rfl⟩
  | enumeration s =>
    obtain ⟨e, hs, rfl⟩ := Option.map_eq_some_iff.mp h
    exact .inr ⟨s, e, hs, rfl⟩
  | _ => cases h

theorem Catalog.exists_sameNames [DescriptorPool] {registry : Option Registry}
    {files : List FileDecl} {c : Catalog} (h : build registry files = .ok c) : ∃ settled,
      List.Forall₂ SameNames files settled ∧ c = assemble settled := by
  obtain ⟨docs, hdocs, -, hsettlement, hc⟩ := exists_settlement h
  exact ⟨settle docs, forall₂_sameNames hdocs hsettlement, hc⟩

theorem SiblingsDiffer.ownEntries [DescriptorPool] {registry : Option Registry}
    {files : List FileDecl} {c : Catalog} (h : SiblingsDiffer files)
    (hc : Catalog.build registry files = .ok c) : c.OwnEntries registry files := by
  have hnames := h.nodup_typeNames
  have hmessages : (FileDecl.messageNames files).Nodup := (List.nodup_append.mp hnames).1
  obtain ⟨settled, hsame, hbuilt⟩ := Catalog.exists_sameNames hc
  have hlinkKeys : ∀ name, name ∈ c.links.keys ↔ ∃ f ∈ files, f.DeclaresName name := by
    intro name
    rw [hbuilt, Catalog.mem_keys_links]
    exact exists_mem_iff_of_forall₂ hsame fun f s hs ↦ hs.all name
  have hmessageKeys : ∀ name, name ∈ c.messages.keys ↔ ∃ f ∈ files, f.DeclaresMessage name := by
    intro name
    rw [hbuilt]
    show name ∈ (Catalog.messageTable settled).keys ↔ _
    rw [Catalog.mem_keys_messageTable]
    exact exists_mem_iff_of_forall₂ hsame fun f s hs ↦ hs.messages name
  have hlinkPerm : c.links.keys.Perm (FileDecl.typeNames files) :=
    (List.perm_ext_iff_of_nodup c.links.nodup_keys hnames).mpr fun name ↦
      (hlinkKeys name).trans FileDecl.mem_typeNames.symm
  have hmessagePerm : c.messages.keys.Perm (FileDecl.messageNames files) :=
    (List.perm_ext_iff_of_nodup c.messages.nodup_keys hmessages).mpr fun name ↦
      (hmessageKeys name).trans FileDecl.mem_messageNames.symm
  constructor
  case links => exact hlinkPerm
  case linkCount =>
    have hlength := hlinkPerm.length_eq
    rw [(FileDecl.typeNames_perm files).length_eq, List.length_flatMap] at hlength
    simpa [Table.keys, FileDecl.types] using hlength
  case link =>
    intro f hf site names hsite
    have hdeclares := FileDecl.declaresName_of_namesAt? hsite
    obtain ⟨l, hl⟩ := Table.mem_keys_iff.mp ((hlinkKeys names.full).mpr ⟨f, hf, hdeclares⟩)
    -- Whatever file the link is of, it is of the one package.
    have htarget := hl
    rw [hbuilt, Catalog.find?_links_iff] at htarget
    obtain ⟨s, hs, -, rfl, -⟩ := htarget
    obtain ⟨g, hg, hgs⟩ := exists_of_mem_right hsame hs
    rw [hl, hgs.package, h.package g hg f hf]
  case messages => exact hmessagePerm
  case messageCount =>
    have hlength := hmessagePerm.length_eq
    rw [FileDecl.messageNames, List.length_flatMap] at hlength
    simpa [Table.keys] using hlength
  case message =>
    intro f hf s m hm
    obtain ⟨docs, hsettled⟩ := Catalog.exists_settled hc hmessages
    obtain ⟨x, hheld, hfrom⟩ := hsettled.exists_comesFrom hf hm
    exact ⟨x, hheld.1, hfrom⟩

/-- Full names tell declarations apart.  In files of one package whose siblings have different names
without dots, the file and the site of a message or an enumeration are told by its full name, all
full names differ, and in a catalog of the files each has its own link, and each message its own
place in the table. -/
theorem full_names_distinct [DescriptorPool] {files : List FileDecl} (h : SiblingsDiffer files) :
    (∀ (i j : Nat) f g site other names names', files[i]? = some f → files[j]? = some g →
      f.namesAt? site = some names → g.namesAt? other = some names' → names.full = names'.full →
      i = j ∧ site = other) ∧
    (FileDecl.typeNames files).Nodup ∧
    ∀ registry c, Catalog.build registry files = .ok c → c.OwnEntries registry files :=
  ⟨fun _ _ _ _ _ _ _ _ hf hg hsite hother hfull ↦ h.eq_of_full hf hg hsite hother hfull,
    h.nodup_typeNames, fun _ _ hc ↦ h.ownEntries hc⟩

/-! ## States of orders and items -/

open Catalog (plainMessage plainFile plainEnum)

/-- Two files in which one name is used at several places. -/
def stateFiles : List FileDecl :=
  let item := { plainMessage "Item" [] [] with enums := [plainEnum "State"] }
  [plainFile "order.proto" "shop"
      [{ plainMessage "Order" [] [item] with enums := [plainEnum "State"] }],
    { plainFile "item.proto" "shop" [item] with enums := [plainEnum "State"] }]

attribute [local instance] Annotations.pool

/-- Each place has its own full name and its own link. -/
theorem full_names_distinct_state : ∃ c, Catalog.build none stateFiles = .ok c ∧
    c.OwnEntries none stateFiles ∧ c.links.entries.length = 7 ∧
    FileDecl.typeNames stateFiles = ["shop.Order", "shop.Order.Item", "shop.Item",
      "shop.Order.State", "shop.Order.Item.State", "shop.State", "shop.Item.State"] := by
  obtain ⟨c, hc, -⟩ : ∃ c, Catalog.build none stateFiles = .ok c ∧ True :=
    exists_ok (by decide +kernel)
  have hdiffer : SiblingsDiffer stateFiles :=
    ⟨by decide +kernel, by decide +kernel, by decide +kernel, by decide +kernel,
      by decide +kernel⟩
  have hown := (full_names_distinct hdiffer).2.2 none c hc
  exact ⟨c, hc, hown, hown.linkCount.trans (by decide +kernel), by decide +kernel⟩

end ProtoCatalog
