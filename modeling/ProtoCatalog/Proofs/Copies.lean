import ProtoCatalog.Loading.DescriptorSet
import ProtoCatalog.Proofs.Links
import ProtoCatalog.Schema.Annotations

/-!
# Copies of a file

A file may be given more than once.  Its copies are documented alike, but of the messages of one
full name only the last is marked, so an entry of a map is hidden in the last copy alone: a copy
with another behind it lists all its messages, and the two agree just if nothing is hidden in the
other.
-/

namespace ProtoCatalog

/-- A message as listings show it. -/
def MessageDoc.unmarked (m : MessageDoc) : MessageDoc := { m with internal := false }

namespace Catalog

/-! ## Listings of marked messages -/

theorem fullNames_map_unmarked (ms : List MessageDoc) :
    fullNames (ms.map MessageDoc.unmarked) = fullNames ms := by
  rw [fullNames, List.map_map]
  rfl

-- What is left of the first message and of the rest.
theorem listed_markInternal_cons (entries later : List String) (m : MessageDoc)
    (rest : List MessageDoc) :
    listed (markInternal entries later (m :: rest)) =
      if m.names.full ∈ entries ∧ m.names.full ∉ fullNames rest ∧ m.names.full ∉ later then
        listed (markInternal entries later rest)
      else m.unmarked :: listed (markInternal entries later rest) := by
  have hmark : (entries.contains m.names.full && !(fullNames rest).contains m.names.full &&
      !later.contains m.names.full) = true ↔
      m.names.full ∈ entries ∧ m.names.full ∉ fullNames rest ∧ m.names.full ∉ later := by
    simp [and_assoc]
  rw [markInternal, listed, List.filter_cons]
  by_cases h : m.names.full ∈ entries ∧ m.names.full ∉ fullNames rest ∧ m.names.full ∉ later
  · rw [if_pos h, if_neg]
    · rfl
    · simp only [hmark.mpr h, Bool.not_true, Bool.false_eq_true, not_false_eq_true]
  · have hno := eq_false_of_ne_true (mt hmark.mp h)
    simp only [hno, Bool.not_false, if_true, if_neg h]
    rfl

theorem listed_markInternal_sublist (entries later : List String) (ms : List MessageDoc) :
    (listed (markInternal entries later ms)).Sublist (ms.map MessageDoc.unmarked) := by
  induction ms with
  | nil => exact List.Sublist.slnil
  | cons m rest ih =>
    rw [listed_markInternal_cons, List.map_cons]
    split
    · exact ih.cons _
    · exact ih.cons_cons _

/-- A message is left out just if it is the last of its name and an entry, and then it alone. -/
theorem count_listed_markInternal (entries later : List String) (ms : List MessageDoc)
    (name : String) :
    (fullNames ms).count name = (fullNames (listed (markInternal entries later ms))).count name +
      if name ∈ fullNames ms ∧ name ∈ entries ∧ name ∉ later then 1 else 0 := by
  induction ms with
  | nil => simp [fullNames, markInternal, listed]
  | cons m rest ih =>
    have hcons : ∀ x xs, (fullNames (x :: xs)).count name =
        (fullNames xs).count name + if x.names.full = name then 1 else 0 := by
      intro x xs
      rw [fullNames, List.map_cons, List.count_cons]
      simp only [beq_iff_eq]
      rfl
    have hmem : name ∈ fullNames (m :: rest) ↔ m.names.full = name ∨ name ∈ fullNames rest := by
      rw [fullNames, List.map_cons, List.mem_cons, eq_comm]
      rfl
    rw [listed_markInternal_cons, hcons, ih]
    simp only [hmem]
    by_cases hlast : m.names.full ∈ entries ∧ m.names.full ∉ fullNames rest ∧ m.names.full ∉ later
    · rw [if_pos hlast]
      obtain ⟨hentry, hrest, hlater⟩ := hlast
      by_cases hn : m.names.full = name
      · subst hn
        simp [hentry, hrest, hlater]
      · simp [hn]
    · rw [if_neg hlast, hcons]
      by_cases hn : m.names.full = name
      · -- If the name is an entry that is not told again, there is one more message of it.
        subst hn
        by_cases hrest : m.names.full ∈ fullNames rest
        · simp [hrest, MessageDoc.unmarked]
          omega
        · have hno : ¬ (m.names.full ∈ entries ∧ m.names.full ∉ later) := fun h ↦
            hlast ⟨h.1, hrest, h.2⟩
          simp [hrest, hno, MessageDoc.unmarked]
      · simp [hn, MessageDoc.unmarked]

/-- Where no entry lacks a later message of its name, all messages are listed. -/
theorem listed_markInternal_eq_map {entries later : List String} {ms : List MessageDoc}
    (h : ∀ m ∈ ms, m.names.full ∈ entries → m.names.full ∈ later) :
    listed (markInternal entries later ms) = ms.map MessageDoc.unmarked := by
  induction ms with
  | nil => rfl
  | cons m rest ih =>
    obtain ⟨hm, hrest⟩ := List.forall_mem_cons.mp h
    rw [listed_markInternal_cons, if_neg, ih hrest, List.map_cons]
    rintro ⟨hentry, -, hlater⟩
    exact hlater (hm hentry)

/-! ## Copies in a catalog -/

/-- What settling makes of the file at a position: what is marked hangs on the files behind it. -/
theorem getElem?_settleFiles (table : Table MessageDoc) (entries : List String)
    (files : List FileDoc) (k : Nat) :
    (settleFiles table entries files)[k]? = files[k]?.map fun f ↦
      { f with
        messages := markInternal entries (allNames (files.drop (k + 1)))
          (f.messages.map (resolveMessage table)) } := by
  induction files generalizing k with
  | nil => rfl
  | cons f rest ih =>
    cases k with
    | zero => rfl
    | succ k => exact ih k

theorem getElem?_files_settle (files : List FileDoc) (k : Nat) :
    (assemble (settle files)).files[k]? = files[k]?.map fun f ↦
      { f with
        messages := listed (markInternal (mapTypes files) (allNames (files.drop (k + 1)))
          (f.messages.map (resolveMessage (messageTable files)))) } := by
  show ((settle files).map _)[k]? = _
  rw [List.getElem?_map, settle, getElem?_settleFiles, Option.map_map]
  rfl

/-- At its position a file hides a name: it declares a message of it, some map field has it as its
type, and no file behind declares it again. -/
structure HidesAt (files : List FileDecl) (k : Nat) (f : FileDecl) (name : String) : Prop where
  declared : f.DeclaresMessage name
  entry : ∃ g ∈ files, ∃ s m, g.messageAt? s = some m ∧ ∃ d ∈ m.decl.fields,
    looksLikeMap (d.shownLabel g.isProto3) (d.typeNames g.package) = true ∧
      (d.typeNames g.package).full = name
  last : ∀ g ∈ files.drop (k + 1), ¬ g.DeclaresMessage name

section

variable [DescriptorPool] {registry : Option Registry} {files : List FileDecl} {docs : List FileDoc}

theorem mem_allNames (h : List.Forall₂ (fun f d ↦ f.document registry = .ok d) files docs)
    {name : String} : name ∈ allNames docs ↔ ∃ f ∈ files, f.DeclaresMessage name := by
  have hnames : name ∈ allNames docs ↔ ∃ d ∈ docs, HasMessage d name := by
    simp only [allNames, List.mem_flatMap, hasMessage_iff]
  rw [hnames]
  exact exists_mem_iff_of_forall₂ h fun f d hd ↦ FileDecl.exists_message_named_iff hd

theorem hidesAt_iff (h : List.Forall₂ (fun f d ↦ f.document registry = .ok d) files docs) {k : Nat}
    {f : FileDecl} {d : FileDoc} (hd : f.document registry = .ok d) {name : String} :
    HidesAt files k f name ↔ name ∈ fullNames d.messages ∧ name ∈ mapTypes docs ∧
      name ∉ allNames (docs.drop (k + 1)) := by
  have hlater : name ∉ allNames (docs.drop (k + 1)) ↔
      ∀ g ∈ files.drop (k + 1), ¬ g.DeclaresMessage name := by
    rw [mem_allNames (List.forall₂_drop (k + 1) h)]
    simp only [not_exists, not_and]
  rw [← hasMessage_iff, HasMessage, FileDecl.exists_message_named_iff hd, mem_mapTypes h, hlater]
  exact ⟨fun h ↦ ⟨h.declared, h.entry, h.last⟩, fun h ↦ ⟨h.1, h.2.1, h.2.2⟩⟩

end

/-- What the listings of two copies have: the first all messages, the other all but the last of each
name that it hides. -/
theorem exists_copies [DescriptorPool] {registry : Option Registry} {files : List FileDecl}
    {c : Catalog} (h : build registry files = .ok c) {f : FileDecl} {i j : Nat} (hij : i < j)
    (hi : files[i]? = some f) (hj : files[j]? = some f) :
    ∃ x y, c.files[i]? = some x ∧ c.files[j]? = some y ∧
      y = { x with messages := y.messages } ∧ y.messages.Sublist x.messages ∧
      (fullNames x.messages).Perm (f.allMessages.map f.fullName) ∧
      (∀ name, HidesAt files j f name →
        (fullNames x.messages).count name = (fullNames y.messages).count name + 1) ∧
      ∀ name, ¬ HidesAt files j f name →
        (fullNames x.messages).count name = (fullNames y.messages).count name := by
  obtain ⟨docs, hdocs, rfl⟩ := build_eq_ok.mp h
  obtain ⟨d, hdi, hd⟩ := forall₂_getElem? hdocs hi
  obtain ⟨d', hdj, hd'⟩ := forall₂_getElem? hdocs hj
  obtain rfl : d = d' := Except.ok.inj (hd.symm.trans hd')
  let ms := d.messages.map (resolveMessage (messageTable docs))
  have hms : fullNames ms = fullNames d.messages := fullNames_map_resolve _ _
  have hat : ∀ {k}, docs[k]? = some d → (assemble (settle docs)).files[k]? =
      some { d with
        messages := listed (markInternal (mapTypes docs) (allNames (docs.drop (k + 1))) ms) } := by
    intro k hk
    rw [getElem?_files_settle, hk]
    rfl
  -- Behind the first copy there is the other, with the names of all its messages.
  have hfirst : listed (markInternal (mapTypes docs) (allNames (docs.drop (i + 1))) ms) =
      ms.map MessageDoc.unmarked := by
    apply listed_markInternal_eq_map
    intro m hm _
    have hname : m.names.full ∈ fullNames d.messages := hms ▸ List.mem_map_of_mem hm
    have hbehind : d ∈ docs.drop (i + 1) := by
      apply List.mem_of_getElem? (i := j - (i + 1))
      rw [List.getElem?_drop, Nat.add_sub_cancel' hij, hdj]
    exact List.mem_flatMap.mpr ⟨d, hbehind, hname⟩
  have hcount := count_listed_markInternal (mapTypes docs) (allNames (docs.drop (j + 1))) ms
  have hhides : ∀ name, HidesAt files j f name ↔ name ∈ fullNames ms ∧ name ∈ mapTypes docs ∧
      name ∉ allNames (docs.drop (j + 1)) := by
    intro name
    rw [hms]
    exact hidesAt_iff hdocs hd
  refine ⟨_, _, hat hdi, hat hdj, rfl, ?_⟩
  simp only [hfirst, fullNames_map_unmarked, hms]
  refine ⟨listed_markInternal_sublist _ _ _, FileDecl.map_full_document_perm hd, ?_, ?_⟩
  · intro name hname
    rw [← hms, hcount name, if_pos ((hhides name).mp hname)]
  · intro name hname
    rw [← hms, hcount name, if_neg (mt (hhides name).mpr hname), Nat.add_zero]

/-- Copies of a file differ in nothing but the messages they list.  A copy with another behind it
lists all messages, and the other lists them without the last of each name that it hides; so the two
are equal just if the other hides none. -/
theorem copies_agree_iff [DescriptorPool] {registry : Option Registry} {files : List FileDecl}
    {c : Catalog} (h : build registry files = .ok c) {f : FileDecl} {i j : Nat} (hij : i < j)
    (hi : files[i]? = some f) (hj : files[j]? = some f) :
    ∃ x y, c.files[i]? = some x ∧ c.files[j]? = some y ∧
      (x = y ↔ ∀ name, ¬ HidesAt files j f name) ∧
      y = { x with messages := y.messages } ∧ y.messages.Sublist x.messages ∧
      (fullNames x.messages).Perm (f.allMessages.map f.fullName) ∧
      (∀ name, HidesAt files j f name →
        (fullNames x.messages).count name = (fullNames y.messages).count name + 1) ∧
      ∀ name, ¬ HidesAt files j f name →
        (fullNames x.messages).count name = (fullNames y.messages).count name := by
  obtain ⟨x, y, hx, hy, hkept, hsub, hall, hless, hsame⟩ := exists_copies h hij hi hj
  refine ⟨x, y, hx, hy, ⟨?_, ?_⟩, hkept, hsub, hall, hless, hsame⟩
  · rintro rfl name hname
    exact absurd (hless name hname) (Nat.ne_of_lt (Nat.lt_succ_self _))
  · intro hnone
    -- With as many messages of every name on both listings, none is missing from the second.
    have hperm : (fullNames x.messages).Perm (fullNames y.messages) :=
      List.perm_iff_count.mpr fun name ↦ hsame name (hnone name)
    have hlength : y.messages.length = x.messages.length := by
      have hlengths := hperm.length_eq
      rw [fullNames, fullNames, List.length_map, List.length_map] at hlengths
      exact hlengths.symm
    rw [hkept, hsub.eq_of_length hlength]

/-! ## A file with a map field, twice and three times -/

attribute [local instance] Annotations.pool

/-- Of three copies the first two agree: the third declares again what they would hide. -/
theorem copies_agree_labels :
    ∃ c, build none [labelsFile "shop", labelsFile "shop", labelsFile "shop"] = .ok c ∧
      ∃ x, c.files[0]? = some x ∧ c.files[1]? = some x ∧
        "shop.Item.LabelsEntry" ∈ fullNames x.messages := by
  obtain ⟨c, hc, -⟩ : ∃ c, build none [labelsFile "shop", labelsFile "shop", labelsFile "shop"] =
      .ok c ∧ True := exists_ok (by decide +kernel)
  obtain ⟨x, y, hx, hy, hiff, -, -, hall, -, -⟩ := copies_agree_iff hc Nat.zero_lt_one rfl rfl
  have hentry : "shop.Item.LabelsEntry" ∈
      (labelsFile "shop").allMessages.map (labelsFile "shop").fullName := by decide +kernel
  refine ⟨c, hc, x, hx, ?_, hall.mem_iff.mpr hentry⟩
  rw [hy, hiff.mpr]
  intro name hname
  exact hname.last _ (List.mem_singleton.mpr rfl) hname.declared

/-- Asked for twice under one name, a file has its entry on the listing of the first copy, and not
on that of the second. -/
theorem copies_differ_labels :
    DescriptorSet.select [labelsFile "shop"] ["item.proto", "item.proto"] =
      .ok [labelsFile "shop", labelsFile "shop"] ∧
    ∃ c x y, build none [labelsFile "shop", labelsFile "shop"] = .ok c ∧
      c.files[0]? = some x ∧ c.files[1]? = some y ∧ x ≠ y ∧
      "shop.Item.LabelsEntry" ∈ fullNames x.messages ∧
      "shop.Item.LabelsEntry" ∉ fullNames y.messages := by
  obtain ⟨c, hc, -⟩ : ∃ c, build none [labelsFile "shop", labelsFile "shop"] = .ok c ∧ True :=
    exists_ok (by decide +kernel)
  have hhides : HidesAt [labelsFile "shop", labelsFile "shop"] 1 (labelsFile "shop")
      "shop.Item.LabelsEntry" := by
    refine ⟨⟨.nested (.top 0) 0, _, rfl, by decide⟩, ⟨_, List.mem_cons_self, .top 0, _, rfl,
      labelsField "shop", List.mem_cons_self, by decide, by decide⟩, nofun⟩
  have honce : ((labelsFile "shop").allMessages.map (labelsFile "shop").fullName).count
      "shop.Item.LabelsEntry" = 1 := by decide +kernel
  obtain ⟨x, y, hx, hy, -, -, hall, hless, -⟩ := exists_copies hc Nat.zero_lt_one rfl rfl
  have hcount := hless _ hhides
  rw [hall.count_eq, honce] at hcount
  have hin : "shop.Item.LabelsEntry" ∈ fullNames x.messages := by
    rw [← List.count_pos_iff, hall.count_eq, honce]
    exact Nat.zero_lt_one
  have hout : "shop.Item.LabelsEntry" ∉ fullNames y.messages := by
    rw [← List.count_eq_zero]
    omega
  refine ⟨rfl, c, x, y, hc, hx, hy, ?_, hin, hout⟩
  rintro rfl
  exact hout hin

end Catalog
end ProtoCatalog
