import ProtoCatalog.Loading.DescriptorSet
import ProtoCatalog.Proofs.Acceptance
import ProtoCatalog.Proofs.MapEntries

/-!
# Picking files by their names

A name picks the first file of a set that it fits, and it fits also files whose names end in it
behind a slash.  So a file in some folder is picked in the place of the one that a name is the name
of, where it stands in front of it.
-/

namespace ProtoCatalog

namespace DescriptorSet

variable {set : List FileDecl} {names : List String} {name : String} {f : FileDecl}

/-! ## One name -/

/-- A file's name is a given one in some folder. -/
def InFolder (name : String) (f : FileDecl) : Prop :=
  ∃ folder : String, f.name = folder ++ ("/" ++ name)

/-- A file is the first of a set that a name fits. -/
structure Picked (set : List FileDecl) (name : String) (f : FileDecl) : Prop where
  fits : f.name = name ∨ InFolder name f
  first : ∃ front back, set = front ++ f :: back ∧
    ∀ g ∈ front, g.name ≠ name ∧ ¬InFolder name g

/-- No file that has a name in a folder stands in front of the one that has the name itself. -/
def Leads (set : List FileDecl) (name : String) : Prop :=
  set.Pairwise fun g f ↦ f.name = name → ¬InFolder name g

instance (name : String) (f : FileDecl) : Decidable (InFolder name f) :=
  decidable_of_iff _ hasEnd_iff_append

instance (set : List FileDecl) (name : String) : Decidable (Leads set name) := by
  unfold Leads
  infer_instance

theorem isNamed_iff : isNamed name f = true ↔ f.name = name ∨ InFolder name f := by
  rw [isNamed, Bool.or_eq_true, beq_iff_eq, hasEnd_iff_append, InFolder]

theorem pick_eq_ok : pick set name = .ok f ↔ Picked set name f := by
  have hfind : pick set name = .ok f ↔ set.find? (isNamed name) = some f := by
    unfold pick
    cases set.find? (isNamed name) <;> simp
  rw [hfind, List.find?_eq_some_iff_append, isNamed_iff]
  simp only [Bool.not_eq_true', ← Bool.not_eq_true, isNamed_iff, not_or]
  constructor
  · rintro ⟨hfits, front, back, hset, hfront⟩
    exact ⟨hfits, front, back, hset, hfront⟩
  · rintro ⟨hfits, front, back, hset, hfront⟩
    exact ⟨hfits, front, back, hset, hfront⟩

/-- A name picks a file just if it fits one. -/
theorem exists_pick_iff :
    (∃ f, pick set name = .ok f) ↔ ∃ f ∈ set, f.name = name ∨ InFolder name f := by
  simp only [← isNamed_iff, ← List.find?_isSome, pick]
  cases set.find? (isNamed name) <;> simp

theorem Picked.mem (h : Picked set name f) : f ∈ set := by
  obtain ⟨front, back, rfl, -⟩ := h.first
  exact List.mem_append_right _ List.mem_cons_self

/-- A name that is a file's picks it just if no file with the name in a folder stands in front. -/
theorem Picked.name_eq_iff (h : Picked set name f) (hd : (set.map (·.name)).Nodup)
    (hin : ∃ g ∈ set, g.name = name) : f.name = name ↔ Leads set name := by
  obtain ⟨front, back, rfl, hfront⟩ := h.first
  constructor
  · rintro rfl
    have hback : ∀ g ∈ back, g.name ≠ f.name := by
      rw [List.map_append, List.map_cons] at hd
      have hnot := (List.nodup_cons.mp hd.of_append_right).1
      exact fun g hg he ↦ hnot (he ▸ List.mem_map_of_mem hg)
    -- The file with the name is the one that is picked, and what is in front of it fits not.
    rw [Leads, List.pairwise_append, List.pairwise_cons]
    refine ⟨?_, ⟨?_, ?_⟩, ?_⟩
    · exact List.pairwise_of_forall_mem_list fun g _ k hk he ↦ absurd he (hfront k hk).1
    · exact fun g hg he ↦ absurd he (hback g hg)
    · exact List.pairwise_of_forall_mem_list fun g _ k hk he ↦ absurd he (hback k hk)
    · exact fun g hg _ _ _ ↦ (hfront g hg).2
  · intro hleads
    by_contra hne
    have hfolder : InFolder name f := h.fits.resolve_left hne
    obtain ⟨g, hg, hname⟩ := hin
    rcases List.mem_append.mp hg with hg | hg
    · exact (hfront g hg).1 hname
    · rcases List.mem_cons.mp hg with rfl | hg
      · exact hne hname
      · have hpair := (List.pairwise_append.mp hleads).2.1
        exact (List.pairwise_cons.mp hpair).1 g hg hname hfolder

/-! ## All names -/

theorem select_eq_ok {picked : List FileDecl} :
    select set names = .ok picked ↔ List.Forall₂ (Picked set) names picked := by
  rw [select, mapM_eq_ok]
  simp only [pick_eq_ok]

/-- Files are picked just if each name fits one. -/
theorem exists_select_iff : (∃ picked, select set names = .ok picked) ↔
    ∀ name ∈ names, ∃ f ∈ set, f.name = name ∨ InFolder name f := by
  simp only [select, exists_mapM_eq_ok, exists_pick_iff]

/-- A file of a set that a name is the name of. -/
def Exact (set : List FileDecl) (name : String) (f : FileDecl) : Prop := f ∈ set ∧ f.name = name

theorem exact_rightUnique (hd : (set.map (·.name)).Nodup) : Relator.RightUnique (Exact set) :=
  fun _ _ _ hf hg ↦ List.inj_on_of_nodup_map hd hf.1 hg.1 (hf.2.trans hg.2.symm)

/-- A request to a code generator has just the files that its names are the names of. -/
theorem forall₂_exact_chosen {r : GenerationRequest}
    (h : ∀ name ∈ r.toGenerate, ∃ f, Exact r.files name f) :
    List.Forall₂ (Exact r.files) r.toGenerate r.chosen := by
  have hall : ∀ names : List String, (∀ name ∈ names, ∃ f, Exact r.files name f) →
      List.Forall₂ (Exact r.files) names
        (names.filterMap fun name ↦ r.files.reverse.find? (·.name == name)) := by
    intro names hnames
    induction names with
    | nil => exact .nil
    | cons name rest ih =>
      obtain ⟨hname, hrest⟩ := List.forall_mem_cons.mp hnames
      obtain ⟨f, hf, rfl⟩ := hname
      obtain ⟨g, hg, hfind, hgname⟩ :=
        Keys.exists_find?_of_mem FileDecl.name (List.mem_reverse.mpr hf)
      rw [List.filterMap_cons, hfind]
      exact .cons ⟨List.mem_reverse.mp hg, hgname⟩ (ih hrest)
  exact hall r.toGenerate h

theorem forall₂_exact_iff {picked : List FileDecl}
    (h : List.Forall₂ (fun name f ↦ Picked set name f ∧ (f.name = name ↔ Leads set name))
      names picked) :
    List.Forall₂ (Exact set) names picked ↔ ∀ name ∈ names, Leads set name := by
  induction h with
  | nil => simp
  | cons hf _ ih =>
    rw [List.forall₂_cons, List.forall_mem_cons, ih, Exact]
    exact and_congr_left' ((and_iff_right hf.1.mem).trans hf.2)

/-- What names of files pick.  In a set of files with different names each name of a file picks the
first file that it fits, so files are picked in the order of the names.  The file that has the name
itself is picked just if no file with the name in a folder stands in front of it; so all names pick
their own files, the same as in a request to a code generator, just if none is taken by such a
file. -/
theorem exact_names_picked_iff (hd : (set.map (·.name)).Nodup)
    (hn : ∀ name ∈ names, ∃ f ∈ set, f.name = name) :
    ∃ picked, select set names = .ok picked ∧
      List.Forall₂ (fun name f ↦ Picked set name f ∧ (f.name = name ↔ Leads set name))
        names picked ∧
      (List.Forall₂ (Exact set) names picked ↔ ∀ name ∈ names, Leads set name) ∧
      (picked = GenerationRequest.chosen ⟨set, names⟩ ↔ ∀ name ∈ names, Leads set name) := by
  have hfits : ∀ name ∈ names, ∃ f ∈ set, f.name = name ∨ InFolder name f := by
    intro name hname
    obtain ⟨f, hf, hfname⟩ := hn name hname
    exact ⟨f, hf, .inl hfname⟩
  obtain ⟨picked, hpicked⟩ := exists_select_iff.mpr hfits
  have hnamed : List.Forall₂ (fun name f ↦ Picked set name f ∧ (f.name = name ↔ Leads set name))
      names picked := by
    apply ((List.forall₂_and_left _ _).mpr ⟨hn, select_eq_ok.mp hpicked⟩).imp
    rintro name f ⟨hin, hf⟩
    exact ⟨hf, hf.name_eq_iff hd hin⟩
  have hexact := forall₂_exact_iff hnamed
  refine ⟨picked, hpicked, hnamed, hexact, ?_⟩
  rw [← hexact]
  have hchosen := forall₂_exact_chosen (r := ⟨set, names⟩) hn
  constructor
  · rintro rfl
    exact hchosen
  · intro h
    exact List.right_unique_forall₂' (exact_rightUnique hd) h hchosen

/-! ## A file with a name in a folder -/

def itemFile : FileDecl := Catalog.plainFile "item.proto" "shop" []

def vendorFile : FileDecl := Catalog.plainFile "vendor/item.proto" "vendor" []

/-- Where the file stands in front of the one in a folder, both names pick their own files. -/
theorem exact_names_picked_item : ∃ picked,
    select [itemFile, vendorFile] ["vendor/item.proto", "item.proto"] = .ok picked ∧
      List.Forall₂ (Exact [itemFile, vendorFile]) ["vendor/item.proto", "item.proto"] picked := by
  obtain ⟨picked, hpicked, -, hexact, -⟩ :=
    @exact_names_picked_iff [itemFile, vendorFile] ["vendor/item.proto", "item.proto"]
      (by decide) (by decide)
  exact ⟨picked, hpicked, hexact.mpr (by decide)⟩

/-- Where it stands behind, its name picks the one in the folder. -/
theorem exact_name_not_picked_item :
    ([vendorFile, itemFile].map (·.name)).Nodup ∧ itemFile.name = "item.proto" ∧
      select [vendorFile, itemFile] ["item.proto"] = .ok [vendorFile] ∧
      ¬List.Forall₂ (Exact [vendorFile, itemFile]) ["item.proto"] [vendorFile] := by
  refine ⟨by decide, rfl, by rfl, ?_⟩
  rintro (_ | ⟨h, -⟩)
  exact absurd h.2 (by decide)

end DescriptorSet
end ProtoCatalog
