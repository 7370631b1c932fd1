import Mathlib.Data.List.Sort
import Mathlib.Data.String.Basic
import ProtoCatalog.Catalog.Build
import ProtoCatalog.Proofs.Documenting
import ProtoCatalog.Proofs.Naming

/-!
# Declarations in the order of their names

Names are ordered by code points, and a common scope in front of them changes nothing.  Sorting by
a name keeps the order of what has one name, and so it keeps every list that is in order already.
Where all names differ the order that a list came in does not matter.
-/

namespace ProtoCatalog

/-! ## The order of names -/

theorem nameOrder_iff {a b : String} : nameOrder a b = true ↔ a ≤ b := decide_eq_true_iff

theorem nameOrder_trans (a b c : String) (hab : nameOrder a b = true) (hbc : nameOrder b c = true) :
    nameOrder a c = true :=
  nameOrder_iff.mpr (le_trans (nameOrder_iff.mp hab) (nameOrder_iff.mp hbc))

theorem nameOrder_total (a b : String) : (nameOrder a b || nameOrder b a) = true := by
  rw [Bool.or_eq_true, nameOrder_iff, nameOrder_iff]
  exact le_total a b

theorem inScope_lt {scope a b : String} (h : a < b) : inScope scope a < inScope scope b := by
  by_cases hs : scope = ""
  · rwa [hs, inScope_empty, inScope_empty]
  · rw [String.lt_iff_toList_lt, toList_inScope a hs, toList_inScope b hs]
    have hdot : ['.'] ++ a.toList < ['.'] ++ b.toList :=
      List.append_left_lt (String.lt_iff_toList_lt.mp h)
    exact List.append_left_lt hdot

/-- Names in one scope are in the order that they have without it. -/
theorem inScope_le {scope a b : String} (h : a ≤ b) : inScope scope a ≤ inScope scope b := by
  rcases h.lt_or_eq with hlt | rfl
  · exact (inScope_lt hlt).le
  · exact le_refl _

/-! ## Sorting by a name -/

section Sorting

variable {α : Type} {name : α → String} {docs own : List α}

theorem pairwise_sortByName (name : α → String) (docs : List α) :
    (sortByName name docs).Pairwise fun a b ↦ name a ≤ name b :=
  (List.pairwise_mergeSort (fun a b c ↦ nameOrder_trans (name a) (name b) (name c))
    (fun a b ↦ nameOrder_total (name a) (name b)) docs).imp nameOrder_iff.mp

/-- Names that are sorted, each once, ascend. -/
theorem pairwise_sortByName_eraseDups (names : List String) :
    (sortByName id names.eraseDups).Pairwise (· < ·) := by
  have hle : (sortByName id names.eraseDups).Pairwise (· ≤ ·) := pairwise_sortByName id _
  have hdistinct := (sortByName_perm id names.eraseDups).symm.nodup (Keys.nodup_eraseDups names)
  exact hle.imp₂ (fun _ _ ↦ lt_of_le_of_ne) hdistinct

/-- What is in order already keeps its order among all that is sorted. -/
theorem sublist_sortByName (h : own.Pairwise fun a b ↦ name a ≤ name b) (hs : own.Sublist docs) :
    own.Sublist (sortByName name docs) :=
  List.sublist_mergeSort (fun a b c ↦ nameOrder_trans (name a) (name b) (name c))
    (fun a b ↦ nameOrder_total (name a) (name b)) (h.imp nameOrder_iff.mpr) hs

/-- What has one name stays in order. -/
theorem filter_sortByName (name : α → String) (docs : List α) (n : String) :
    (sortByName name docs).filter (name · == n) = docs.filter (name · == n) := by
  have hone : (docs.filter (name · == n)).Pairwise fun a b ↦ name a ≤ name b := by
    apply List.pairwise_of_forall_mem_list
    intro a ha b hb
    rw [beq_iff_eq.mp (List.mem_filter.mp ha).2, beq_iff_eq.mp (List.mem_filter.mp hb).2]
  have hsub := (sublist_sortByName hone List.filter_sublist).filter (name · == n)
  simp only [List.filter_filter, Bool.and_self] at hsub
  -- Both hold as many members of the name, so the smaller is all of the larger.
  exact (hsub.eq_of_length ((sortByName_perm name docs).filter (name · == n)).length_eq.symm).symm

theorem mem_iff_of_filter_eq {xs ys : List α}
    (h : ∀ n, xs.filter (name · == n) = ys.filter (name · == n)) (a : α) : a ∈ xs ↔ a ∈ ys := by
  have ha : a ∈ xs.filter (name · == name a) ↔ a ∈ ys.filter (name · == name a) := by rw [h]
  simpa using ha

/-- Lists in order are equal if the members of each name are the same, in the same order. -/
theorem eq_of_filter_eq {xs ys : List α} (hx : xs.Pairwise fun a b ↦ name a ≤ name b)
    (hy : ys.Pairwise fun a b ↦ name a ≤ name b)
    (h : ∀ n, xs.filter (name · == n) = ys.filter (name · == n)) : xs = ys := by
  have hmem := mem_iff_of_filter_eq h
  cases xs with
  | nil => exact (List.eq_nil_iff_forall_not_mem.mpr fun a ha ↦ nomatch (hmem a).mpr ha).symm
  | cons a rest =>
    cases ys with
    | nil => exact absurd ((hmem a).mp List.mem_cons_self) List.not_mem_nil
    | cons b others =>
      obtain ⟨ha, hrest⟩ := List.pairwise_cons.mp hx
      obtain ⟨hb, hothers⟩ := List.pairwise_cons.mp hy
      -- Both first names are the least, so the lists begin with the same member of that name.
      have hba : name b ≤ name a := by
        rcases List.mem_cons.mp ((hmem a).mp List.mem_cons_self) with he | hin
        · rw [he]
        · exact hb a hin
      have hab : name a ≤ name b := by
        rcases List.mem_cons.mp ((hmem b).mpr List.mem_cons_self) with he | hin
        · rw [he]
        · exact ha b hin
      have hfirst := h (name a)
      rw [List.filter_cons, List.filter_cons, if_pos (beq_iff_eq.mpr rfl),
        if_pos (beq_iff_eq.mpr (le_antisymm hba hab))] at hfirst
      obtain ⟨rfl, -⟩ := List.cons.inj hfirst
      rw [eq_of_filter_eq hrest hothers]
      intro n
      have hn := h n
      rw [List.filter_cons, List.filter_cons] at hn
      split at hn
      · exact (List.cons.inj hn).2
      · exact hn

/-- Where all names differ, the order before the sorting does not matter. -/
theorem sortByName_eq_of_perm {docs' : List α} (hd : (docs.map name).Nodup)
    (h : docs.Perm docs') : sortByName name docs = sortByName name docs' := by
  have hp : (sortByName name docs).Perm (sortByName name docs') :=
    ((sortByName_perm name docs).trans h).trans (sortByName_perm name docs').symm
  apply List.Perm.eq_of_pairwise _ (pairwise_sortByName name docs)
    (pairwise_sortByName name docs') hp
  intro a b ha hb hab hba
  have ha' : a ∈ docs := (sortByName_perm name docs).mem_iff.mp ha
  have hb' : b ∈ docs := h.mem_iff.mpr ((sortByName_perm name docs').mem_iff.mp hb)
  exact List.inj_on_of_nodup_map hd ha' hb' (le_antisymm hab hba)

end Sorting

namespace Catalog

/-! ## The names of packages -/

theorem packageNames_eq (files : List FileDoc) :
    packageNames files = sortByName id (files.map (·.package)).eraseDups := rfl

/-- The names of packages ascend, and none comes twice. -/
theorem pairwise_packageNames (files : List FileDoc) : (packageNames files).Pairwise (· < ·) :=
  pairwise_sortByName_eraseDups _

-- The order of the files does not matter for the names of their packages.
theorem packageNames_perm {files files' : List FileDoc} (h : files.Perm files') :
    packageNames files = packageNames files' := by
  have hmem : ∀ name, name ∈ (files.map (·.package)).eraseDups ↔
      name ∈ (files'.map (·.package)).eraseDups := by
    intro name
    rw [List.mem_eraseDups, List.mem_eraseDups, (h.map (·.package)).mem_iff]
  rw [packageNames_eq, packageNames_eq]
  apply sortByName_eq_of_perm
  · rw [List.map_id]
    exact Keys.nodup_eraseDups _
  · exact (List.perm_ext_iff_of_nodup (Keys.nodup_eraseDups _) (Keys.nodup_eraseDups _)).mpr hmem

end Catalog
end ProtoCatalog
