import Mathlib.Data.List.TakeWhile
import ProtoCatalog.Naming

/-!
# Dotted names

A name in a scope is read back from its end: its last segment is the name, and a text without
dots ends it just if it ends the name.  The name relative to a package keeps a dot just if the
declaration is in another package, or inside another declaration.
-/

namespace ProtoCatalog

/-- A segment of dotted names: not empty, and without dots. -/
structure IsSegment (name : String) : Prop where
  ne_empty : name ≠ ""
  no_dot : '.' ∉ name.toList

instance (name : String) : Decidable (IsSegment name) :=
  decidable_of_iff (name ≠ "" ∧ '.' ∉ name.toList) ⟨fun h ↦ ⟨h.1, h.2⟩, fun h ↦ ⟨h.1, h.2⟩⟩

/-! ## Names in scopes -/

theorem inScope_empty (name : String) : inScope "" name = name := if_pos rfl

theorem toList_inScope {scope : String} (name : String) (h : scope ≠ "") :
    (inScope scope name).toList = scope.toList ++ '.' :: name.toList := by
  rw [inScope, if_neg h, String.toList_append, String.toList_append, List.append_assoc]
  rfl

theorem inScope_ne_empty {scope name : String} (h : name ≠ "") : inScope scope name ≠ "" := by
  by_cases hs : scope = ""
  · rwa [hs, inScope_empty]
  · -- With a scope there is at least the dot.
    intro he
    have hl := toList_inScope name hs
    rw [he] at hl
    simp at hl

-- Scopes may be put together in any order.
theorem inScope_inScope {outer inner : String} (name : String) (h : inner ≠ "") :
    inScope outer (inScope inner name) = inScope (inScope outer inner) name := by
  by_cases ho : outer = ""
  · rw [ho, inScope_empty, inScope_empty]
  · have hi : inScope outer inner ≠ "" := inScope_ne_empty h
    apply String.toList_inj.mp
    rw [toList_inScope _ ho, toList_inScope _ h, toList_inScope _ hi, toList_inScope _ ho]
    simp only [List.append_assoc, List.cons_append]

-- A name in a scope starts as its scope does.
theorem head?_inScope {scope : String} (name : String) (h : scope ≠ "") :
    (inScope scope name).toList.head? = scope.toList.head? := by
  rw [toList_inScope name h, List.head?_append]
  cases hs : scope.toList with
  | nil => exact absurd (String.toList_eq_nil_iff.mp hs) h
  | cons c rest => rfl

theorem IsSegment.head?_ne_dot {name : String} (h : IsSegment name) :
    name.toList.head? ≠ some '.' := fun he ↦ h.no_dot (List.mem_of_mem_head? he)

/-! ## Last segments and ends -/

theorem lastSegment_inScope {scope name : String} (h : '.' ∉ name.toList) :
    lastSegment (inScope scope name) = name := by
  have hname : ∀ c ∈ name.toList.reverse, decide (c ≠ '.') = true := fun c hc ↦
    decide_eq_true fun he ↦ h (List.mem_reverse.mp (he ▸ hc))
  unfold lastSegment
  by_cases hs : scope = ""
  · rw [hs, inScope_empty, List.takeWhile_eq_self_iff.mpr hname]
    simp
  · rw [toList_inScope name hs, List.reverse_append, List.reverse_cons, List.append_assoc,
      List.takeWhile_append_of_pos hname]
    simp

theorem hasEnd_iff {ending text : String} :
    hasEnd ending text = true ↔ ending.toList <:+ text.toList := List.isSuffixOf_iff_suffix

-- Text ends in what it is put together with something in front of.
theorem hasEnd_iff_append {ending text : String} :
    hasEnd ending text = true ↔ ∃ front : String, text = front ++ ending := by
  rw [hasEnd_iff]
  constructor
  · rintro ⟨front, hfront⟩
    refine ⟨String.ofList front, ?_⟩
    rw [← String.toList_inj, String.toList_append, String.toList_ofList, hfront]
  · rintro ⟨front, rfl⟩
    rw [String.toList_append]
    exact List.suffix_append _ _

-- An end without dots does not reach over a dot.
theorem suffix_cons_dot_iff {ending front name : List Char} (h : '.' ∉ ending) :
    ending <:+ front ++ '.' :: name ↔ ending <:+ name := by
  constructor
  · intro he
    -- One of the two ends is an end of the other; one that has the dot is ruled out.
    rcases List.suffix_or_suffix_of_suffix he (List.suffix_append front ('.' :: name)) with hs | hs
    · rcases List.suffix_cons_iff.mp hs with heq | hs
      · exact absurd (heq ▸ List.mem_cons_self) h
      · exact hs
    · exact absurd (hs.subset List.mem_cons_self) h
  · intro he
    exact he.trans ((List.suffix_cons '.' name).trans (List.suffix_append front _))

theorem hasEnd_inScope {ending scope name : String} (h : '.' ∉ ending.toList) :
    hasEnd ending (inScope scope name) = hasEnd ending name := by
  rw [Bool.eq_iff_iff, hasEnd_iff, hasEnd_iff]
  by_cases hs : scope = ""
  · rw [hs, inScope_empty]
  · rw [toList_inScope name hs, suffix_cons_dot_iff h]

/-! ## References and relative names -/

theorem dropLead_append (lead text : String) : dropLead lead (lead ++ text) = text := by
  rw [dropLead, String.toList_append, if_pos (List.isPrefixOf_iff_prefix.mpr ⟨_, rfl⟩),
    List.drop_left, String.ofList_toList]

theorem dropLead_eq_self {lead text : String} (h : ¬ lead.toList <+: text.toList) :
    dropLead lead text = text := by
  rw [dropLead, if_neg (mt List.isPrefixOf_iff_prefix.mp h)]

-- A reference with a dot in front refers to what follows the dot.
theorem full_ofReference_dot (full package : String) :
    (Naming.ofReference ("." ++ full) package).full = full := dropLead_append "." full

-- The full name of a type gives the other two.
theorem ofReference_eq {reference package full : String}
    (h : (Naming.ofReference reference package).full = full) :
    Naming.ofReference reference package =
      ⟨lastSegment full, dropLead (package ++ ".") full, full⟩ := by
  subst h
  rfl

/-- Relative to its own package a declaration has its long name. -/
theorem dropLead_own {package long : String} (h : long.toList.head? ≠ some '.') :
    dropLead (package ++ ".") (inScope package long) = long := by
  by_cases hp : package = ""
  · rw [hp, inScope_empty]
    apply dropLead_eq_self
    intro ⟨rest, he⟩
    exact h (by rw [← he]; rfl)
  · rw [inScope, if_neg hp, dropLead_append]

-- What follows a dot in a text that ends in a dot ends in one too.
theorem eq_or_concat_dot {a b rest : List Char} (h : a ++ ['.'] = b ++ ['.'] ++ rest) :
    a = b ∨ ∃ front, rest = front ++ ['.'] := by
  rcases List.eq_nil_or_concat rest with rfl | ⟨front, c, rfl⟩
  · rw [List.append_nil] at h
    exact .inl (List.append_cancel_right h)
  · rw [List.concat_eq_append, ← List.append_assoc] at h
    have hc : ['.'] = [c] := (List.append_inj' h rfl).2
    exact .inr ⟨front, by rw [List.concat_eq_append, hc]⟩

/-- Relative to a package that is not its scope, a name keeps the dot in front of it. -/
theorem dropLead_foreign {package scope name : String} (hname : '.' ∉ name.toList)
    (hscope : scope ≠ "") (hne : package ≠ scope) :
    ∃ front, (dropLead (package ++ ".") (inScope scope name)).toList =
      front ++ '.' :: name.toList := by
  have hlead : (package ++ ".").toList = package.toList ++ ['.'] := String.toList_append
  have hfull : (inScope scope name).toList = scope.toList ++ ['.'] ++ name.toList := by
    rw [toList_inScope name hscope, List.append_assoc]
    rfl
  have hchars : package.toList ≠ scope.toList := fun he ↦ hne (String.toList_inj.mp he)
  by_cases hp : (package ++ ".").toList <+: (inScope scope name).toList
  · obtain ⟨rest, he⟩ := hp
    have hdrop : (dropLead (package ++ ".") (inScope scope name)).toList = rest := by
      rw [dropLead, ← he, if_pos (List.isPrefixOf_iff_prefix.mpr ⟨rest, rfl⟩), List.drop_left,
        String.toList_ofList]
    rw [hlead, hfull] at he
    rw [hdrop]
    -- The dot after the package is not one of the name, so it is at most that of the scope.
    rcases List.append_eq_append_iff.mp he with ⟨mid, hs, hr⟩ | ⟨mid, hs, hr⟩
    · rcases eq_or_concat_dot hs with heq | ⟨front, rfl⟩
      · exact absurd heq.symm hchars
      · exact ⟨front, by rw [hr, List.append_assoc]; rfl⟩
    · rcases eq_or_concat_dot hs with heq | ⟨front, rfl⟩
      · exact absurd heq hchars
      · exact absurd (by rw [hr]; simp) hname
  · exact ⟨scope.toList, by rw [dropLead_eq_self hp, toList_inScope name hscope]⟩

end ProtoCatalog
