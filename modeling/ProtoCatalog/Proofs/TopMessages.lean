import ProtoCatalog.Proofs.MapEntries
import ProtoCatalog.Schema.Annotations

/-!
# Messages of files that are taken for entries

Only a message inside another should be taken for a map's entry.  A field tells by the name relative
to the package of its own file, though, and that keeps a dot for whatever another package declares.
So a message that stands directly in its file is taken for an entry just if a repeated field of
another package refers to it and its name ends as that of an entry.
-/

namespace ProtoCatalog

/-! ## Fields that refer to a message of a file -/

/-- A reference to what stands directly in a package looks like that to an entry just if it comes
from another package. -/
theorem looksLikeMap_top_iff {label : Option Label} {package scope name : String}
    (hname : IsSegment name) :
    looksLikeMap label ⟨lastSegment (inScope scope name),
      dropLead (package ++ ".") (inScope scope name), inScope scope name⟩ = true ↔
      label = some .repeated ∧ hasEnd entrySuffix name = true ∧ scope ≠ "" ∧ package ≠ scope := by
  have hshort : lastSegment (inScope scope name) = name := lastSegment_inScope hname.no_dot
  have hfull : hasEnd entrySuffix (inScope scope name) = hasEnd entrySuffix name :=
    hasEnd_inScope dot_not_mem_entrySuffix
  rw [looksLikeMap_iff]
  simp only [hshort, hfull]
  by_cases hs : scope = ""
  · -- Without a package the full name has no dot that could be left.
    subst hs
    have hlong : dropLead (package ++ ".") (inScope "" name) = name := by
      rw [inScope_empty]
      apply dropLead_eq_self
      intro hp
      apply hname.no_dot
      apply hp.subset
      rw [String.toList_append]
      exact List.mem_append_right _ (List.mem_singleton.mpr rfl)
    rw [hlong]
    constructor
    · rintro ⟨-, hdot, -⟩
      exact absurd hdot hname.no_dot
    · rintro ⟨-, -, hne, -⟩
      exact absurd rfl hne
  · by_cases hp : package = scope
    · -- Seen from its own package it has just its name.
      subst hp
      rw [dropLead_own hname.head?_ne_dot]
      constructor
      · rintro ⟨-, hdot, -⟩
        exact absurd hdot hname.no_dot
      · rintro ⟨-, -, -, hne⟩
        exact absurd rfl hne
    · -- Seen from another one it keeps the dot in front of its name.
      obtain ⟨front, hlong⟩ := dropLead_foreign hname.no_dot hs hp
      have hdot : '.' ∈ (dropLead (package ++ ".") (inScope scope name)).toList := by
        rw [hlong]
        simp
      have hend : hasEnd entrySuffix (dropLead (package ++ ".") (inScope scope name)) =
          hasEnd entrySuffix name := by
        rw [Bool.eq_iff_iff, hasEnd_iff, hasEnd_iff, hlong,
          suffix_cons_dot_iff dot_not_mem_entrySuffix]
      rw [hend]
      constructor
      · rintro ⟨hl, -, he, -, -⟩
        exact ⟨hl, he, hs, hp⟩
      · rintro ⟨hl, he, -, -⟩
        exact ⟨hl, hdot, he, he, he⟩

theorem FieldType.dot_not_mem_text (t : FieldType) : '.' ∉ t.text.toList := by
  cases t with
  | scalar s => cases s <;> decide
  | _ => decide

-- The full name of a field's type gives the other two, but for a scalar type.
theorem FieldDecl.typeNames_eq {d : FieldDecl} {package full : String}
    (h : (d.typeNames package).full = full) :
    d.typeNames package = ⟨lastSegment full, dropLead (package ++ ".") full, full⟩ ∨
      '.' ∉ full.toList ∧ d.typeNames package = ⟨full, full, full⟩ := by
  by_cases hn : d.typeName = ""
  · rw [typeNames, if_pos hn] at h ⊢
    subst h
    exact .inr ⟨d.type.dot_not_mem_text, rfl⟩
  · rw [typeNames, if_neg hn] at h ⊢
    exact .inl (ofReference_eq h)

namespace Catalog

/-! ## What is taken for an entry -/

/-- A message standing directly in its file is taken for an entry: its name ends as that of one, and
a repeated field of a file of another package refers to it. -/
def Misread (files : List FileDecl) (f : FileDecl) (t : Placed MessageDecl) : Prop :=
  hasEnd entrySuffix t.decl.name = true ∧ f.package ≠ "" ∧
    ∃ g ∈ files, g.package ≠ f.package ∧ ∃ s m, g.messageAt? s = some m ∧
      ∃ d ∈ m.decl.fields, d.label = .repeated ∧ (d.typeNames g.package).full = f.fullName t

theorem looksLikeMap_typeNames_iff {label : Option Label} {d : FieldDecl} {f : FileDecl}
    {package : String} {t : Placed MessageDecl} {k : Nat} (ht : f.messageAt? (.top k) = some t)
    (hname : IsSegment t.decl.name) (hd : (d.typeNames package).full = f.fullName t) :
    looksLikeMap label (d.typeNames package) = true ↔ label = some .repeated ∧
      hasEnd entrySuffix t.decl.name = true ∧ f.package ≠ "" ∧ package ≠ f.package := by
  rw [FileDecl.fullName, FileDecl.longName_top ht] at hd
  rcases FieldDecl.typeNames_eq hd with h | ⟨hdot, h⟩
  · rw [h]
    exact looksLikeMap_top_iff hname
  · -- The text of a scalar type has no dot, so it is no map, and no name in a package.
    rw [h, looksLikeMap_iff]
    constructor
    · rintro ⟨-, hin, -⟩
      exact absurd hin hdot
    · rintro ⟨-, -, hne, -⟩
      refine absurd ?_ hdot
      rw [toList_inScope _ hne]
      simp

/-- The full name of a message of a file is that of a map field's type just if it is misread. -/
theorem mem_mapTypes_top [DescriptorPool] {registry : Option Registry} {files : List FileDecl}
    {docs : List FileDoc} (h : List.Forall₂ (fun f d ↦ f.document registry = .ok d) files docs)
    {f : FileDecl} {t : Placed MessageDecl} {k : Nat} (ht : f.messageAt? (.top k) = some t)
    (hname : IsSegment t.decl.name) :
    f.fullName t ∈ mapTypes docs ↔ Misread files f t := by
  rw [mem_mapTypes h]
  constructor
  · rintro ⟨g, hg, s, m, hm, d, hd, hmap, hfull⟩
    obtain ⟨hl, hend, hpackage, hother⟩ := (looksLikeMap_typeNames_iff ht hname hfull).mp hmap
    exact ⟨hend, hpackage, g, hg, hother, s, m, hm, d, hd,
      FieldDecl.shownLabel_eq_repeated.mp hl, hfull⟩
  · rintro ⟨hend, hpackage, g, hg, hother, s, m, hm, d, hd, hl, hfull⟩
    exact ⟨g, hg, s, m, hm, d, hd, (looksLikeMap_typeNames_iff ht hname hfull).mpr
      ⟨FieldDecl.shownLabel_eq_repeated.mpr hl, hend, hpackage, hother⟩, hfull⟩

namespace Settled

variable [DescriptorPool] {registry : Option Registry} {files : List FileDecl} {docs : List FileDoc}
    {c : Catalog}
  {f : FileDecl} {k : Nat} {t : Placed MessageDecl}

theorem holdsField_top (h : Settled registry files docs c) (ht : f.messageAt? (.top k) = some t)
    (hname : IsSegment t.decl.name) {g : FileDecl} (hg : g ∈ files) {s : MessageSite}
    {m : Placed MessageDecl} (hm : g.messageAt? s = some m) {j : Nat} {d : FieldDecl}
    (hd : m.decl.fields[j]? = some d) (htype : d.typeName = "." ++ f.fullName t) :
    ∃ x, c.HoldsField (g.fullName m) (s.address ++ [2, (j : Int)]) x ∧
      (x.isMap = true ↔ d.label = .repeated ∧ hasEnd entrySuffix t.decl.name = true ∧
        f.package ≠ "" ∧ g.package ≠ f.package) := by
  obtain ⟨x, hx, hheld⟩ := h.holdsField hg hm hd
  obtain ⟨_, _, _, _, rfl⟩ := FieldDecl.document_eq_ok hx
  have hfull : (d.typeNames g.package).full = f.fullName t := by
    rw [FieldDecl.typeNames_dot htype]
  refine ⟨_, hheld, ?_⟩
  rw [isMap_resolveField]
  show looksLikeMap _ (d.typeNames g.package) = true ↔ _
  rw [looksLikeMap_typeNames_iff ht hname hfull, FieldDecl.shownLabel_eq_repeated]

theorem holdsMessage_top (h : Settled registry files docs c) (hf : f ∈ files)
    (ht : f.messageAt? (.top k) = some t) (hname : IsSegment t.decl.name) :
    ∃ x, c.HoldsMessage (f.fullName t) x ∧ (x.internal = true ↔ Misread files f t) := by
  obtain ⟨e, hen, -, hheld⟩ := h.holdsMessage hf ht
  refine ⟨_, hheld, ?_⟩
  rw [← mem_mapTypes_top h.documented ht hname]
  show (mapTypes docs).contains e.names.full = true ↔ _
  rw [MessageDecl.names_document hen]
  exact List.contains_iff_mem

end Settled

/-- Exactly when a message that stands directly in its file is taken for an entry.  A field that
refers to it is a map field just if it is repeated, in another package, and the name ends as that
of an entry; the message is internal, and missing from the listings of its file and its package,
just if it is misread. -/
theorem top_message_misread_iff [DescriptorPool] {registry : Option Registry}
    {files : List FileDecl} {c : Catalog} (h : build registry files = .ok c)
    (hd : (FileDecl.messageNames files).Nodup) {i : Nat} {f : FileDecl} (hf : files[i]? = some f)
    {k : Nat} {t : Placed MessageDecl} (ht : f.messageAt? (.top k) = some t)
    (hname : IsSegment t.decl.name) :
    (∀ g ∈ files, ∀ s m, g.messageAt? s = some m → ∀ (j : Nat) d, m.decl.fields[j]? = some d →
      d.typeName = "." ++ f.fullName t →
      ∃ x, c.HoldsField (g.fullName m) (s.address ++ [2, (j : Int)]) x ∧
        (x.isMap = true ↔ d.label = .repeated ∧ hasEnd entrySuffix t.decl.name = true ∧
          f.package ≠ "" ∧ g.package ≠ f.package)) ∧
    ∃ x, c.HoldsMessage (f.fullName t) x ∧ (x.internal = true ↔ Misread files f t) ∧
      (∃ g, c.files[i]? = some g ∧ g.name = f.name ∧ (x ∈ g.messages ↔ ¬ Misread files f t)) ∧
      ∃ p, c.package? f.package = some p ∧ (x ∈ p.messages ↔ ¬ Misread files f t) := by
  obtain ⟨docs, hs⟩ := exists_settled h hd
  constructor
  · intro g hg s m hm j d hj htype
    exact hs.holdsField_top ht hname hg hm hj htype
  · obtain ⟨x, hheld, hint⟩ := hs.holdsMessage_top (List.mem_of_getElem? hf) ht hname
    obtain ⟨g, hg, hgname, hlist⟩ := hs.file_lists hf ht hheld
    obtain ⟨p, hp, hplist⟩ := hs.package_lists (List.mem_of_getElem? hf) ht hheld
    rw [← Bool.not_eq_true, hint] at hlist hplist
    exact ⟨x, hheld, hint, ⟨g, hg, hgname, hlist⟩, p, hp, hplist⟩

/-! ## A journal of log entries -/

def logEntry : MessageDecl := plainMessage "LogEntry" [labelValue] []

/-- A field that refers to a message of another file. -/
def logField : FieldDecl := plainField "log" 1 .repeated .message ".b.LogEntry"

def journal : MessageDecl := plainMessage "Journal" [logField] []

def logFile : FileDecl := plainFile "b.proto" "b" [logEntry]

/-- Two files: a repeated field in a package, and the message that it refers to. -/
def journalFiles (package : String) : List FileDecl :=
  [plainFile "a.proto" package [journal], logFile]

attribute [local instance] Annotations.pool

/-- Referred to from its own package the message is listed. -/
theorem top_message_listed_journal : ∃ c, build none (journalFiles "b") = .ok c ∧
    (∃ x, c.HoldsField "b.Journal" [4, 0, 2, 0] x ∧ x.isMap = false) ∧
    ∃ x, c.HoldsMessage "b.LogEntry" x ∧ x.internal = false ∧
      (∃ g, c.files[1]? = some g ∧ x ∈ g.messages) ∧
      ∃ p, c.package? "b" = some p ∧ x ∈ p.messages := by
  obtain ⟨c, hc, -⟩ : ∃ c, build none (journalFiles "b") = .ok c ∧ True :=
    exists_ok (by decide +kernel)
  have hdistinct : (FileDecl.messageNames (journalFiles "b")).Nodup := by decide +kernel
  have ht : logFile.messageAt? (.top 0) = some ⟨[4, 0], "LogEntry", logEntry⟩ := rfl
  have hm : (plainFile "a.proto" "b" [journal]).messageAt? (.top 0) =
      some ⟨[4, 0], "Journal", journal⟩ := rfl
  have hfirst : plainFile "a.proto" "b" [journal] ∈ journalFiles "b" := List.mem_cons_self
  have hother : ¬ Misread (journalFiles "b") logFile ⟨[4, 0], "LogEntry", logEntry⟩ := by
    rintro ⟨-, -, g, hg, hne, -⟩
    have hpackage : ∀ g ∈ journalFiles "b", g.package = "b" := by decide
    exact hne (hpackage g hg)
  obtain ⟨hfields, x, hx, hint, ⟨g, hg, -, hlist⟩, p, hp, hplist⟩ :=
    top_message_misread_iff hc hdistinct (i := 1) (f := logFile) rfl ht (by decide)
  obtain ⟨y, hy, hmap⟩ := hfields _ hfirst (.top 0) _ hm 0 logField rfl rfl
  refine ⟨c, hc, ⟨y, hy, ?_⟩, x, hx, ?_, ⟨g, hg, hlist.mpr hother⟩, p, hp, hplist.mpr hother⟩
  · rw [← Bool.not_eq_true, hmap]
    rintro ⟨-, -, -, hne⟩
    exact hne rfl
  · rwa [← Bool.not_eq_true, hint]

/-- Referred to from another package it is hidden, though it stands directly in its file. -/
theorem top_message_hidden_journal : ∃ c, build none (journalFiles "a") = .ok c ∧
    (FileDecl.messageNames (journalFiles "a")).Nodup ∧
    (∀ f ∈ journalFiles "a", f.SegmentNames) ∧
    logFile.messageAt? (.top 0) = some ⟨[4, 0], "LogEntry", logEntry⟩ ∧
    logField.typeName = "." ++ logFile.fullName ⟨[4, 0], "LogEntry", logEntry⟩ ∧
    (∃ x, c.HoldsField "a.Journal" [4, 0, 2, 0] x ∧ x.isMap = true) ∧
    (∃ x, c.HoldsMessage "b.LogEntry" x ∧ x.internal = true) ∧ c.Unlisted "b.LogEntry" := by
  obtain ⟨c, hc, -⟩ : ∃ c, build none (journalFiles "a") = .ok c ∧ True :=
    exists_ok (by decide +kernel)
  have hdistinct : (FileDecl.messageNames (journalFiles "a")).Nodup := by decide +kernel
  have ht : logFile.messageAt? (.top 0) = some ⟨[4, 0], "LogEntry", logEntry⟩ := rfl
  have hm : (plainFile "a.proto" "a" [journal]).messageAt? (.top 0) =
      some ⟨[4, 0], "Journal", journal⟩ := rfl
  have hfirst : plainFile "a.proto" "a" [journal] ∈ journalFiles "a" := List.mem_cons_self
  have hsecond : logFile ∈ journalFiles "a" := List.mem_cons_of_mem _ List.mem_cons_self
  have hmisread : Misread (journalFiles "a") logFile ⟨[4, 0], "LogEntry", logEntry⟩ :=
    ⟨by decide, by decide, _, hfirst, by decide, .top 0, _, hm, logField,
      List.mem_singleton.mpr rfl, rfl, by decide⟩
  obtain ⟨docs, hs⟩ := exists_settled hc hdistinct
  obtain ⟨x, hx, hint⟩ := hs.holdsMessage_top hsecond ht (by decide)
  have hd : journal.fields[0]? = some logField := rfl
  obtain ⟨y, hy, hmap⟩ := hs.holdsField_top ht (by decide) hfirst hm hd rfl
  refine ⟨c, hc, hdistinct, by decide +kernel, ht, by decide, ⟨y, hy, ?_⟩,
    ⟨x, hx, hint.mpr hmisread⟩, hs.unlisted_of_internal hx (hint.mpr hmisread)⟩
  exact hmap.mpr ⟨rfl, by decide, by decide, by decide⟩

end Catalog
end ProtoCatalog
