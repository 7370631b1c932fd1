import ProtoCatalog.Proofs.Copies
import ProtoCatalog.Proofs.Held
import ProtoCatalog.Proofs.TopMessages
import ProtoCatalog.Schema.Annotations

/-!
# Flags for what is there

A file and a message say of each of their collections whether there is anything in it.  What a file
says is told from what it declares directly, but it also lists the enumerations inside its messages,
and the messages that stand for entries of maps are taken off its listing afterwards.
-/

namespace ProtoCatalog

/-! ## Collections that are empty -/

theorem not_isEmpty_iff {α : Type} {l : List α} : (!l.isEmpty) = true ↔ l ≠ [] := by
  cases l <;> simp

theorem eq_nil_iff_of_forall₂ {α β : Type} {R : α → β → Prop} {xs : List α} {ys : List β}
    (h : List.Forall₂ R xs ys) : ys = [] ↔ xs = [] := by
  cases h <;> simp

theorem sortByName_eq_nil_iff {α : Type} {name : α → String} {docs : List α} :
    sortByName name docs = [] ↔ docs = [] := by
  rw [← List.length_eq_zero_iff, (sortByName_perm name docs).length_eq, List.length_eq_zero_iff]

theorem documentAll_eq_nil_iff {α β : Type} {path : Address} {collection : Collection}
    {document : Address → α → Except DeclFault β} {decls : List α} {docs : List β}
    (h : documentAll path collection document decls = .ok docs) : docs = [] ↔ decls = [] :=
  eq_nil_iff_of_forall₂ (forall₂_documentAll h)

namespace FileDecl

variable {f : FileDecl}

theorem allMessages_eq_nil_iff : f.allMessages = [] ↔ f.messages = [] := by
  rw [allMessages, topMessages, Placed.inCollection]
  cases f.messages with
  | nil => simp [MessageDecl.visit]
  | cons m rest => simp [MessageDecl.visit]

theorem allEnums_eq_nil_iff :
    f.allEnums = [] ↔ f.enums = [] ∧ ∀ m ∈ f.allMessages, m.decl.enums = [] := by
  rw [allEnums, List.append_eq_nil_iff, List.flatMap_eq_nil_iff, topEnums, Placed.inCollection,
    List.mapIdx_eq_nil_iff]
  simp only [MessageDecl.enumsInside, Placed.inCollection, List.mapIdx_eq_nil_iff]

end FileDecl

/-! ## Messages -/

/-- The flags of a message are those of its collections. -/
structure MessageDoc.FlagsAgree (m : MessageDoc) : Prop where
  fields : m.hasFields = true ↔ m.allFields ≠ []
  oneofs : m.hasOneofs = true ↔ m.oneofs ≠ []
  extensions : m.hasExtensions = true ↔ m.extensions ≠ []

theorem MessageDecl.flagsAgree_document [DescriptorPool] {ctx : DocContext} {m : Placed MessageDecl}
    {d : MessageDoc} (h : document ctx m = .ok d) : d.FlagsAgree := by
  obtain ⟨all, hall, hperm⟩ := allFields_perm h
  have hfields : d.allFields = [] ↔ m.decl.fields = [] := by
    rw [← documentAll_eq_nil_iff hall, ← List.length_eq_zero_iff, hperm.length_eq,
      List.length_eq_zero_iff]
  obtain ⟨options, extensions, fields, -, he, -, rfl⟩ := document_eq_ok h
  constructor
  · exact not_isEmpty_iff.trans (not_congr hfields).symm
  · exact not_isEmpty_iff
  · exact not_isEmpty_iff.trans (not_congr (documentAll_eq_nil_iff he)).symm

namespace Catalog

/-- Resolving a message keeps its flags, and nothing is added or taken away. -/
theorem ResolvedMessage.flagsAgree {ms : List MessageDoc} {m x : MessageDoc}
    (h : ResolvedMessage ms m x) (hm : m.FlagsAgree) : x.FlagsAgree := by
  have hfields := eq_nil_iff_of_forall₂ h.allFields
  have honeofs := eq_nil_iff_of_forall₂ h.oneofs
  constructor
  · rw [ne_eq, hfields, ← ne_eq, ← hm.fields, h.kept]
  · rw [ne_eq, honeofs, ← ne_eq, ← hm.oneofs, h.kept]
  · have hkept : x.extensions = m.extensions := by rw [h.kept]
    rw [hkept, ← hm.extensions, h.kept]

/-- Every message that a built catalog holds comes from a declared one. -/
theorem exists_comesFrom [DescriptorPool] {registry : Option Registry} {files : List FileDecl}
    {c : Catalog} (h : build registry files = .ok c) {x : MessageDoc} (hx : c.Holds x) :
    ∃ f ∈ files, ∃ m ∈ f.allMessages, ComesFrom registry f m x := by
  obtain ⟨docs, hdocs, -, hsettled, rfl⟩ := exists_settlement h
  obtain ⟨s, hs, hin⟩ := exists_of_holds hx
  obtain ⟨d, hd, -, hmessages⟩ := exists_of_mem_right hsettled.files hs
  obtain ⟨old, hold, hresolved⟩ := exists_of_mem_right hmessages hin
  obtain ⟨f, hf, hdoc⟩ := exists_of_mem_right hdocs hd
  obtain ⟨m, hm, hmd⟩ := FileDecl.exists_decl_of_mem hdoc hold
  exact ⟨f, hf, m, hm, old, nodes docs, hmd, hresolved⟩

/-! ## Files -/

/-- All messages of a file are taken off its listing. -/
def AllHidden (files : List FileDecl) (k : Nat) (f : FileDecl) : Prop :=
  (f.allMessages.map f.fullName).Nodup ∧ ∀ name, f.DeclaresMessage name → HidesAt files k f name

-- No message is left where each is an entry and the last of its name.
theorem listed_markInternal_eq_nil_iff {entries later : List String} {ms : List MessageDoc} :
    listed (markInternal entries later ms) = [] ↔
      (fullNames ms).Nodup ∧ ∀ name ∈ fullNames ms, name ∈ entries ∧ name ∉ later := by
  induction ms with
  | nil => simp [fullNames, markInternal, listed]
  | cons m rest ih =>
    have hcons : fullNames (m :: rest) = m.names.full :: fullNames rest := rfl
    rw [listed_markInternal_cons, hcons, List.nodup_cons, List.forall_mem_cons]
    split
    · rename_i hlast
      obtain ⟨hentry, hrest, hlater⟩ := hlast
      rw [ih]
      simp only [hentry, hrest, hlater, not_false_eq_true, true_and]
    · rename_i hstays
      constructor
      · intro h
        cases h
      · rintro ⟨⟨hrest, -⟩, ⟨hentry, hlater⟩, -⟩
        exact absurd ⟨hentry, hrest, hlater⟩ hstays

/-- How the flags of a listed file agree with its collections. -/
structure FileFlags (files : List FileDecl) (k : Nat) (f : FileDecl) (g : FileDoc) : Prop where
  extensions : g.hasExtensions = true ↔ g.extensions ≠ []
  services : g.hasServices = true ↔ g.services ≠ []
  enums_flag : g.hasEnums = true ↔ f.enums ≠ []
  enums_of_flag : g.hasEnums = true → g.enums ≠ []
  enums_agree : (g.hasEnums = true ↔ g.enums ≠ []) ↔
    f.enums ≠ [] ∨ ∀ m ∈ f.allMessages, m.decl.enums = []
  messages_flag : g.hasMessages = true ↔ f.messages ≠ []
  flag_of_messages : g.messages ≠ [] → g.hasMessages = true
  messages_agree : (g.hasMessages = true ↔ g.messages ≠ []) ↔
    f.messages = [] ∨ ¬AllHidden files k f
  misread : g.messages = [] → ∀ t ∈ f.topMessages, IsSegment t.decl.name →
    Misread files f t

section

variable {registry : Option Registry} {files : List FileDecl} {docs : List FileDoc} {f : FileDecl}
  {d : FileDoc} {k : Nat}

theorem allHidden_iff [DescriptorPool]
    (h : List.Forall₂ (fun f d ↦ f.document registry = .ok d) files docs)
    (hd : f.document registry = .ok d) : AllHidden files k f ↔
    (fullNames d.messages).Nodup ∧ ∀ name ∈ fullNames d.messages,
      name ∈ mapTypes docs ∧ name ∉ allNames (docs.drop (k + 1)) := by
  have hnames : ∀ name, f.DeclaresMessage name ↔ name ∈ fullNames d.messages := by
    intro name
    rw [← FileDecl.exists_message_named_iff hd, ← hasMessage_iff, HasMessage]
  rw [AllHidden, ← (FileDecl.map_full_document_perm hd).nodup_iff]
  apply and_congr Iff.rfl
  apply forall_congr'
  intro name
  rw [hidesAt_iff h hd, hnames]
  exact ⟨fun hall hname ↦ (hall hname).2, fun hall hname ↦ ⟨hname, hall hname⟩⟩

-- A file without messages has none to hide.
theorem allHidden_of_nil (hf : f.messages = []) : AllHidden files k f := by
  have hnil := FileDecl.allMessages_eq_nil_iff.mpr hf
  constructor
  · rw [hnil]
    exact List.nodup_nil
  · rintro name ⟨s, m, hm, -⟩
    have hin : m ∈ f.allMessages := FileDecl.mem_allMessages.mpr ⟨s, hm⟩
    rw [hnil] at hin
    cases hin

theorem AllHidden.misread [DescriptorPool]
    (h : List.Forall₂ (fun f d ↦ f.document registry = .ok d) files docs)
    (hd : f.document registry = .ok d) (hall : AllHidden files k f) {t : Placed MessageDecl}
    (ht : t ∈ f.topMessages) (hname : IsSegment t.decl.name) : Misread files f t := by
  obtain ⟨i, hi⟩ := FileDecl.mem_topMessages.mp ht
  have hhides := hall.2 (f.fullName t) ⟨.top i, t, hi, rfl⟩
  exact (mem_mapTypes_top h hi hname).mp ((hidesAt_iff h hd).mp hhides).2.1

theorem fileFlags_document [DescriptorPool]
    (h : List.Forall₂ (fun f d ↦ f.document registry = .ok d) files docs)
    (hd : f.document registry = .ok d) {messages : List MessageDoc}
    (hm : messages = [] ↔ AllHidden files k f) :
    FileFlags files k f { d with messages := messages } := by
  have hmisread : messages = [] → ∀ t ∈ f.topMessages, IsSegment t.decl.name →
      Misread files f t := fun hnil t ht ↦ (hm.mp hnil).misread h hd ht
  obtain ⟨_, enums, _, extensions, services, -, he, -, hx, hs, rfl⟩ := FileDecl.document_eq_ok hd
  have henums : sortByName (·.names.long) enums = [] ↔
      f.enums = [] ∧ ∀ m ∈ f.allMessages, m.decl.enums = [] := by
    rw [sortByName_eq_nil_iff, eq_nil_iff_of_forall₂ (mapM_eq_ok.mp he),
      FileDecl.allEnums_eq_nil_iff]
  have hextensions : sortByName (·.names.long) extensions = [] ↔ f.extensions = [] :=
    sortByName_eq_nil_iff.trans (documentAll_eq_nil_iff hx)
  have hservices : sortByName (·.names.long) services = [] ↔ f.services = [] :=
    sortByName_eq_nil_iff.trans (documentAll_eq_nil_iff hs)
  have hnone : f.messages = [] → messages = [] := fun hf ↦ hm.mpr (allHidden_of_nil hf)
  constructor
  · exact not_isEmpty_iff.trans (not_congr hextensions).symm
  · exact not_isEmpty_iff.trans (not_congr hservices).symm
  · exact not_isEmpty_iff
  · show (!f.enums.isEmpty) = true → sortByName (·.names.long) enums ≠ []
    rw [not_isEmpty_iff, ne_eq, ne_eq, henums]
    exact fun hflag hnil ↦ hflag hnil.1
  · show ((!f.enums.isEmpty) = true ↔ sortByName (·.names.long) enums ≠ []) ↔ _
    rw [not_isEmpty_iff, ne_eq, ne_eq, henums]
    by_cases hf : f.enums = [] <;> simp [hf]
  · exact not_isEmpty_iff
  · exact fun hlisted ↦ not_isEmpty_iff.mpr (mt hnone hlisted)
  · show ((!f.messages.isEmpty) = true ↔ messages ≠ []) ↔ _
    rw [not_isEmpty_iff, ← hm]
    by_cases hf : f.messages = []
    · simp [hf, hnone hf]
    · simp [hf]
  · exact hmisread

end

/-- Where flags agree with collections.  The flags of every message that a catalog holds do, and
those of a file for its extensions and its services.  The flag for enumerations is told from those
that the file declares directly, so it is wrong just where the file has some inside its messages
only.  The flag for messages is told before entries of maps are taken off the listing, so it is
wrong just where all messages of the file are, and then each that stands directly in it under a
proper name has been taken for an entry by a field of another package. -/
theorem flags_agree_iff [DescriptorPool] {registry : Option Registry} {files : List FileDecl}
    {c : Catalog} (h : build registry files = .ok c) :
    (∀ (k : Nat) g, c.files[k]? = some g → ∃ f, files[k]? = some f ∧ FileFlags files k f g) ∧
      ∀ m, c.Holds m → m.FlagsAgree := by
  constructor
  · intro k g hg
    obtain ⟨docs, hdocs, rfl⟩ := build_eq_ok.mp h
    rw [getElem?_files_settle] at hg
    obtain ⟨d, hd, rfl⟩ := Option.map_eq_some_iff.mp hg
    obtain ⟨f, hf, hdoc⟩ := forall₂_getElem? hdocs.flip hd
    refine ⟨f, hf, fileFlags_document hdocs hdoc ?_⟩
    rw [listed_markInternal_eq_nil_iff, fullNames_map_resolve, allHidden_iff hdocs hdoc]
  · intro m hm
    obtain ⟨f, -, decl, -, d, ms, hd, hresolved⟩ := exists_comesFrom h hm
    exact hresolved.flagsAgree (MessageDecl.flagsAgree_document hd)

/-! ## An enumeration inside a message -/

/-- A file whose only enumeration is inside its only message. -/
def orderStateFile : FileDecl :=
  plainFile "order.proto" "shop" [{ plainMessage "Order" [] [] with enums := [plainEnum "State"] }]

attribute [local instance] Annotations.pool

/-- The message is listed, and its flags and that of the file for messages tell what is there. -/
theorem flags_agree_order : ∃ c g, build none [orderStateFile] = .ok c ∧ c.files[0]? = some g ∧
    g.hasMessages = true ∧ g.messages ≠ [] ∧ ∀ m ∈ g.messages, m.FlagsAgree := by
  obtain ⟨c, hc, hlen⟩ : ∃ c, build none [orderStateFile] = .ok c ∧ c.files.length = 1 :=
    exists_ok (by decide +kernel)
  obtain ⟨hfiles, hmessages⟩ := flags_agree_iff hc
  have hg : c.files[0]? = some c.files[0] := List.getElem?_eq_getElem _
  obtain ⟨f, hf, hflags⟩ := hfiles 0 _ hg
  cases hf
  refine ⟨c, _, hc, hg, hflags.messages_flag.mpr (by decide), ?_, ?_⟩
  · intro hnil
    have hmisread := hflags.misread hnil _ List.mem_cons_self (by decide)
    exact absurd hmisread.1 (by decide)
  · exact fun m hm ↦ hmessages m (.inl ⟨_, List.getElem_mem _, hm⟩)

/-- The file has an enumeration on its listing and says that it has none.  A file whose only message
is taken for an entry by a field of another package says that it has messages and lists none. -/
theorem flags_differ_order :
    (∃ c, build none [orderStateFile] = .ok c ∧
      ∃ g ∈ c.files[0]?, g.hasEnums = false ∧ g.enums.length = 1) ∧
    ∃ c, build none (journalFiles "a") = .ok c ∧
      ∃ g ∈ c.files[1]?, g.hasMessages = true ∧ g.messages.length = 0 :=
  ⟨exists_ok (by decide +kernel), exists_ok (by decide +kernel)⟩

end Catalog
end ProtoCatalog
