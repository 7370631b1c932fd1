import ProtoCatalog.Doc.OptionIndex
import ProtoCatalog.Proofs.Oneofs
import ProtoCatalog.Proofs.Order
import ProtoCatalog.Schema.Annotations

/-!
# Indexes of options

Enumerations and services index all their members by the options that these have.  Messages index
their plain fields only, so the index of a message covers all its fields just if no member of a
oneof has an option.
-/

namespace ProtoCatalog

/-! ## Lists that are none where they are empty -/

/-- A list, or none if it would be empty. -/
def listing {α : Type} (xs : List α) : Option (List α) := if xs.isEmpty then none else some xs

section Listing

variable {α : Type} (xs : List α)

theorem getD_listing : (listing xs).getD [] = xs := by
  cases xs <;> rfl

theorem listing_ne_some_nil : listing xs ≠ some [] := by
  cases xs <;> exact nofun

theorem isSome_listing_iff : (listing xs).isSome = true ↔ ∃ x, x ∈ xs := by
  cases xs <;> simp [listing]

end Listing

namespace OptionMap

/-! ## What an index gives -/

theorem has_iff {m : Option OptionMap} {name : String} :
    has m name = true ↔ ∃ t, m = some t ∧ name ∈ t.keys := by
  cases m with
  | none => simp [has]
  | some t => simp [has, Table.contains_iff]

/-- An index of members by the options that they have. -/
structure Indexes {α : Type} (options : α → Option OptionMap) (members : List α)
    (names : Option (List String)) (holders : String → Option (List α)) : Prop where
  /-- Just the members that have an option are listed for it, in their order. -/
  listed : ∀ name, (holders name).getD [] = members.filter fun x ↦ has (options x) name
  /-- No list of members is empty. -/
  listedSome : ∀ name, holders name ≠ some []
  /-- Just the options are named that members are listed for. -/
  named : ∀ name, name ∈ names.getD [] ↔ (holders name).isSome = true
  /-- The names ascend, and none comes twice. -/
  ascending : (names.getD []).Pairwise (· < ·)
  /-- No list of names is empty. -/
  namedSome : names ≠ some []

-- Just the options are named that some member has.
theorem Indexes.mem_names_iff {α : Type} {options : α → Option OptionMap} {members : List α}
    {names : Option (List String)} {holders : String → Option (List α)}
    (h : Indexes options members names holders) (name : String) :
    name ∈ names.getD [] ↔ ∃ x ∈ members, has (options x) name = true := by
  have hlisted := h.listed name
  have hsome := h.listedSome name
  have hexists : (∃ x ∈ members, has (options x) name = true) ↔ (holders name).getD [] ≠ [] := by
    rw [hlisted, Ne, List.filter_eq_nil_iff]
    simp
  rw [h.named, hexists]
  cases hholders : holders name with
  | none => simp
  | some found =>
    have hne : found ≠ [] := fun hnil ↦ hsome (hholders.trans (congrArg some hnil))
    simp [hne]

section Indexing

variable {α : Type} (options : α → Option OptionMap) (members : List α)

theorem holders?_eq_listing (name : String) :
    holders? options members name = listing (members.filter fun x ↦ has (options x) name) := rfl

theorem names?_eq_listing (maps : List (Option OptionMap)) :
    names? maps = listing
      (sortByName id (maps.flatMap fun m ↦ (m.map Table.keys).getD []).eraseDups) := by
  unfold names? indexNames
  generalize maps.flatMap _ = names
  have hempty : (sortByName id names.eraseDups).isEmpty = names.isEmpty := by
    rw [List.Perm.isEmpty_eq (sortByName_perm id _)]
    cases names <;> simp [List.eraseDups_cons]
  rw [listing, hempty]
  rfl

theorem mem_names?_iff (name : String) :
    name ∈ (names? (members.map options)).getD [] ↔
      ∃ x ∈ members, has (options x) name = true := by
  rw [names?_eq_listing, getD_listing, (sortByName_perm id _).mem_iff, List.mem_eraseDups,
    List.flatMap_map, List.mem_flatMap]
  apply exists_congr
  intro x
  rw [has_iff]
  cases options x <;> simp

theorem indexes_holders? : Indexes options members (names? (members.map options))
    (holders? options members) := by
  constructor
  case listed => exact fun name ↦ getD_listing _
  case listedSome => exact fun name ↦ listing_ne_some_nil _
  case named =>
    intro name
    rw [mem_names?_iff, holders?_eq_listing, isSome_listing_iff]
    simp only [List.mem_filter]
  case ascending =>
    rw [names?_eq_listing, getD_listing]
    exact pairwise_sortByName_eraseDups _
  case namedSome =>
    rw [names?_eq_listing]
    exact listing_ne_some_nil _

-- Leaving members out changes no list just if none of those left out has the option.
theorem filter_filter_eq_iff {p q : α → Bool} :
    (members.filter p).filter q = members.filter q ↔ ∀ x ∈ members, q x = true → p x = true := by
  constructor
  · intro h x hx hq
    have hmem : x ∈ members.filter q := List.mem_filter.mpr ⟨hx, hq⟩
    rw [← h] at hmem
    exact (List.mem_filter.mp (List.mem_filter.mp hmem).1).2
  · intro h
    rw [List.filter_filter]
    apply List.filter_congr
    intro x hx
    cases hq : q x with
    | false => rw [Bool.false_and]
    | true => rw [h x hx hq, Bool.and_self]

end Indexing
end OptionMap

/-! ## Messages, enumerations and services -/

open OptionMap (has Indexes indexes_holders?)

/-- What the index of a message gives, of all whose fields the documentation is given, in order. -/
structure MessageDoc.IndexesPlain (docs : List FieldDoc) (doc : MessageDoc) : Prop where
  /-- They are the fields of the message, plain or in a oneof. -/
  children : doc.allFields.Perm docs
  /-- The plain ones are indexed. -/
  plain : Indexes (·.options) (docs.filter (·.oneof.isNone)) doc.fieldOptions?
    doc.fieldsWithOption?
  /-- All that have an option are listed for it just if none of them is in a oneof. -/
  listed_iff : ∀ name,
    (doc.fieldsWithOption? name).getD [] = docs.filter (fun f ↦ has f.options name) ↔
      ∀ f ∈ docs, has f.options name = true → f.oneof = none
  /-- The names are those of the options of all just if plain ones have them too. -/
  named_iff : (∀ name, name ∈ doc.fieldOptions?.getD [] ↔ ∃ f ∈ docs, has f.options name = true) ↔
    ∀ f ∈ docs, ∀ name, has f.options name = true →
      ∃ g ∈ docs, g.oneof = none ∧ has g.options name = true
  /-- All of them are indexed just if none in a oneof has an option. -/
  indexes_iff : Indexes (·.options) docs doc.fieldOptions? doc.fieldsWithOption? ↔
    ∀ f ∈ docs, ∀ name, has f.options name = true → f.oneof = none

namespace MessageDoc

variable {docs : List FieldDoc} {doc : MessageDoc}

theorem indexesPlain (hall : doc.allFields.Perm docs)
    (hplain : doc.fields = docs.filter (·.oneof.isNone)) : doc.IndexesPlain docs := by
  have hindexes : Indexes (·.options) (docs.filter (·.oneof.isNone)) doc.fieldOptions?
      doc.fieldsWithOption? := hplain ▸ indexes_holders? (·.options) doc.fields
  have hlisted : ∀ name,
      (doc.fieldsWithOption? name).getD [] = docs.filter (fun f ↦ has f.options name) ↔
        ∀ f ∈ docs, has f.options name = true → f.oneof = none := by
    intro name
    simp only [hindexes.listed, OptionMap.filter_filter_eq_iff, Option.isNone_iff_eq_none]
  constructor
  case children => exact hall
  case plain => exact hindexes
  case listed_iff => exact hlisted
  case named_iff =>
    have hnamed : ∀ name, name ∈ doc.fieldOptions?.getD [] ↔
        ∃ g ∈ docs, g.oneof = none ∧ has g.options name = true := by
      intro name
      simp only [hindexes.mem_names_iff, List.mem_filter, Option.isNone_iff_eq_none, and_assoc]
    constructor
    · intro h f hf name hhas
      exact (hnamed name).mp ((h name).mpr ⟨f, hf, hhas⟩)
    · intro h name
      rw [hnamed]
      constructor
      · rintro ⟨g, hg, -, hhas⟩
        exact ⟨g, hg, hhas⟩
      · rintro ⟨f, hf, hhas⟩
        exact h f hf name hhas
  case indexes_iff =>
    constructor
    · intro h f hf name
      exact (hlisted name).mp (h.listed name) f hf
    · intro h
      exact { hindexes with listed := fun name ↦ (hlisted name).mpr fun f hf ↦ h f hf name }

end MessageDoc

/-- Services and enumerations index all their members by the options that these have.  A message
indexes its plain fields: for an option it lists all its fields that have it just if none of them
is a member of a oneof. -/
theorem option_indexes_exact [DescriptorPool] (ctx : DocContext) :
    (∀ m doc, MessageDecl.document ctx m = .ok doc → ∃ docs,
      documentAll m.address .messageFields (FieldDecl.document ctx m.decl.oneofs)
        m.decl.fields = .ok docs ∧ doc.IndexesPlain docs) ∧
    (∀ e doc, EnumDecl.document ctx e = .ok doc →
      documentAll e.address .enumValues (EnumValueDecl.document ctx) e.decl.values
        = .ok doc.values ∧
      Indexes (·.options) doc.values doc.valueOptions? doc.valuesWithOption?) ∧
    ∀ path s doc, ServiceDecl.document ctx path s = .ok doc →
      documentAll path .serviceMethods (MethodDecl.document ctx) s.methods = .ok doc.methods ∧
      Indexes (·.options) doc.methods doc.methodOptions? doc.methodsWithOption? := by
  refine ⟨?_, ?_, ?_⟩
  · intro m doc h
    obtain ⟨_, _, docs, _, _, hdocs, hdoc⟩ := MessageDecl.document_eq_ok h
    obtain ⟨docs', hdocs', hperm⟩ := MessageDecl.allFields_perm h
    obtain rfl : docs' = docs := Except.ok.inj (hdocs'.symm.trans hdocs)
    exact ⟨docs', hdocs, MessageDoc.indexesPlain hperm (hdoc ▸ rfl)⟩
  · intro e doc h
    obtain ⟨_, _, _, hvalues, rfl⟩ := EnumDecl.document_eq_ok h
    exact ⟨hvalues, indexes_holders? _ _⟩
  · intro path s doc h
    obtain ⟨_, _, _, hmethods, rfl⟩ := ServiceDecl.document_eq_ok h
    exact ⟨hmethods, indexes_holders? _ _⟩

/-! ## One deprecated member -/

open MessageDecl (choiceField choiceContext)

/-- A message of a plain field and a member of a oneof, with their options. -/
def markedMessage (idOptions cardOptions : Record) : Placed MessageDecl where
  address := [4, 0]
  longName := "Order"
  decl :=
    { Catalog.plainMessage "Order"
        [{ choiceField "id" 1 none false with options := idOptions },
          { choiceField "card" 2 (some 0) false with options := cardOptions }] [] with
      oneofs := [⟨"choice"⟩] }

def markedEnum : Placed EnumDecl where
  address := [5, 0]
  longName := "Status"
  decl := ⟨"Status", [⟨"OPEN", 0, []⟩, ⟨"LOST", 1, [(1, .bool true)]⟩], []⟩

def markedService : ServiceDecl :=
  ⟨"Orders", [⟨"Drop", ".shop.Order", ".shop.Order", false, false, [(33, .bool true)]⟩], []⟩

attribute [local instance] Annotations.pool

/-- Where the members of oneofs have no options, messages index all their fields, just as
enumerations and services do all their members. -/
theorem option_indexes_exact_deprecated :
    (∃ doc docs, MessageDecl.document choiceContext (markedMessage [(3, .bool true)] []) = .ok doc ∧
      doc.allFields.Perm docs ∧ doc.allFields.map (·.name) = ["id", "card"] ∧
      Indexes (·.options) docs doc.fieldOptions? doc.fieldsWithOption? ∧
      doc.fieldOptions? = some ["deprecated"]) ∧
    (∃ doc, EnumDecl.document choiceContext markedEnum = .ok doc ∧
      Indexes (·.options) doc.values doc.valueOptions? doc.valuesWithOption? ∧
      (doc.valuesWithOption? "deprecated").map (·.map (·.name)) = some ["LOST"]) ∧
    ∃ doc, ServiceDecl.document choiceContext [6, 0] markedService = .ok doc ∧
      Indexes (·.options) doc.methods doc.methodOptions? doc.methodsWithOption? ∧
      (doc.methodsWithOption? "deprecated").map (·.map (·.name)) = some ["Drop"] := by
  refine ⟨?_, ?_, ?_⟩
  · obtain ⟨doc, hdoc, hfields, hplain, hshown⟩ : ∃ doc,
        MessageDecl.document choiceContext (markedMessage [(3, .bool true)] []) = .ok doc ∧
          doc.allFields.map (·.name) = ["id", "card"] ∧
          (∀ f ∈ doc.allFields, f.oneof = none ∨ f.options = none) ∧
          doc.fieldOptions? = some ["deprecated"] := exists_ok (by decide +kernel)
    obtain ⟨docs, -, hrule⟩ := (option_indexes_exact choiceContext).1 _ doc hdoc
    refine ⟨doc, docs, hdoc, hrule.children, hfields, hrule.indexes_iff.mpr ?_, hshown⟩
    intro f hf name hhas
    rcases hplain f (hrule.children.mem_iff.mpr hf) with hnone | hnone
    · exact hnone
    · rw [hnone] at hhas
      cases hhas
  · obtain ⟨doc, hdoc, hshown⟩ : ∃ doc, EnumDecl.document choiceContext markedEnum = .ok doc ∧
        (doc.valuesWithOption? "deprecated").map (·.map (·.name)) = some ["LOST"] :=
      exists_ok (by decide +kernel)
    exact ⟨doc, hdoc, ((option_indexes_exact choiceContext).2.1 _ doc hdoc).2, hshown⟩
  · obtain ⟨doc, hdoc, hshown⟩ : ∃ doc,
        ServiceDecl.document choiceContext [6, 0] markedService = .ok doc ∧
          (doc.methodsWithOption? "deprecated").map (·.map (·.name)) = some ["Drop"] :=
      exists_ok (by decide +kernel)
    exact ⟨doc, hdoc, ((option_indexes_exact choiceContext).2.2 _ _ doc hdoc).2, hshown⟩

/-- The only field with an option is not listed for it, and the option is not named. -/
theorem option_indexes_miss_card :
    ∃ doc, MessageDecl.document choiceContext (markedMessage [] [(3, .bool true)]) = .ok doc ∧
      (doc.allFields.filter fun f ↦ has f.options "deprecated").map (·.name) = ["card"] ∧
      doc.fieldsWithOption? "deprecated" = none ∧ doc.fieldOptions? = none :=
  exists_ok (by decide +kernel)

end ProtoCatalog
