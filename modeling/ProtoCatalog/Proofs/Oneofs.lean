import ProtoCatalog.Proofs.Acceptance
import ProtoCatalog.Proofs.MapEntries
import ProtoCatalog.Proofs.Nodes
import ProtoCatalog.Schema.Annotations

/-!
# Oneofs part the fields of a message

A message lists its plain fields apart, and each member of a oneof with the members that give the
same index.  Oneofs come in the order of their first members, and are told apart by their indices,
not by their names.  A loop that takes the fields one by one, and looks up the oneof of each,
arrives at the same lists.
-/

namespace ProtoCatalog

/-- The index of the oneof that a field is a member of, if it is one. -/
def FieldDecl.memberIndex? (f : FieldDecl) : Option Int :=
  if f.isOneofMember then f.oneofIndex else none

theorem FieldDecl.isSome_memberIndex? (f : FieldDecl) :
    f.memberIndex?.isSome = f.isOneofMember := by
  unfold memberIndex? isOneofMember
  cases f.oneofIndex <;> cases f.proto3Optional <;> rfl

theorem FieldDecl.memberIndex?_eq_some_iff {f : FieldDecl} {k : Int} :
    f.memberIndex? = some k ↔ f.isOneofMember = true ∧ f.oneofIndex = some k := by
  unfold memberIndex?
  split <;> simp_all

/-! ## Taking fields one by one -/

/-- A member is put behind those with its index; the first with an index starts a list. -/
def putMember {α : Type} (k : Int) (x : α) : List (Int × List α) → List (Int × List α)
  | [] => [(k, [x])]
  | (j, xs) :: rest => if j = k then (j, xs ++ [x]) :: rest else (j, xs) :: putMember k x rest

/-- Documented fields that have been taken: the plain ones, and the members by their oneofs. -/
structure Parted where
  plain : List FieldDoc
  members : List (Int × List FieldDoc)

/-- The next field is taken. -/
def Parted.take (p : Parted) (field : FieldDecl × FieldDoc) : Parted :=
  match field.1.memberIndex? with
  | some k => { p with members := putMember k field.2 p.members }
  | none => { p with plain := p.plain ++ [field.2] }

section Taking

variable {α : Type}

-- The lists are told by their keys, so that the put changes one of them or adds one.
theorem putMember_map {k : Int} {x : α} {g : Int → List α} {keys : List Int} (h : keys.Nodup) :
    putMember k x (keys.map fun j ↦ (j, g j)) =
      (keys.map fun j ↦ (j, g j ++ if k = j then [x] else [])) ++
        if k ∈ keys then [] else [(k, [x])] := by
  induction keys with
  | nil => rfl
  | cons j rest ih =>
    obtain ⟨hj, hrest⟩ := List.nodup_cons.mp h
    rw [List.map_cons, List.map_cons, putMember]
    by_cases hk : j = k
    · -- No later list has the key, and all stay as they are.
      subst hk
      have hsame : rest.map (fun i ↦ (i, g i ++ if j = i then [x] else [])) =
          rest.map fun i ↦ (i, g i) := by
        apply List.map_congr_left
        intro i hi
        rw [if_neg fun he : j = i ↦ hj (he ▸ hi), List.append_nil]
      rw [if_pos rfl, if_pos rfl, if_pos List.mem_cons_self, List.append_nil, hsame]
    · have hmem : k ∈ j :: rest ↔ k ∈ rest := by simp [Ne.symm hk]
      rw [if_neg hk, if_neg (Ne.symm hk), List.append_nil, ih hrest, List.cons_append]
      simp only [hmem]

/-- One step: a member at the end of a list is put behind those with its index. -/
theorem putMember_groupByIndex (members : List (Int × α)) (k : Int) (x : α) :
    putMember k x (groupByIndex members) = groupByIndex (members ++ [(k, x)]) := by
  have hgroup : ∀ j, ((members ++ [(k, x)]).filter (·.1 == j)).map (·.2) =
      (members.filter (·.1 == j)).map (·.2) ++ if k = j then [x] else [] := by
    intro j
    rw [List.filter_append, List.map_append]
    by_cases hk : k = j
    · simp [hk]
    · simp [hk]
  rw [groupByIndex, putMember_map (Keys.nodup_eraseDups _), groupByIndex, List.map_append,
    List.map_singleton, Keys.eraseDups_concat]
  simp only [hgroup, List.mem_eraseDups]
  split
  · rw [List.append_nil]
  · rename_i hk
    have hnone : members.filter (·.1 == k) = [] := by
      apply List.filter_eq_nil_iff.mpr
      intro m hm he
      exact hk (List.mem_map.mpr ⟨m, hm, beq_iff_eq.mp he⟩)
    rw [List.map_append, List.map_singleton, hnone, if_pos rfl, List.map_nil, List.nil_append]

end Taking

namespace MessageDecl

/-- The documentation of the fields that are members of the oneof with an index, or of the plain
fields, in their order. -/
def docsOf (index : Option Int) (decls : List FieldDecl) (docs : List FieldDoc) : List FieldDoc :=
  ((decls.zip docs).filter (·.1.memberIndex? == index)).map (·.2)

theorem oneofMembers_eq_filterMap (decls : List FieldDecl) (docs : List FieldDoc) :
    oneofMembers decls docs =
      (decls.zip docs).filterMap fun p ↦ p.1.memberIndex?.map fun k ↦ (k, p.2) := by
  rw [oneofMembers]
  apply List.filterMap_congr
  rintro ⟨d, y⟩ -
  show (if d.isOneofMember then d.oneofIndex.map _ else none) = d.memberIndex?.map _
  rw [FieldDecl.memberIndex?]
  split <;> rfl

/-- All steps: the loop over the fields lists the plain ones, and groups the members. -/
theorem foldl_take (decls : List FieldDecl) (docs : List FieldDoc) :
    (decls.zip docs).foldl Parted.take ⟨[], []⟩ =
      ⟨docsOf none decls docs, groupByIndex (oneofMembers decls docs)⟩ := by
  rw [oneofMembers_eq_filterMap, docsOf]
  -- From the front, as the loop goes.
  induction decls.zip docs using List.reverseRecOn with
  | nil => rfl
  | append_singleton fields field ih =>
    rw [List.foldl_append, ih, List.filter_append, List.map_append, List.filterMap_append]
    show Parted.take _ field = _
    rw [Parted.take]
    cases h : field.1.memberIndex? with
    | none => simp [h]
    | some k => simp [h, putMember_groupByIndex]

/-! ## Members and their oneofs -/

section Members

variable {ctx : DocContext} {decls : List FieldDecl} {docs : List FieldDoc}

theorem membersAt_eq_docsOf (decls : List FieldDecl) (docs : List FieldDoc) (k : Int) :
    membersAt decls docs k = docsOf (some k) decls docs := by
  rw [membersAt, oneofMembers_eq_filterMap, docsOf]
  induction decls.zip docs with
  | nil => rfl
  | cons field rest ih =>
    rw [List.filterMap_cons, List.filter_cons]
    cases h : field.1.memberIndex? with
    | none => simpa [h] using ih
    | some j =>
      by_cases hj : j = k
      · simpa [hj] using ih
      · simpa [hj] using ih

theorem map_fst_oneofMembers (h : decls.length = docs.length) :
    (oneofMembers decls docs).map (·.1) = decls.filterMap (·.memberIndex?) := by
  have hdecls : (decls.zip docs).map (·.1) = decls := List.map_fst_zip h.le
  conv_rhs => rw [← hdecls, List.filterMap_map]
  rw [oneofMembers_eq_filterMap, List.map_filterMap]
  simp [Function.comp_def]

theorem filter_isNone_eq_docsOf
    (h : List.Forall₂ (fun d y ↦ y.oneof.isSome = d.isOneofMember) decls docs) :
    docs.filter (·.oneof.isNone) = docsOf none decls docs := by
  induction h with
  | nil => rfl
  | @cons d y ds ys hdy _ ih =>
    have htest : (d.memberIndex? == none) = y.oneof.isNone := by
      rw [← d.isSome_memberIndex?] at hdy
      cases hd : d.memberIndex? <;> simp_all
    rw [docsOf, List.zip_cons_cons, List.filter_cons, List.filter_cons, htest]
    rw [docsOf] at ih
    split <;> simp [ih]

theorem exists_of_mem_docsOf {R : FieldDecl → FieldDoc → Prop} (h : List.Forall₂ R decls docs)
    {index : Option Int} {y : FieldDoc} (hy : y ∈ docsOf index decls docs) :
    ∃ d ∈ decls, d.memberIndex? = index ∧ R d y := by
  obtain ⟨⟨d, y⟩, hp, rfl⟩ := List.mem_map.mp hy
  obtain ⟨hzip, hd⟩ := List.mem_filter.mp hp
  exact ⟨d, (List.of_mem_zip hzip).1, beq_iff_eq.mp hd, List.forall₂_zip h hzip⟩

theorem docsOf_ne_nil (h : decls.length = docs.length) {d : FieldDecl} (hd : d ∈ decls) :
    docsOf d.memberIndex? decls docs ≠ [] := by
  have hdecls : (decls.zip docs).map (·.1) = decls := List.map_fst_zip h.le
  rw [← hdecls] at hd
  obtain ⟨p, hp, rfl⟩ := List.mem_map.mp hd
  exact List.ne_nil_of_mem (List.mem_map_of_mem (List.mem_filter.mpr ⟨hp, by simp⟩))

end Members

/-- The indices that members of oneofs give, in the order of the first member that gives each. -/
def oneofIndices (m : MessageDecl) : List Int := (m.fields.filterMap (·.memberIndex?)).eraseDups

theorem mem_oneofIndices {m : MessageDecl} {k : Int} :
    k ∈ m.oneofIndices ↔ ∃ d ∈ m.fields, d.memberIndex? = some k := by
  rw [oneofIndices, List.mem_eraseDups, List.mem_filterMap]

theorem oneofIndices_ne_nil_iff {m : MessageDecl} :
    m.oneofIndices ≠ [] ↔ ∃ d ∈ m.fields, d.isOneofMember = true := by
  simp only [← FieldDecl.isSome_memberIndex?, Option.isSome_iff_exists]
  constructor
  · intro h
    obtain ⟨k, hk⟩ := List.exists_mem_of_ne_nil _ h
    obtain ⟨d, hd, hdk⟩ := mem_oneofIndices.mp hk
    exact ⟨d, hd, k, hdk⟩
  · rintro ⟨d, hd, k, hdk⟩
    exact List.ne_nil_of_mem (mem_oneofIndices.mpr ⟨d, hd, hdk⟩)

theorem groupByIndex_oneofMembers {m : MessageDecl} {docs : List FieldDoc}
    (h : m.fields.length = docs.length) :
    groupByIndex (oneofMembers m.fields docs) =
      m.oneofIndices.map fun k ↦ (k, docsOf (some k) m.fields docs) := by
  rw [groupByIndex, map_fst_oneofMembers h, oneofIndices]
  simp only [← membersAt_eq_docsOf]
  rfl

/-- The name of the oneof that is declared with an index, empty if there is none. -/
def oneofNameAt (m : MessageDecl) (k : Int) : String :=
  (m.oneofs[k.toNat]?.map (·.name)).getD ""

end MessageDecl

theorem FieldDecl.oneofName_of_nonneg {m : MessageDecl} {k : Int} (h : 0 ≤ k) :
    oneofName m.oneofs k = .ok (m.oneofNameAt k) := by
  unfold oneofName
  simp only [Int.not_lt.mpr h, if_false]
  rfl

-- A member has the name that its index gives.
theorem FieldDecl.oneof_document [DescriptorPool] {ctx : DocContext} {oneofs : List OneofDecl}
    {path : Address} {f : FieldDecl} {doc : FieldDoc} (h : f.document ctx oneofs path = .ok doc)
    {k : Int} (hk : f.memberIndex? = some k) :
    ∃ name, oneofName oneofs k = .ok name ∧ doc.oneof = some name := by
  obtain ⟨hmember, hindex⟩ := memberIndex?_eq_some_iff.mp hk
  obtain ⟨_, oneof, _, ho, rfl⟩ := document_eq_ok h
  have hproto3 : f.proto3Optional = false := by simpa [isOneofMember, hindex] using hmember
  unfold oneof? at ho
  simp only [hindex, hproto3, Bool.false_eq_true, if_false] at ho
  rw [map_eq_pure_bind] at ho
  obtain ⟨name, hname, ho⟩ := bind_eq_ok.mp ho
  cases ho
  exact ⟨name, hname, rfl⟩

namespace MessageDecl

/-! ## The parts of a message -/

/-- A documented oneof of a message has the members with its index, in their order, and each of
them its name: that of the oneof declared with the index. -/
structure HoldsOneof (m : Placed MessageDecl) (docs : List FieldDoc) (k : Int) (o : OneofDoc) :
    Prop where
  fields : o.fields = docsOf (some k) m.decl.fields docs
  name : o.name = m.decl.oneofNameAt k
  members : ∀ f ∈ o.fields, f.oneof = some o.name
  path : o.source.path = m.address ++ [8, k]

/-- How a documented message parts its documented fields.  The indices are those that members give,
each in the place of the first member that gives it, and there is one oneof for each. -/
structure PartsFields (m : Placed MessageDecl) (docs : List FieldDoc) (indices : List Int)
    (doc : MessageDoc) : Prop where
  plain : doc.fields = docsOf none m.decl.fields docs
  plainOneof : ∀ f ∈ doc.fields, f.oneof = none
  given : ∀ k, k ∈ indices ↔ ∃ d ∈ m.decl.fields, d.memberIndex? = some k
  givenOnce : indices.Nodup
  givenOrder : indices.Pairwise fun j k =>
    m.decl.fields.findIdx (·.memberIndex? == some j) <
      m.decl.fields.findIdx (·.memberIndex? == some k)
  oneofs : List.Forall₂ (HoldsOneof m docs) indices doc.oneofs
  taken : (m.decl.fields.zip docs).foldl Parted.take ⟨[], []⟩ =
    ⟨doc.fields, indices.zip (doc.oneofs.map (·.fields))⟩
  all : doc.allFields.Perm docs
  once : (doc.allFields.map (·.address)).Nodup
  hasOneofs : doc.hasOneofs = true ↔ ∃ d ∈ m.decl.fields, d.isOneofMember = true

variable {ctx : DocContext} {m : Placed MessageDecl}

-- The name of a documented oneof is that of its first member, and all have the same.
theorem name_ofMembers [DescriptorPool] {docs : List FieldDoc}
    (h : documentAll m.address .messageFields (FieldDecl.document ctx m.decl.oneofs)
      m.decl.fields = .ok docs)
    {d : FieldDecl} (hd : d ∈ m.decl.fields) {k : Int} (hk : d.memberIndex? = some k)
    {name : String} (hname : FieldDecl.oneofName m.decl.oneofs k = .ok name) :
    (OneofDoc.ofMembers ctx m.address k (docsOf (some k) m.decl.fields docs)).name = name ∧
      ∀ f ∈ docsOf (some k) m.decl.fields docs, f.oneof = some name := by
  have hforall := forall₂_documentAll h
  have hmembers : ∀ f ∈ docsOf (some k) m.decl.fields docs, f.oneof = some name := by
    intro f hf
    obtain ⟨e, -, hek, _, hdoc⟩ := exists_of_mem_docsOf hforall hf
    obtain ⟨name', hname', hf⟩ := FieldDecl.oneof_document hdoc hek
    cases hname.symm.trans hname'
    exact hf
  refine ⟨?_, hmembers⟩
  have hne := docsOf_ne_nil hforall.length_eq hd
  rw [hk] at hne
  obtain ⟨first, rest, hfirst⟩ := List.exists_cons_of_ne_nil hne
  have hin : first ∈ docsOf (some k) m.decl.fields docs := hfirst ▸ List.mem_cons_self
  show ((docsOf (some k) m.decl.fields docs).head?.bind (·.oneof)).getD "" = _
  rw [hfirst, List.head?_cons, Option.bind_some, hmembers first hin, Option.getD_some]

theorem holdsOneof_ofMembers [DescriptorPool] {docs : List FieldDoc}
    (h : documentAll m.address .messageFields (FieldDecl.document ctx m.decl.oneofs)
      m.decl.fields = .ok docs)
    {d : FieldDecl} (hd : d ∈ m.decl.fields) {k : Int} (hk : d.memberIndex? = some k)
    (h0 : 0 ≤ k) :
    HoldsOneof m docs k
      (OneofDoc.ofMembers ctx m.address k (docsOf (some k) m.decl.fields docs)) := by
  obtain ⟨hname, hmembers⟩ := name_ofMembers h hd hk (FieldDecl.oneofName_of_nonneg h0)
  exact ⟨rfl, hname, fun f hf ↦ hname ▸ hmembers f hf, FileDecl.path_sourceAt _ _⟩

/-- A documented message has its plain fields, and one oneof for each index. -/
theorem parts_document [DescriptorPool] {doc : MessageDoc} (h : document ctx m = .ok doc) :
    ∃ docs, documentAll m.address .messageFields (FieldDecl.document ctx m.decl.oneofs)
        m.decl.fields = .ok docs ∧
      doc.allFields.Perm docs ∧
      doc.fields = docsOf none m.decl.fields docs ∧ (∀ f ∈ doc.fields, f.oneof = none) ∧
      doc.oneofs = m.decl.oneofIndices.map (fun k ↦
        OneofDoc.ofMembers ctx m.address k (docsOf (some k) m.decl.fields docs)) ∧
      doc.hasOneofs = !doc.oneofs.isEmpty := by
  obtain ⟨docs, hdocs, hperm⟩ := allFields_perm h
  obtain ⟨_, _, docs', _, _, hdocs', rfl⟩ := document_eq_ok h
  obtain rfl : docs' = docs := Except.ok.inj (hdocs'.symm.trans hdocs)
  have hshown : List.Forall₂ (fun d y ↦ y.oneof.isSome = d.isOneofMember) m.decl.fields docs' :=
    (forall₂_documentAll hdocs).imp fun d y ⟨_, hy⟩ ↦ FieldDecl.isSome_oneof_document hy
  refine ⟨docs', hdocs, hperm, filter_isNone_eq_docsOf hshown, ?_, ?_, rfl⟩
  · intro f hf
    exact Option.isNone_iff_eq_none.mp (List.mem_filter.mp hf).2
  · show oneofDocs ctx m docs' = _
    rw [oneofDocs, groupByIndex_oneofMembers hshown.length_eq, List.map_map]
    rfl

/-- The oneofs of a message part its fields.  Where no field gives a negative index of a oneof, and
all options are given, the message is documented, and each of its fields is either with the plain
ones or with the members of one oneof. -/
theorem fields_parted [DescriptorPool]
    (hoptions : ∀ site ∈ m.decl.optionSites, Options.Given ctx.registry site)
    (hindices : ∀ d ∈ m.decl.fields, ∀ k ∈ d.oneofIndex, 0 ≤ k) :
    ∃ doc docs indices, document ctx m = .ok doc ∧
      documentAll m.address .messageFields (FieldDecl.document ctx m.decl.oneofs)
        m.decl.fields = .ok docs ∧ PartsFields m docs indices doc := by
  have hrange : ∀ f ∈ m.decl.fields, f.OneofInRange m.decl.oneofs := by
    intro f hf k hk _
    have h0 := hindices f hf k hk
    omega
  obtain ⟨doc, hdoc⟩ := (exists_document m).mpr ⟨hoptions, hrange⟩
  obtain ⟨docs, hdocs, hperm, hplain, hnone, honeofs, hflag⟩ := parts_document hdoc
  have hlength := (forall₂_documentAll hdocs).length_eq
  refine ⟨doc, docs, m.decl.oneofIndices, hdoc, hdocs, ?_⟩
  constructor
  case plain => exact hplain
  case plainOneof => exact hnone
  case given =>
    intro k
    exact mem_oneofIndices
  case givenOnce => exact Keys.nodup_eraseDups _
  case givenOrder => exact Keys.pairwise_findIdx_eraseDups _ _
  case oneofs =>
    rw [honeofs, List.forall₂_map_right_iff, List.forall₂_same]
    intro k hk
    obtain ⟨d, hd, hdk⟩ := mem_oneofIndices.mp hk
    have hindex := (FieldDecl.memberIndex?_eq_some_iff.mp hdk).2
    exact holdsOneof_ofMembers hdocs hd hdk (hindices d hd k hindex)
  case taken =>
    rw [foldl_take, groupByIndex_oneofMembers hlength, hplain, honeofs, List.map_map,
      List.map_prod_left_eq_zip]
    rfl
  case all => exact hperm
  case once =>
    rw [(hperm.map _).nodup_iff]
    exact nodup_address_documentAll hdocs fun _ _ _ ↦ FieldDecl.address_document
  case hasOneofs =>
    rw [hflag, honeofs, Bool.not_eq_true', List.isEmpty_map, List.isEmpty_eq_false_iff,
      oneofIndices_ne_nil_iff]

/-! ## Two oneofs of one name -/

open Catalog (plainField plainMessage plainFile)

def choiceField (name : String) (number : Int) (oneofIndex : Option Int) (proto3Optional : Bool) :
    FieldDecl :=
  { plainField name number .optional (.scalar .string) "" with
    oneofIndex := oneofIndex, proto3Optional := proto3Optional }

/-- A message with two oneofs of one name, whose members interleave with a plain field, an optional
one with a oneof for itself alone, and a member of a oneof that is not declared. -/
def choiceMessage : Placed MessageDecl where
  address := [4, 0]
  longName := "Order"
  decl :=
    { plainMessage "Order" [choiceField "card" 1 (some 1) false, choiceField "note" 2 none false,
        choiceField "pickup" 3 (some 0) false, choiceField "cash" 4 (some 1) false,
        choiceField "tip" 5 (some 2) true, choiceField "gift" 6 (some 7) false] [] with
      oneofs := [⟨"choice"⟩, ⟨"choice"⟩, ⟨"_tip"⟩] }

def choiceContext : DocContext := ⟨plainFile "order.proto" "shop" [choiceMessage.decl], none⟩

attribute [local instance] Annotations.pool

/-- The two oneofs stay apart, and the one with the first member comes first. -/
theorem fields_parted_choice : ∃ doc docs indices,
    document choiceContext choiceMessage = .ok doc ∧
    PartsFields choiceMessage docs indices doc ∧
    doc.fields.map (·.name) = ["note", "tip"] ∧
    doc.oneofs.map (fun o ↦ (o.name, o.fields.map (·.name))) =
      [("choice", ["card", "cash"]), ("choice", ["pickup"]), ("", ["gift"])] := by
  have hempty : ∀ kind, Options.Given choiceContext.registry (kind, []) := fun kind ↦ by
    cases kind <;> exact ⟨_, rfl⟩
  have hoptions : ∀ site ∈ choiceMessage.decl.optionSites,
      Options.Given choiceContext.registry site := by
    rintro ⟨kind, options⟩ hsite
    have hnone : options = [] := by
      have hall : ∀ o ∈ choiceMessage.decl.optionSites.map (·.2), o = [] := by decide
      exact hall options (List.mem_map_of_mem hsite)
    exact hnone ▸ hempty kind
  obtain ⟨doc, docs, indices, hdoc, -, hparts⟩ := fields_parted hoptions (by decide)
  have hshown : (document choiceContext choiceMessage).toOption.map (fun d ↦
      (d.fields.map (·.name), d.oneofs.map fun o ↦ (o.name, o.fields.map (·.name)))) =
        some (["note", "tip"], [("choice", ["card", "cash"]), ("choice", ["pickup"]),
          ("", ["gift"])]) := by decide +kernel
  rw [hdoc] at hshown
  obtain ⟨hplain, honeofs⟩ := Prod.mk.inj (Option.some.inj hshown)
  exact ⟨doc, docs, indices, hdoc, hparts, hplain, honeofs⟩

end MessageDecl
end ProtoCatalog
