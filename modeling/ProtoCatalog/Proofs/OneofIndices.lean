import ProtoCatalog.Fault
import ProtoCatalog.Proofs.Oneofs
import ProtoCatalog.Schema.Annotations

/-!
# Indices of oneofs

The oneof of a field is looked up by an index that may be any number.  An index past the last oneof
stands for none and gives the empty name.  A negative one stands for none either, but it counts from
the end, so it gives the name of some oneof, or is a fault if it counts past the first.
-/

namespace ProtoCatalog

/-! ## One lookup -/

/-- What the lookup of a oneof gives, by the place of the index. -/
inductive OneofLookup (oneofs : List OneofDecl) (k : Int) : Except DeclFault String → Prop
  | declared (i : Nat) (o : OneofDecl) (hk : k = i) (ho : oneofs[i]? = some o) :
      OneofLookup oneofs k (.ok o.name)
  | past (hk : oneofs.length ≤ k) : OneofLookup oneofs k (.ok "")
  | fromEnd (i : Nat) (o : OneofDecl) (hk : k = (i : Int) - oneofs.length)
      (ho : oneofs[i]? = some o) : OneofLookup oneofs k (.ok o.name)
  | before (hk : k < -oneofs.length) : OneofLookup oneofs k (.error .oneofIndex)

/-- The name of the oneof that an index stands for: that of the one declared with it, if any is. -/
def declaredName (oneofs : List OneofDecl) (k : Int) : String :=
  if 0 ≤ k then (oneofs[k.toNat]?.map (·.name)).getD "" else ""

namespace FieldDecl

variable {oneofs : List OneofDecl} {k : Int}

theorem oneofLookup (oneofs : List OneofDecl) (k : Int) :
    OneofLookup oneofs k (oneofName oneofs k) := by
  unfold oneofName
  simp only
  by_cases hneg : k < 0
  · rw [if_pos hneg]
    split
    · rename_i hbefore
      exact .before (by omega)
    · rename_i hpos
      -- What is counted from the end is there, as the index is negative.
      obtain ⟨i, hi⟩ := Int.eq_ofNat_of_zero_le (Int.not_lt.mp hpos)
      have hlt : i < oneofs.length := by omega
      have hget : oneofs[(k + oneofs.length).toNat]? = some oneofs[i] := by
        rw [hi, Int.toNat_natCast, List.getElem?_eq_getElem hlt]
      rw [hget]
      exact .fromEnd i oneofs[i] (by omega) (List.getElem?_eq_getElem hlt)
  · rw [if_neg hneg, if_neg hneg]
    obtain ⟨i, rfl⟩ := Int.eq_ofNat_of_zero_le (Int.not_lt.mp hneg)
    rw [Int.toNat_natCast]
    by_cases hlt : i < oneofs.length
    · rw [List.getElem?_eq_getElem hlt]
      exact .declared i oneofs[i] rfl (List.getElem?_eq_getElem hlt)
    · rw [List.getElem?_eq_none (Nat.not_lt.mp hlt)]
      exact .past (by omega)

end FieldDecl

/-- An index is safe if it does not count from the end, or gives the empty name so. -/
def SafeIndex (oneofs : List OneofDecl) (k : Int) : Prop :=
  0 ≤ k ∨ ∃ (i : Nat) (o : OneofDecl), k = (i : Int) - oneofs.length ∧ oneofs[i]? = some o ∧
    o.name = ""

theorem SafeIndex.le {oneofs : List OneofDecl} {k : Int} (h : SafeIndex oneofs k) :
    -(oneofs.length : Int) ≤ k := by
  rcases h with h0 | ⟨i, o, hk, -⟩ <;> omega

/-- What a lookup gives is the name of the oneof that the index stands for just if it is safe. -/
theorem OneofLookup.eq_declaredName_iff {oneofs : List OneofDecl} {k : Int} {name : String}
    (h : OneofLookup oneofs k (.ok name)) :
    name = declaredName oneofs k ↔ SafeIndex oneofs k := by
  cases h with
  | declared i o hk ho =>
    subst hk
    rw [declaredName, if_pos (Int.natCast_nonneg i), Int.toNat_natCast, ho]
    exact iff_of_true rfl (.inl (Int.natCast_nonneg i))
  | past hk =>
    have h0 : 0 ≤ k := Int.le_trans (Int.natCast_nonneg _) hk
    rw [declaredName, if_pos h0, List.getElem?_eq_none (by omega)]
    exact iff_of_true rfl (.inl h0)
  | fromEnd i o hk ho =>
    have hlt : i < oneofs.length := (List.getElem?_eq_some_iff.mp ho).1
    have hneg : ¬0 ≤ k := by omega
    rw [declaredName, if_neg hneg]
    constructor
    · exact fun hname ↦ .inr ⟨i, o, hk, ho, hname⟩
    · rintro (h0 | ⟨j, q, hj, hq, hname⟩)
      · exact absurd h0 hneg
      · obtain rfl : i = j := by omega
        cases ho.symm.trans hq
        exact hname

/-! ## Fields -/

/-- What becomes of a member of a oneof, by its index: whether it is documented, and what name it
has. -/
structure FieldDecl.LooksUp [DescriptorPool] (ctx : DocContext) (oneofs : List OneofDecl)
    (path : Address) (f : FieldDecl) (k : Int) : Prop where
  returns_iff : (∃ doc, f.document ctx oneofs path = .ok doc) ↔
    Options.Given ctx.registry (.field, f.options) ∧ -(oneofs.length : Int) ≤ k
  fault : Options.Given ctx.registry (.field, f.options) → k < -(oneofs.length : Int) →
    f.document ctx oneofs path = .error .oneofIndex
  name : ∀ doc, f.document ctx oneofs path = .ok doc →
    ∃ name, OneofLookup oneofs k (.ok name) ∧ doc.oneof = some name
  right_iff : Options.Given ctx.registry (.field, f.options) →
    ((∃ doc, f.document ctx oneofs path = .ok doc ∧ doc.oneof = some (declaredName oneofs k)) ↔
      SafeIndex oneofs k)

namespace FieldDecl

variable {ctx : DocContext} {oneofs : List OneofDecl} {path : Address} {f : FieldDecl} {k : Int}

-- Just the index of a member has to be in range.
theorem oneofInRange_iff (hk : f.memberIndex? = some k) :
    f.OneofInRange oneofs ↔ -(oneofs.length : Int) ≤ k := by
  obtain ⟨hmember, hindex⟩ := memberIndex?_eq_some_iff.mp hk
  have hproto3 : f.proto3Optional = false := by simpa [isOneofMember, hindex] using hmember
  simp only [OneofInRange, hindex, hproto3, Option.some.injEq, forall_eq', forall_const]

theorem eq_oneofIndex_of_oneof? {fault : DeclFault} (h : f.oneof? oneofs = .error fault) :
    fault = .oneofIndex := by
  unfold oneof? at h
  split at h
  · rename_i index _
    split at h
    · cases h
    · have hlookup := oneofLookup oneofs index
      rw [map_eq_pure_bind] at h
      rcases bind_eq_error.mp h with he | ⟨_, -, h⟩
      · rw [he] at hlookup
        cases hlookup
        rfl
      · cases h
  · cases h

-- With its options the only fault left is that of the index.
theorem eq_oneofIndex_of_error [DescriptorPool]
    (hgiven : Options.Given ctx.registry (.field, f.options)) {fault : DeclFault}
    (h : f.document ctx oneofs path = .error fault) : fault = .oneofIndex := by
  obtain ⟨options, hoptions⟩ := exists_optionsOf.mpr hgiven
  rcases bind_eq_error.mp h with he | ⟨_, -, h⟩
  · rw [hoptions] at he
    cases he
  · rcases bind_eq_error.mp h with he | ⟨_, -, h⟩
    · exact eq_oneofIndex_of_oneof? he
    · cases h

theorem looksUp [DescriptorPool] (hk : f.memberIndex? = some k) : LooksUp ctx oneofs path f k := by
  have hreturns : (∃ doc, f.document ctx oneofs path = .ok doc) ↔
      Options.Given ctx.registry (.field, f.options) ∧ -(oneofs.length : Int) ≤ k := by
    rw [exists_document, oneofInRange_iff hk]
  have hname : ∀ doc, f.document ctx oneofs path = .ok doc →
      ∃ name, OneofLookup oneofs k (.ok name) ∧ doc.oneof = some name := by
    intro doc hdoc
    obtain ⟨name, hlookup, hname⟩ := oneof_document hdoc hk
    exact ⟨name, hlookup ▸ oneofLookup oneofs k, hname⟩
  refine ⟨hreturns, ?_, hname, ?_⟩
  · intro hgiven hlt
    cases hdoc : f.document ctx oneofs path with
    | ok doc =>
      have hle := (hreturns.mp ⟨doc, hdoc⟩).2
      omega
    | error fault => rw [eq_oneofIndex_of_error hgiven hdoc]
  · intro hgiven
    constructor
    · rintro ⟨doc, hdoc, hright⟩
      obtain ⟨name, hlookup, honeof⟩ := hname doc hdoc
      rw [honeof] at hright
      exact hlookup.eq_declaredName_iff.mp (Option.some.inj hright)
    · intro hsafe
      obtain ⟨doc, hdoc⟩ := hreturns.mpr ⟨hgiven, hsafe.le⟩
      obtain ⟨name, hlookup, honeof⟩ := hname doc hdoc
      exact ⟨doc, hdoc, by rw [honeof, hlookup.eq_declaredName_iff.mpr hsafe]⟩

end FieldDecl

/-! ## Messages -/

-- A collection fails by one of its members.
theorem exists_documentAll_eq_error {α β : Type} {path : Address} {collection : Collection}
    {document : Address → α → Except DeclFault β} {decls : List α} {fault : DeclFault}
    (h : documentAll path collection document decls = .error fault) :
    ∃ path, ∃ d ∈ decls, document path d = .error fault := by
  have hmapM : ∀ ps : List (Address × α), (ps.mapM fun p ↦ document p.1 p.2) = .error fault →
      ∃ p ∈ ps, document p.1 p.2 = .error fault := by
    intro ps hps
    induction ps with
    | nil => cases hps
    | cons p rest ih =>
      rw [List.mapM_cons] at hps
      rcases bind_eq_error.mp hps with he | ⟨_, -, hps⟩
      · exact ⟨p, List.mem_cons_self, he⟩
      · rcases bind_eq_error.mp hps with he | ⟨_, -, hps⟩
        · obtain ⟨q, hq, hfault⟩ := ih he
          exact ⟨q, List.mem_cons_of_mem _ hq, hfault⟩
        · cases hps
  obtain ⟨p, hp, hfault⟩ := hmapM _ h
  obtain ⟨i, hi, rfl⟩ := List.mem_mapIdx.mp hp
  exact ⟨_, _, List.getElem_mem hi, hfault⟩

namespace MessageDecl

/-- A documented oneof of a message has the members with its index, in their order, and each of them
its name, which is what the index gives. -/
structure LookedUp (m : Placed MessageDecl) (docs : List FieldDoc) (k : Int) (o : OneofDoc) :
    Prop where
  lookup : OneofLookup m.decl.oneofs k (.ok o.name)
  fields : o.fields = docsOf (some k) m.decl.fields docs
  members : ∀ f ∈ o.fields, f.oneof = some o.name
  path : o.source.path = m.address ++ [8, k]

/-- What becomes of a message by the indices that its members give. -/
structure LooksUpAll [DescriptorPool] (ctx : DocContext) (m : Placed MessageDecl) : Prop where
  returns_iff : (∃ doc, document ctx m = .ok doc) ↔
    (∀ site ∈ m.decl.optionSites, Options.Given ctx.registry site) ∧
      ∀ k ∈ m.decl.oneofIndices, -(m.decl.oneofs.length : Int) ≤ k
  fault : (∀ site ∈ m.decl.optionSites, Options.Given ctx.registry site) →
    (∃ k ∈ m.decl.oneofIndices, k < -(m.decl.oneofs.length : Int)) →
      document ctx m = .error .oneofIndex
  oneofs : ∀ doc, document ctx m = .ok doc → ∃ docs,
    documentAll m.address .messageFields (FieldDecl.document ctx m.decl.oneofs)
      m.decl.fields = .ok docs ∧
      List.Forall₂ (LookedUp m docs) m.decl.oneofIndices doc.oneofs
  right_iff : (∀ site ∈ m.decl.optionSites, Options.Given ctx.registry site) →
    ((∃ doc, document ctx m = .ok doc ∧
      List.Forall₂ (fun k o ↦ o.name = declaredName m.decl.oneofs k)
        m.decl.oneofIndices doc.oneofs) ↔
      ∀ k ∈ m.decl.oneofIndices, SafeIndex m.decl.oneofs k)

variable {ctx : DocContext} {m : Placed MessageDecl}

theorem oneofInRange_iff : (∀ f ∈ m.decl.fields, f.OneofInRange m.decl.oneofs) ↔
    ∀ k ∈ m.decl.oneofIndices, -(m.decl.oneofs.length : Int) ≤ k := by
  constructor
  · intro h k hk
    obtain ⟨d, hd, hdk⟩ := mem_oneofIndices.mp hk
    exact (FieldDecl.oneofInRange_iff hdk).mp (h d hd)
  · intro h d hd
    cases hdk : d.memberIndex? with
    | some k => exact (FieldDecl.oneofInRange_iff hdk).mpr (h k (mem_oneofIndices.mpr ⟨d, hd, hdk⟩))
    | none =>
      -- A field that is no member looks nothing up.
      intro k hindex hproto3
      rw [FieldDecl.memberIndex?, FieldDecl.isOneofMember, hindex, hproto3] at hdk
      cases hdk

-- With all options the only fault left is that of an index.
theorem eq_oneofIndex_of_error [DescriptorPool]
    (hgiven : ∀ site ∈ m.decl.optionSites, Options.Given ctx.registry site) {fault : DeclFault}
    (h : document ctx m = .error fault) : fault = .oneofIndex := by
  rw [optionSites, List.cons_append, List.forall_mem_cons, List.forall_mem_append,
    List.forall_mem_map, List.forall_mem_map] at hgiven
  obtain ⟨hmessage, hextensions, hfields⟩ := hgiven
  obtain ⟨options, hoptions⟩ := exists_optionsOf.mpr hmessage
  obtain ⟨extensions, hdocs⟩ : ∃ docs, documentAll m.address .messageExtensions
      (fun path f ↦ f.documentExtension ctx (inScope m.longName f.name)
        (some (ctx.names m.decl.name m.longName)) path) m.decl.extensions = .ok docs :=
    exists_extensions.mpr hextensions
  rcases bind_eq_error.mp h with he | ⟨_, -, h⟩
  · rw [hoptions] at he
    cases he
  · rcases bind_eq_error.mp h with he | ⟨_, -, h⟩
    · rw [hdocs] at he
      cases he
    · rcases bind_eq_error.mp h with he | ⟨_, -, h⟩
      · obtain ⟨path, f, hf, hfault⟩ := exists_documentAll_eq_error he
        exact FieldDecl.eq_oneofIndex_of_error (hfields f hf) hfault
      · cases h

theorem lookedUp_oneofs [DescriptorPool] {doc : MessageDoc} (h : document ctx m = .ok doc) :
    ∃ docs, documentAll m.address .messageFields (FieldDecl.document ctx m.decl.oneofs)
      m.decl.fields = .ok docs ∧
      List.Forall₂ (LookedUp m docs) m.decl.oneofIndices doc.oneofs := by
  obtain ⟨docs, hdocs, -, -, -, honeofs, -⟩ := parts_document h
  refine ⟨docs, hdocs, ?_⟩
  rw [honeofs, List.forall₂_map_right_iff, List.forall₂_same]
  intro k hk
  obtain ⟨d, hd, hdk⟩ := mem_oneofIndices.mp hk
  obtain ⟨y, -, path, hy⟩ := exists_of_mem_left (forall₂_documentAll hdocs) hd
  obtain ⟨name, hlookup, -⟩ := FieldDecl.oneof_document hy hdk
  obtain ⟨hname, hmembers⟩ := name_ofMembers hdocs hd hdk hlookup
  constructor
  · rw [hname, ← hlookup]
    exact FieldDecl.oneofLookup _ _
  · rfl
  · exact fun f hf ↦ hname ▸ hmembers f hf
  · exact FileDecl.path_sourceAt _ _

theorem looksUpAll [DescriptorPool] (ctx : DocContext) (m : Placed MessageDecl) :
    LooksUpAll ctx m := by
  have hreturns : (∃ doc, document ctx m = .ok doc) ↔
      (∀ site ∈ m.decl.optionSites, Options.Given ctx.registry site) ∧
        ∀ k ∈ m.decl.oneofIndices, -(m.decl.oneofs.length : Int) ≤ k := by
    rw [exists_document, oneofInRange_iff]
  refine ⟨hreturns, ?_, fun doc ↦ lookedUp_oneofs, ?_⟩
  · rintro hgiven ⟨k, hk, hlt⟩
    cases hdoc : document ctx m with
    | ok doc =>
      have hle := (hreturns.mp ⟨doc, hdoc⟩).2 k hk
      omega
    | error fault => rw [eq_oneofIndex_of_error hgiven hdoc]
  · intro hgiven
    constructor
    · rintro ⟨doc, hdoc, hright⟩ k hk
      obtain ⟨docs, -, hlooked⟩ := lookedUp_oneofs hdoc
      have hsafe : List.Forall₂ (fun k _ ↦ SafeIndex m.decl.oneofs k) m.decl.oneofIndices
          doc.oneofs :=
        List.Forall₂.mp (fun k o ho hname ↦ ho.lookup.eq_declaredName_iff.mp hname) hlooked hright
      obtain ⟨_, -, h⟩ := exists_of_mem_left hsafe hk
      exact h
    · intro hsafe
      obtain ⟨doc, hdoc⟩ := hreturns.mpr ⟨hgiven, fun k hk ↦ (hsafe k hk).le⟩
      obtain ⟨docs, -, hlooked⟩ := lookedUp_oneofs hdoc
      refine ⟨doc, hdoc, ?_⟩
      apply ((List.forall₂_and_left _ _).mpr ⟨hsafe, hlooked⟩).imp
      rintro k o ⟨hk, ho⟩
      exact ho.lookup.eq_declaredName_iff.mpr hk

end MessageDecl

/-- What the indices of oneofs come to, whatever they are.  A member of a oneof whose index is that
of a declared oneof has its name, and one whose index is past the last has the empty name.  An index
that counts from the end gives the name of the oneof that it counts to, and is a fault if it counts
past the first; so a member has the name that its index stands for just if the index does not count
from the end, or counts to a oneof without a name.  A message with all its options given is
documented just if no member counts past the first oneof, with one oneof for each index, of the name
that is looked up by it. -/
theorem oneof_lookup_exact [DescriptorPool] (ctx : DocContext) :
    (∀ oneofs path f k, FieldDecl.memberIndex? f = some k →
      FieldDecl.LooksUp ctx oneofs path f k) ∧
      ∀ m, MessageDecl.LooksUpAll ctx m :=
  ⟨fun _ _ _ _ ↦ FieldDecl.looksUp, MessageDecl.looksUpAll ctx⟩

/-! ## Members of one oneof -/

open MessageDecl (choiceField choiceContext)

/-- What is documented of a field with an index, among one oneof. -/
def choiceWith [DescriptorPool] (index : Int) : Except DeclFault FieldDoc :=
  (choiceField "card" 1 (some index) false).document choiceContext [⟨"choice"⟩] [4, 0, 2, 0]

/-- A message of that field and that oneof. -/
def choiceOf (index : Int) : Placed MessageDecl where
  address := [4, 0]
  longName := "Order"
  decl :=
    { Catalog.plainMessage "Order" [choiceField "card" 1 (some index) false] [] with
      oneofs := [⟨"choice"⟩] }

attribute [local instance] Annotations.pool

/-- The first index gives the oneof, the next none, and one past the first from the end is a
fault. -/
theorem oneof_lookup_exact_choice :
    (∃ doc, choiceWith 0 = .ok doc ∧ doc.oneof = some "choice") ∧
    (∃ doc, choiceWith 1 = .ok doc ∧ doc.oneof = some "") ∧
    choiceWith (-2) = .error .oneofIndex := by
  have hgiven : Options.Given choiceContext.registry (.field, []) := ⟨none, rfl⟩
  have hrule := (oneof_lookup_exact choiceContext).1 [⟨"choice"⟩] [4, 0, 2, 0]
  refine ⟨?_, ?_, ?_⟩
  · have hfirst := hrule (choiceField "card" 1 (some 0) false) 0 rfl
    exact (hfirst.right_iff hgiven).mpr (.inl (by decide))
  · have hnext := hrule (choiceField "card" 1 (some 1) false) 1 rfl
    exact (hnext.right_iff hgiven).mpr (.inl (by decide))
  · have hbefore := hrule (choiceField "card" 1 (some (-2)) false) (-2) rfl
    exact hbefore.fault hgiven (by decide)

/-- Counted from the end a member gets a name that its index does not stand for, and one step
further there is a fault, for a field as for its message. -/
theorem oneof_lookup_unsafe_choice :
    (∃ doc, choiceWith (-1) = .ok doc ∧ doc.oneof = some "choice") ∧
    choiceWith (-2) = .error .oneofIndex ∧
    MessageDecl.document choiceContext (choiceOf (-2)) = .error .oneofIndex ∧
    DeclFault.oneofIndex.message = "list index out of range" :=
  ⟨exists_ok (by decide +kernel), rfl, rfl, rfl⟩

end ProtoCatalog
