import Mathlib.Data.List.Forall2
import ProtoCatalog.Doc.OfDeclaration
import ProtoCatalog.Proofs.Keys

/-!
# What documenting gives

One statement for each kind of declaration, of what its documentation holds where it succeeds.
Collections are documented member by member, in order, and the fields of a message are the same
whether they are told apart by oneofs or not.
-/

namespace ProtoCatalog

/-! ## Steps that may fail -/

section Steps

variable {ε α β γ : Type}

theorem bind_eq_ok {x : Except ε α} {k : α → Except ε β} {b : β} :
    (x >>= k) = .ok b ↔ ∃ a, x = .ok a ∧ k a = .ok b := by
  cases x with
  | error e =>
    constructor
    · intro h
      cases h
    · rintro ⟨a, h, -⟩
      cases h
  | ok a =>
    constructor
    · intro h
      exact ⟨a, rfl, h⟩
    · rintro ⟨_, h, hk⟩
      cases h
      exact hk

theorem mapError_eq_ok {δ : Type} {f : ε → δ} {x : Except ε α} {a : α} :
    x.mapError f = .ok a ↔ x = .ok a := by
  cases x <;> simp [Except.mapError]

theorem bind_eq_error {x : Except ε α} {k : α → Except ε β} {e : ε} :
    (x >>= k) = .error e ↔ x = .error e ∨ ∃ a, x = .ok a ∧ k a = .error e := by
  cases x with
  | error e' =>
    constructor
    · intro h
      cases h
      exact .inl rfl
    · rintro (h | ⟨_, h, -⟩)
      · cases h
        rfl
      · cases h
  | ok a =>
    constructor
    · intro h
      exact .inr ⟨a, rfl, h⟩
    · rintro (h | ⟨_, h, hk⟩)
      · cases h
      · cases h
        exact hk

theorem mapError_eq_error {δ : Type} {f : ε → δ} {x : Except ε α} {e : δ} :
    x.mapError f = .error e ↔ ∃ e', x = .error e' ∧ f e' = e := by
  cases x <;> simp [Except.mapError]

-- There is a result where any fault would be one of something that has a result.
theorem exists_eq_ok {x y : Except ε α} {a : α} (hx : x = .ok a)
    (h : ∀ e, y = .error e → x = .error e) : ∃ b, y = .ok b := by
  cases hy : y with
  | ok b => exact ⟨b, rfl⟩
  | error e =>
    rw [h e hy] at hx
    cases hx

-- A result can be computed as an option.
theorem exists_ok {x : Except ε α} {P : α → Prop} (h : ∃ a ∈ x.toOption, P a) :
    ∃ a, x = .ok a ∧ P a := by
  obtain ⟨a, ha, hp⟩ := h
  cases x with
  | error e => exact absurd ha (by simp [Except.toOption])
  | ok b => exact ⟨a, by rw [Option.some.inj ha], hp⟩

-- A list is treated member by member.
theorem mapM_eq_ok {f : α → Except ε β} {xs : List α} {ys : List β} :
    xs.mapM f = .ok ys ↔ List.Forall₂ (fun x y ↦ f x = .ok y) xs ys := by
  induction xs generalizing ys with
  | nil =>
    rw [List.mapM_nil, List.forall₂_nil_left_iff]
    exact ⟨fun h ↦ by cases h; rfl, fun h ↦ by rw [h]; rfl⟩
  | cons x rest ih =>
    rw [List.mapM_cons, List.forall₂_cons_left_iff, bind_eq_ok]
    constructor
    · rintro ⟨y, hy, h⟩
      obtain ⟨ys', hys, h⟩ := bind_eq_ok.mp h
      cases h
      exact ⟨y, ys', hy, ih.mp hys, rfl⟩
    · rintro ⟨y, ys', hy, hys, rfl⟩
      exact ⟨y, hy, bind_eq_ok.mpr ⟨ys', ih.mpr hys, rfl⟩⟩

theorem exists_forall₂ {R : α → β → Prop} {xs : List α} (h : ∀ x ∈ xs, ∃ y, R x y) :
    ∃ ys, List.Forall₂ R xs ys := by
  induction xs with
  | nil => exact ⟨[], .nil⟩
  | cons x rest ih =>
    obtain ⟨hx, hrest⟩ := List.forall_mem_cons.mp h
    obtain ⟨y, hy⟩ := hx
    obtain ⟨ys, hys⟩ := ih hrest
    exact ⟨y :: ys, .cons hy hys⟩

theorem forall₂_getElem? {R : α → β → Prop} {xs : List α} {ys : List β}
    (h : List.Forall₂ R xs ys) {i : Nat} {x : α} (hx : xs[i]? = some x) :
    ∃ y, ys[i]? = some y ∧ R x y := by
  induction h generalizing i with
  | nil => simp at hx
  | @cons a b as bs hab _ ih =>
    cases i with
    | zero =>
      simp only [List.getElem?_cons_zero, Option.some.injEq] at hx
      exact ⟨b, rfl, hx ▸ hab⟩
    | succ i => exact ih (by simpa using hx)

theorem exists_of_mem_left {R : α → β → Prop} {xs : List α} {ys : List β}
    (h : List.Forall₂ R xs ys) {x : α} (hx : x ∈ xs) : ∃ y ∈ ys, R x y := by
  obtain ⟨i, hi⟩ := List.mem_iff_getElem?.mp hx
  obtain ⟨y, hy, hr⟩ := forall₂_getElem? h hi
  exact ⟨y, List.mem_of_getElem? hy, hr⟩

theorem exists_of_mem_right {R : α → β → Prop} {xs : List α} {ys : List β}
    (h : List.Forall₂ R xs ys) {y : β} (hy : y ∈ ys) : ∃ x ∈ xs, R x y :=
  exists_of_mem_left (R := flip R) h.flip hy

-- What holds of some member on one side holds of some on the other, and so for all.
theorem exists_mem_iff_of_forall₂ {R : α → β → Prop} {P : α → Prop} {Q : β → Prop} {xs : List α}
    {ys : List β} (h : List.Forall₂ R xs ys) (hPQ : ∀ x y, R x y → (Q y ↔ P x)) :
    (∃ y ∈ ys, Q y) ↔ ∃ x ∈ xs, P x := by
  constructor
  · rintro ⟨y, hy, hq⟩
    obtain ⟨x, hx, hr⟩ := exists_of_mem_right h hy
    exact ⟨x, hx, (hPQ x y hr).mp hq⟩
  · rintro ⟨x, hx, hp⟩
    obtain ⟨y, hy, hr⟩ := exists_of_mem_left h hx
    exact ⟨y, hy, (hPQ x y hr).mpr hp⟩

theorem forall_mem_iff_of_forall₂ {R : α → β → Prop} {P : α → Prop} {Q : β → Prop} {xs : List α}
    {ys : List β} (h : List.Forall₂ R xs ys) (hPQ : ∀ x y, R x y → (Q y ↔ P x)) :
    (∀ y ∈ ys, Q y) ↔ ∀ x ∈ xs, P x := by
  have hnot := exists_mem_iff_of_forall₂ h fun x y hr ↦ not_congr (hPQ x y hr)
  simpa only [not_exists, not_and, not_not] using not_congr hnot

-- What is put together member by member on one side is put together on the other.
theorem flatMap_perm_of_forall₂ {R : α → β → Prop} {u : α → List γ} {v : β → List γ}
    (huv : ∀ x y, R x y → (v y).Perm (u x)) {xs : List α} {ys : List β}
    (h : List.Forall₂ R xs ys) : (ys.flatMap v).Perm (xs.flatMap u) := by
  induction h with
  | nil => exact List.Perm.refl _
  | cons hab _ ih => exact (huv _ _ hab).append ih

-- Members are treated by a function, so places with one member have one result.
theorem getElem?_of_forall₂_ok {f : α → Except ε β} {xs : List α} {ys : List β}
    (h : List.Forall₂ (fun x y ↦ f x = .ok y) xs ys) (i : Nat) :
    ys[i]? = xs[i]?.bind fun x ↦ (f x).toOption := by
  induction h generalizing i with
  | nil => rfl
  | @cons x y xs ys hxy _ ih =>
    cases i with
    | zero =>
      rw [List.getElem?_cons_zero, List.getElem?_cons_zero, Option.bind_some, hxy]
      rfl
    | succ i => exact ih i

-- What is treated twice is treated member by member too.
theorem forall₂_trans {R : α → β → Prop} {S : β → γ → Prop} {T : α → γ → Prop}
    (hT : ∀ x y z, R x y → S y z → T x z) {xs : List α} {ys : List β} {zs : List γ}
    (hR : List.Forall₂ R xs ys) (hS : List.Forall₂ S ys zs) : List.Forall₂ T xs zs := by
  induction hR generalizing zs with
  | nil =>
    cases hS
    exact .nil
  | cons hab _ ih =>
    cases hS with
    | cons hbc hrest => exact .cons (hT _ _ _ hab hbc) (ih hrest)

theorem map_eq_map_of_forall₂ {R : α → β → Prop} {xs : List α} {ys : List β} {f : α → γ}
    {g : β → γ} (h : List.Forall₂ R xs ys) (hR : ∀ x y, R x y → g y = f x) :
    ys.map g = xs.map f := by
  induction h with
  | nil => rfl
  | cons hab _ ih => rw [List.map_cons, List.map_cons, ih, hR _ _ hab]

-- What is picked on one side is picked on the other.
theorem map_filter_of_forall₂ {R : α → β → Prop} {xs : List α} {ys : List β} {p : α → Bool}
    {q : β → Bool} {f : α → γ} {g : β → γ} (h : List.Forall₂ R xs ys)
    (hp : ∀ x y, R x y → q y = p x) (hR : ∀ x y, R x y → g y = f x) :
    (ys.filter q).map g = (xs.filter p).map f := by
  induction h with
  | nil => rfl
  | @cons a b as bs hab _ ih =>
    rw [List.filter_cons, List.filter_cons, hp a b hab]
    by_cases ha : p a = true
    · rw [if_pos ha, if_pos ha, List.map_cons, List.map_cons, ih, hR a b hab]
    · rw [if_neg ha, if_neg ha, ih]

end Steps

/-! ## Collections -/

section Collections

variable {α β : Type} {path : Address} {collection : Collection}
  {document : Address → α → Except DeclFault β} {decls : List α} {docs : List β}

theorem documentAll_eq_ok :
    documentAll path collection document decls = .ok docs ↔
      List.Forall₂ (fun p y ↦ document p.1 p.2 = .ok y)
        (decls.mapIdx fun i d ↦ (path.child collection i, d)) docs := mapM_eq_ok

theorem getElem?_documentAll (h : documentAll path collection document decls = .ok docs) {i : Nat}
    {d : α} (hd : decls[i]? = some d) :
    ∃ y, docs[i]? = some y ∧ document (path.child collection i) d = .ok y := by
  have hp : (decls.mapIdx fun i d ↦ (path.child collection i, d))[i]? =
      some (path.child collection i, d) := by
    rw [List.getElem?_mapIdx, hd]
    rfl
  exact forall₂_getElem? (documentAll_eq_ok.mp h) hp

theorem mem_documentAll (h : documentAll path collection document decls = .ok docs) {y : β}
    (hy : y ∈ docs) :
    ∃ (i : Nat) (d : α), decls[i]? = some d ∧ document (path.child collection i) d = .ok y := by
  obtain ⟨p, hp, hd⟩ := exists_of_mem_right (documentAll_eq_ok.mp h) hy
  obtain ⟨i, hi, rfl⟩ := List.mem_mapIdx.mp hp
  exact ⟨i, decls[i], List.getElem?_eq_getElem hi, hd⟩

theorem forall₂_documentAll (h : documentAll path collection document decls = .ok docs) :
    List.Forall₂ (fun d y ↦ ∃ a, document a d = .ok y) decls docs := by
  have hd : (decls.mapIdx fun i d ↦ (path.child collection i, d)).map (·.2) = decls := by
    simp [List.mapIdx_eq_zipIdx_map, Function.comp_def, List.zipIdx_map_fst]
  rw [← hd, List.forall₂_map_left_iff]
  exact (documentAll_eq_ok.mp h).imp fun p y hy ↦ ⟨p.1, hy⟩

-- Documents that tell their own addresses have those of the collection, in order.
theorem map_address_documentAll {address : β → Address}
    (h : documentAll path collection document decls = .ok docs)
    (ha : ∀ a d y, document a d = .ok y → address y = a) :
    docs.map address = (List.range decls.length).map fun i : Nat ↦ path.child collection i := by
  rw [map_eq_map_of_forall₂ (documentAll_eq_ok.mp h) fun p y ↦ ha p.1 p.2 y]
  apply List.ext_getElem <;> simp

-- The addresses differ in their indices.
theorem nodup_address_documentAll {address : β → Address}
    (h : documentAll path collection document decls = .ok docs)
    (ha : ∀ a d y, document a d = .ok y → address y = a) : (docs.map address).Nodup := by
  rw [map_address_documentAll h ha]
  apply List.nodup_range.map
  intro i j hij
  have hij' : (i : Int) = j := by simpa [Address.child] using hij
  exact Int.natCast_inj.mp hij'

end Collections

theorem sortByName_perm {α : Type} (name : α → String) (docs : List α) :
    (sortByName name docs).Perm docs := List.mergeSort_perm docs _

/-! ## Fields -/

-- A oneof that gives no fault is there just for its members.
theorem FieldDecl.isSome_oneof? {oneofs : List OneofDecl} {f : FieldDecl} {name : Option String}
    (h : f.oneof? oneofs = .ok name) : name.isSome = f.isOneofMember := by
  unfold FieldDecl.oneof? at h
  unfold FieldDecl.isOneofMember
  split at h
  · rename_i index hi
    rw [hi]
    split at h
    · rename_i hp
      cases h
      simp [hp]
    · rename_i hp
      cases hn : oneofName oneofs index with
      | error fault => rw [hn] at h; cases h
      | ok n =>
        rw [hn] at h
        cases h
        simp [hp]
  · rename_i hi
    cases h
    simp [hi]

section Fields

variable [DescriptorPool] {ctx : DocContext} {oneofs : List OneofDecl} {path : Address}
  {f : FieldDecl} {doc : FieldDoc}

theorem FieldDecl.document_eq_ok (h : f.document ctx oneofs path = .ok doc) :
    ∃ options oneof, ctx.optionsOf .field f.options = .ok options ∧
      f.oneof? oneofs = .ok oneof ∧ doc =
        { address := path, number := f.number, name := f.name
          description := ctx.descriptionAt path
          label := f.shownLabel ctx.file.isProto3, type := f.typeNames ctx.file.package
          isMap := looksLikeMap (f.shownLabel ctx.file.isProto3) (f.typeNames ctx.file.package)
          mapKey := "", mapValue := "", oneof := oneof, defaultValue := f.defaultValue
          options := options } := by
  obtain ⟨options, ho, h⟩ := bind_eq_ok.mp h
  obtain ⟨oneof, hf, h⟩ := bind_eq_ok.mp h
  cases h
  exact ⟨options, oneof, ho, hf, rfl⟩

theorem FieldDecl.address_document (h : f.document ctx oneofs path = .ok doc) :
    doc.address = path := by
  obtain ⟨_, _, _, _, rfl⟩ := document_eq_ok h
  rfl

theorem FieldDecl.isSome_oneof_document (h : f.document ctx oneofs path = .ok doc) :
    doc.oneof.isSome = f.isOneofMember := by
  obtain ⟨_, _, _, ho, rfl⟩ := document_eq_ok h
  exact isSome_oneof? ho

end Fields

/-! ## Messages -/

namespace MessageDecl

/-- The members of oneofs among documented fields, each with the index of its oneof. -/
def oneofMembers (decls : List FieldDecl) (docs : List FieldDoc) : List (Int × FieldDoc) :=
  (decls.zip docs).filterMap fun (decl, doc) =>
    if decl.isOneofMember then decl.oneofIndex.map fun index => (index, doc) else none

/-- The documentation of the oneofs of a message, from that of its fields. -/
def oneofDocs (ctx : DocContext) (m : Placed MessageDecl) (docs : List FieldDoc) : List OneofDoc :=
  (groupByIndex (oneofMembers m.decl.fields docs)).map fun (index, docs) =>
    OneofDoc.ofMembers ctx m.address index docs

-- The members of oneofs are the fields that a oneof is named for.
theorem map_snd_oneofMembers {decls : List FieldDecl} {docs : List FieldDoc}
    (h : List.Forall₂ (fun d y ↦ y.oneof.isSome = d.isOneofMember) decls docs) :
    (oneofMembers decls docs).map (·.2) = docs.filter (·.oneof.isSome) := by
  induction h with
  | nil => rfl
  | @cons d y ds ys hdy _ ih =>
    rw [oneofMembers] at ih ⊢
    rw [List.zip_cons_cons, List.filterMap_cons, List.filter_cons, hdy]
    by_cases hm : d.isOneofMember = true
    · obtain ⟨index, hi⟩ : ∃ index, d.oneofIndex = some index := by
        rw [FieldDecl.isOneofMember, Bool.and_eq_true] at hm
        exact Option.isSome_iff_exists.mp hm.1
      simp only [hm, hi, if_true, Option.map_some, List.map_cons, ih]
    · simp only [hm, Bool.false_eq_true, if_false, ih]

theorem mem_oneofMembers {decls : List FieldDecl} {docs : List FieldDoc} {i : Nat}
    {d : FieldDecl} {y : FieldDoc} {k : Int} (hd : decls[i]? = some d) (hy : docs[i]? = some y)
    (hm : d.isOneofMember = true) (hk : d.oneofIndex = some k) :
    (k, y) ∈ oneofMembers decls docs := by
  apply List.mem_filterMap.mpr
  refine ⟨(d, y), List.mem_iff_getElem?.mpr ⟨i, ?_⟩, ?_⟩
  · rw [List.getElem?_zip_eq_some]
    exact ⟨hd, hy⟩
  · simp only [hm, hk, if_true, Option.map_some]

/-- The members of a oneof, by its index. -/
def membersAt (decls : List FieldDecl) (docs : List FieldDoc) (k : Int) : List FieldDoc :=
  ((oneofMembers decls docs).filter (·.1 == k)).map (·.2)

/-- There is one documented oneof for each index that a member gives. -/
theorem oneofDocs_eq_map (ctx : DocContext) (m : Placed MessageDecl) (docs : List FieldDoc) :
    oneofDocs ctx m docs = ((oneofMembers m.decl.fields docs).map (·.1)).eraseDups.map fun k ↦
      OneofDoc.ofMembers ctx m.address k (membersAt m.decl.fields docs k) := by
  rw [oneofDocs, groupByIndex, List.map_map]
  rfl

theorem flatMap_groupByIndex_perm {α : Type} (members : List (Int × α)) :
    ((groupByIndex members).flatMap (·.2)).Perm (members.map (·.2)) := by
  have hg : (groupByIndex members).flatMap (·.2) =
      ((members.map (·.1)).eraseDups.flatMap fun k ↦ members.filter (·.1 == k)).map (·.2) := by
    rw [groupByIndex, List.flatMap_map, List.map_flatMap]
  rw [hg]
  apply List.Perm.map
  apply Keys.flatMap_filter_perm (Keys.nodup_eraseDups _)
  intro a ha
  exact List.mem_eraseDups.mpr (List.mem_map_of_mem ha)

variable [DescriptorPool] {ctx : DocContext} {m : Placed MessageDecl} {doc : MessageDoc}

theorem document_eq_ok (h : document ctx m = .ok doc) :
    ∃ options extensions fields, ctx.optionsOf .message m.decl.options = .ok options ∧
      documentAll m.address .messageExtensions (fun path f ↦
        f.documentExtension ctx (inScope m.longName f.name)
          (some (ctx.names m.decl.name m.longName)) path) m.decl.extensions = .ok extensions ∧
      documentAll m.address .messageFields (FieldDecl.document ctx m.decl.oneofs)
        m.decl.fields = .ok fields ∧ doc =
        { names := ctx.names m.decl.name m.longName
          description := (ctx.file.sourceAt m.address).description
          hasExtensions := !m.decl.extensions.isEmpty, hasFields := !m.decl.fields.isEmpty
          hasOneofs := !(oneofDocs ctx m fields).isEmpty, extensions := extensions
          fields := fields.filter (·.oneof.isNone), oneofs := oneofDocs ctx m fields
          options := options, source := ctx.file.sourceAt m.address, internal := false } := by
  obtain ⟨options, ho, h⟩ := bind_eq_ok.mp h
  obtain ⟨extensions, he, h⟩ := bind_eq_ok.mp h
  obtain ⟨fields, hf, h⟩ := bind_eq_ok.mp h
  cases h
  exact ⟨options, extensions, fields, ho, he, hf, rfl⟩

theorem names_document (h : document ctx m = .ok doc) :
    doc.names = ctx.names m.decl.name m.longName := by
  obtain ⟨_, _, _, _, _, _, rfl⟩ := document_eq_ok h
  rfl

/-- Plain or in a oneof, every field of a message is documented, and no other. -/
theorem allFields_perm (h : document ctx m = .ok doc) :
    ∃ fields, documentAll m.address .messageFields (FieldDecl.document ctx m.decl.oneofs)
      m.decl.fields = .ok fields ∧ doc.allFields.Perm fields := by
  obtain ⟨options, extensions, fields, _, _, hf, rfl⟩ := document_eq_ok h
  refine ⟨fields, hf, ?_⟩
  -- The plain fields are split off; the others are grouped by their oneofs.
  have hmembers : (oneofMembers m.decl.fields fields).map (·.2) =
      fields.filter (·.oneof.isSome) := by
    apply map_snd_oneofMembers
    exact (forall₂_documentAll hf).imp fun d y ⟨_, hy⟩ ↦ FieldDecl.isSome_oneof_document hy
  have hflat : (oneofDocs ctx m fields).flatMap (·.fields) =
      (groupByIndex (oneofMembers m.decl.fields fields)).flatMap (·.2) := by
    rw [oneofDocs, List.flatMap_map]
    rfl
  have hsplit := List.filter_append_perm (fun f : FieldDoc ↦ f.oneof.isNone) fields
  simp only [Option.not_isNone] at hsplit
  rw [MessageDoc.allFields, hflat]
  refine List.Perm.trans (List.Perm.append_left _ ?_) hsplit
  rw [← hmembers]
  exact flatMap_groupByIndex_perm _

/-- One field of a documented message has the address of a given declaration. -/
theorem filter_allFields (h : document ctx m = .ok doc) {i : Nat} {d : FieldDecl}
    (hd : m.decl.fields[i]? = some d) :
    ∃ f, doc.allFields.filter (·.address == m.address ++ [2, (i : Int)]) = [f] ∧
      d.document ctx m.decl.oneofs (m.address ++ [2, (i : Int)]) = .ok f := by
  obtain ⟨fields, hf, hp⟩ := allFields_perm h
  obtain ⟨f, hfi, hdoc⟩ := getElem?_documentAll hf hd
  have haddr : f.address = m.address ++ [2, (i : Int)] := FieldDecl.address_document hdoc
  -- Grouping moves fields only, and no two of them have one address.
  have hnodup : (fields.map (·.address)).Nodup :=
    nodup_address_documentAll hf fun _ _ _ ↦ FieldDecl.address_document
  refine ⟨f, ?_, hdoc⟩
  rw [← haddr]
  exact Keys.filter_eq_singleton_of_perm hnodup (List.mem_of_getElem? hfi) hp

end MessageDecl

/-! ## Enumerations, extensions and services -/

section Others

variable [DescriptorPool] {ctx : DocContext} {path : Address}

theorem EnumValueDecl.document_eq_ok {v : EnumValueDecl} {doc : EnumValueDoc}
    (h : v.document ctx path = .ok doc) :
    ∃ options, ctx.optionsOf .enumValue v.options = .ok options ∧ doc =
      { address := path, name := v.name, number := v.number
        description := ctx.descriptionAt path, options := options } := by
  obtain ⟨options, ho, h⟩ := bind_eq_ok.mp h
  cases h
  exact ⟨options, ho, rfl⟩

theorem EnumDecl.document_eq_ok {e : Placed EnumDecl} {doc : EnumDoc}
    (h : EnumDecl.document ctx e = .ok doc) :
    ∃ options values, ctx.optionsOf .enumeration e.decl.options = .ok options ∧
      documentAll e.address .enumValues (EnumValueDecl.document ctx) e.decl.values = .ok values ∧
      doc =
        { names := ctx.names e.decl.name e.longName
          description := (ctx.file.sourceAt e.address).description, values := values
          options := options, source := ctx.file.sourceAt e.address } := by
  obtain ⟨options, ho, h⟩ := bind_eq_ok.mp h
  obtain ⟨values, hv, h⟩ := bind_eq_ok.mp h
  cases h
  exact ⟨options, values, ho, hv, rfl⟩

theorem EnumDecl.names_document {e : Placed EnumDecl} {doc : EnumDoc}
    (h : EnumDecl.document ctx e = .ok doc) : doc.names = ctx.names e.decl.name e.longName := by
  obtain ⟨_, _, _, _, rfl⟩ := document_eq_ok h
  rfl

theorem FieldDecl.documentExtension_eq_ok {f : FieldDecl} {long : String} {scope : Option Naming}
    {doc : ExtensionDoc} (h : f.documentExtension ctx long scope path = .ok doc) :
    ∃ options, ctx.optionsOf .ext f.options = .ok options ∧ doc =
      { address := path, names := ctx.names f.name long
        description := ctx.descriptionAt path, label := f.shownLabel ctx.file.isProto3
        type := f.typeNames ctx.file.package, number := f.number, defaultValue := f.defaultValue
        containing := ctx.typeNames f.extendee, scope := scope, options := options } := by
  obtain ⟨options, ho, h⟩ := bind_eq_ok.mp h
  cases h
  exact ⟨options, ho, rfl⟩

theorem MethodDecl.document_eq_ok {m : MethodDecl} {doc : MethodDoc}
    (h : m.document ctx path = .ok doc) :
    ∃ options, ctx.optionsOf .method m.options = .ok options ∧ doc =
      { address := path, name := m.name, description := ctx.descriptionAt path
        request := ctx.typeNames m.input, requestStreaming := m.clientStreaming
        response := ctx.typeNames m.output, responseStreaming := m.serverStreaming
        options := options } := by
  obtain ⟨options, ho, h⟩ := bind_eq_ok.mp h
  cases h
  exact ⟨options, ho, rfl⟩

theorem ServiceDecl.document_eq_ok {s : ServiceDecl} {doc : ServiceDoc}
    (h : s.document ctx path = .ok doc) :
    ∃ options methods, ctx.optionsOf .service s.options = .ok options ∧
      documentAll path .serviceMethods (MethodDecl.document ctx) s.methods = .ok methods ∧ doc =
        { names := ctx.names s.name s.name
          description := (ctx.file.sourceAt path).description, methods := methods
          options := options, source := ctx.file.sourceAt path } := by
  obtain ⟨options, ho, h⟩ := bind_eq_ok.mp h
  obtain ⟨methods, hm, h⟩ := bind_eq_ok.mp h
  cases h
  exact ⟨options, methods, ho, hm, rfl⟩

end Others

/-! ## Files -/

namespace FileDecl

variable [DescriptorPool] {registry : Option Registry} {f : FileDecl} {doc : FileDoc}

theorem document_eq_ok (h : f.document registry = .ok doc) :
    ∃ options enums messages extensions services,
      DocContext.optionsOf ⟨f, registry⟩ .file f.options = .ok options ∧
      f.allEnums.mapM (EnumDecl.document ⟨f, registry⟩) = .ok enums ∧
      f.allMessages.mapM (MessageDecl.document ⟨f, registry⟩) = .ok messages ∧
      documentAll Address.file .fileExtensions (fun path e ↦
        e.documentExtension ⟨f, registry⟩ e.name none path) f.extensions = .ok extensions ∧
      documentAll Address.file .fileServices (ServiceDecl.document ⟨f, registry⟩)
        f.services = .ok services ∧ doc =
        { name := f.name, package := f.package
          description := Comment.clean (f.sourceAt Address.syntaxStatement).leading
          hasEnums := !f.enums.isEmpty, hasExtensions := !f.extensions.isEmpty
          hasMessages := !f.messages.isEmpty, hasServices := !f.services.isEmpty
          enums := sortByName (·.names.long) enums
          extensions := sortByName (·.names.long) extensions
          messages := sortByName (·.names.long) messages
          services := sortByName (·.names.long) services
          options := options } := by
  obtain ⟨options, ho, h⟩ := bind_eq_ok.mp h
  obtain ⟨enums, he, h⟩ := bind_eq_ok.mp h
  obtain ⟨messages, hm, h⟩ := bind_eq_ok.mp h
  obtain ⟨extensions, hx, h⟩ := bind_eq_ok.mp h
  obtain ⟨services, hs, h⟩ := bind_eq_ok.mp h
  cases h
  exact ⟨options, enums, messages, extensions, services, ho, he, hm, hx, hs, rfl⟩

theorem name_document (h : f.document registry = .ok doc) : doc.name = f.name := by
  obtain ⟨_, _, _, _, _, _, _, _, _, _, rfl⟩ := document_eq_ok h
  rfl

theorem package_document (h : f.document registry = .ok doc) : doc.package = f.package := by
  obtain ⟨_, _, _, _, _, _, _, _, _, _, rfl⟩ := document_eq_ok h
  rfl

/-- The messages of a documented file are its messages, in another order. -/
theorem messages_document (h : f.document registry = .ok doc) :
    ∃ messages, List.Forall₂ (fun m d ↦ MessageDecl.document ⟨f, registry⟩ m = .ok d)
      f.allMessages messages ∧ doc.messages.Perm messages := by
  obtain ⟨_, _, messages, _, _, _, _, hm, _, _, rfl⟩ := document_eq_ok h
  exact ⟨messages, mapM_eq_ok.mp hm, sortByName_perm _ _⟩

theorem exists_message_document (h : f.document registry = .ok doc) {m : Placed MessageDecl}
    (hm : m ∈ f.allMessages) :
    ∃ d ∈ doc.messages, MessageDecl.document ⟨f, registry⟩ m = .ok d := by
  obtain ⟨messages, hall, hp⟩ := messages_document h
  obtain ⟨d, hd, hdoc⟩ := exists_of_mem_left hall hm
  exact ⟨d, hp.mem_iff.mpr hd, hdoc⟩

theorem exists_decl_of_mem (h : f.document registry = .ok doc) {d : MessageDoc}
    (hd : d ∈ doc.messages) :
    ∃ m ∈ f.allMessages, MessageDecl.document ⟨f, registry⟩ m = .ok d := by
  obtain ⟨messages, hall, hp⟩ := messages_document h
  exact exists_of_mem_right hall (hp.mem_iff.mp hd)

theorem exists_enum_document (h : f.document registry = .ok doc) {e : Placed EnumDecl}
    (he : e ∈ f.allEnums) : ∃ d ∈ doc.enums, EnumDecl.document ⟨f, registry⟩ e = .ok d := by
  obtain ⟨_, enums, _, _, _, _, hall, _, _, _, rfl⟩ := document_eq_ok h
  obtain ⟨d, hd, hdoc⟩ := exists_of_mem_left (mapM_eq_ok.mp hall) he
  exact ⟨d, (sortByName_perm _ _).mem_iff.mpr hd, hdoc⟩

theorem exists_enum_of_mem (h : f.document registry = .ok doc) {d : EnumDoc}
    (hd : d ∈ doc.enums) :
    ∃ e ∈ f.allEnums, EnumDecl.document ⟨f, registry⟩ e = .ok d := by
  obtain ⟨_, enums, _, _, _, _, he, _, _, _, rfl⟩ := document_eq_ok h
  exact exists_of_mem_right (mapM_eq_ok.mp he) ((sortByName_perm _ _).mem_iff.mp hd)

/-- The full name of a message of a file. -/
def fullName (f : FileDecl) (m : Placed MessageDecl) : String := inScope f.package m.longName

/-- The full names of the messages of some files, those inside messages included. -/
def messageNames (files : List FileDecl) : List String :=
  files.flatMap fun f ↦ f.allMessages.map f.fullName

/-- The full names of the messages of a documented file. -/
theorem map_full_document_perm (h : f.document registry = .ok doc) :
    (doc.messages.map (·.names.full)).Perm (f.allMessages.map f.fullName) := by
  obtain ⟨messages, hall, hp⟩ := messages_document h
  have hnames : messages.map (·.names.full) = f.allMessages.map f.fullName :=
    map_eq_map_of_forall₂ hall fun m d hd ↦ by rw [MessageDecl.names_document hd]; rfl
  exact hnames ▸ hp.map (·.names.full)

end FileDecl
end ProtoCatalog
