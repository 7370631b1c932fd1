import ProtoCatalog.Catalog.Note
import ProtoCatalog.Proofs.Settling

/-!
# Which files are accepted

A file is documented just if each of its options messages gives options, and no member of a oneof
counts it from the end of the oneofs past their beginning.  Files are accepted together just if each
of them is.
-/

namespace ProtoCatalog

/-! ## Steps that succeed -/

section Steps

variable {ε α β : Type}

theorem exists_mapError_eq_ok {δ : Type} {f : ε → δ} {x : Except ε α} :
    (∃ a, x.mapError f = .ok a) ↔ ∃ a, x = .ok a := by
  simp only [mapError_eq_ok]

-- Whether the later steps succeed does not depend on what the first gives.
theorem exists_bind_eq_ok {x : Except ε α} {k : α → Except ε β} {P : Prop}
    (hk : ∀ a, (∃ b, k a = .ok b) ↔ P) :
    (∃ b, (x >>= k) = .ok b) ↔ (∃ a, x = .ok a) ∧ P := by
  simp only [bind_eq_ok]
  constructor
  · rintro ⟨b, a, ha, hb⟩
    exact ⟨⟨a, ha⟩, (hk a).mp ⟨b, hb⟩⟩
  · rintro ⟨⟨a, ha⟩, hP⟩
    obtain ⟨b, hb⟩ := (hk a).mpr hP
    exact ⟨b, a, ha, hb⟩

theorem exists_map_eq_ok {x : Except ε α} {g : α → β} :
    (∃ b, (do return g (← x) : Except ε β) = .ok b) ↔ ∃ a, x = .ok a := by
  have hpure : ∀ a, (∃ b, (pure (g a) : Except ε β) = .ok b) ↔ True :=
    fun a ↦ iff_true_intro ⟨g a, rfl⟩
  rw [exists_bind_eq_ok hpure, and_true]

theorem exists_mapM_eq_ok {f : α → Except ε β} {xs : List α} :
    (∃ ys, xs.mapM f = .ok ys) ↔ ∀ x ∈ xs, ∃ y, f x = .ok y := by
  simp only [mapM_eq_ok]
  constructor
  · rintro ⟨ys, h⟩ x hx
    obtain ⟨y, -, hy⟩ := exists_of_mem_left h hx
    exact ⟨y, hy⟩
  · exact exists_forall₂

theorem exists_documentAll_eq_ok {path : Address} {collection : Collection}
    {document : Address → α → Except DeclFault β} {decls : List α} {P : α → Prop}
    (hP : ∀ path d, (∃ y, document path d = .ok y) ↔ P d) :
    (∃ docs, documentAll path collection document decls = .ok docs) ↔ ∀ d ∈ decls, P d := by
  rw [documentAll, exists_mapM_eq_ok]
  simp only [hP]
  constructor
  · intro h d hd
    obtain ⟨i, hi, rfl⟩ := List.mem_iff_getElem.mp hd
    exact h (path.child collection i, decls[i]) (List.mem_mapIdx.mpr ⟨i, hi, rfl⟩)
  · rintro h p hp
    obtain ⟨i, hi, rfl⟩ := List.mem_mapIdx.mp hp
    exact h _ (List.getElem_mem hi)

end Steps

/-! ## Declarations -/

/-- The options message of a declaration gives options. -/
def Options.Given [DescriptorPool] (registry : Option Registry) (site : DeclKind × Record) : Prop :=
  ∃ m, Options.gather registry site.1 site.2 = .ok m

/-- A member of a oneof does not count it from the end past the beginning. -/
def FieldDecl.OneofInRange (oneofs : List OneofDecl) (f : FieldDecl) : Prop :=
  ∀ index, f.oneofIndex = some index → f.proto3Optional = false → -(oneofs.length : Int) ≤ index

theorem FieldDecl.exists_oneofName {oneofs : List OneofDecl} {index : Int} :
    (∃ name, oneofName oneofs index = .ok name) ↔ -(oneofs.length : Int) ≤ index := by
  have hrange : (if index < 0 then index + oneofs.length else index) < 0 ↔
      ¬-(oneofs.length : Int) ≤ index := by
    split <;> omega
  unfold oneofName
  simp only [hrange, ite_not]
  split
  · rename_i h
    exact iff_of_true ⟨_, rfl⟩ h
  · rename_i h
    apply iff_of_false _ h
    rintro ⟨_, he⟩
    cases he

theorem FieldDecl.exists_oneof? {oneofs : List OneofDecl} {f : FieldDecl} :
    (∃ name, f.oneof? oneofs = .ok name) ↔ f.OneofInRange oneofs := by
  unfold FieldDecl.oneof? OneofInRange
  cases hi : f.oneofIndex with
  | none =>
    constructor
    · intro _ index h
      cases h
    · intro _
      exact ⟨none, rfl⟩
  | some index =>
    cases hp : f.proto3Optional with
    | true =>
      constructor
      · intro _ _ _ h
        cases h
      · intro _
        exact ⟨none, rfl⟩
    | false =>
      simp only [Option.some.injEq, forall_eq', forall_const, ← exists_oneofName]
      exact exists_map_eq_ok

section Declarations

variable [DescriptorPool] {ctx : DocContext}

theorem exists_optionsOf {kind : DeclKind} {options : Record} :
    (∃ m, ctx.optionsOf kind options = .ok m) ↔ Options.Given ctx.registry (kind, options) :=
  exists_mapError_eq_ok

theorem EnumValueDecl.exists_document (path : Address) (v : EnumValueDecl) :
    (∃ doc, v.document ctx path = .ok doc) ↔
      Options.Given ctx.registry (.enumValue, v.options) := by
  rw [document, exists_map_eq_ok, exists_optionsOf]

theorem EnumDecl.exists_document (e : Placed EnumDecl) :
    (∃ doc, EnumDecl.document ctx e = .ok doc) ↔
      ∀ site ∈ e.decl.optionSites, Options.Given ctx.registry site := by
  rw [document, exists_bind_eq_ok fun _ ↦ exists_map_eq_ok, exists_optionsOf,
    exists_documentAll_eq_ok EnumValueDecl.exists_document, optionSites, List.forall_mem_cons,
    List.forall_mem_map]

theorem FieldDecl.exists_document (oneofs : List OneofDecl) (path : Address) (f : FieldDecl) :
    (∃ doc, f.document ctx oneofs path = .ok doc) ↔
      Options.Given ctx.registry (.field, f.options) ∧ f.OneofInRange oneofs := by
  rw [document, exists_bind_eq_ok fun _ ↦ exists_map_eq_ok, exists_optionsOf, exists_oneof?]

theorem FieldDecl.exists_documentExtension (long : String) (scope : Option Naming)
    (path : Address) (f : FieldDecl) :
    (∃ doc, f.documentExtension ctx long scope path = .ok doc) ↔
      Options.Given ctx.registry (.ext, f.options) := by
  rw [documentExtension, exists_map_eq_ok, exists_optionsOf]

-- Whatever names they are given, extensions need just their options.
theorem exists_extensions {path : Address} {collection : Collection} {long : FieldDecl → String}
    {scope : Option Naming} {extensions : List FieldDecl} :
    (∃ docs, documentAll path collection
      (fun path f ↦ f.documentExtension ctx (long f) scope path) extensions = .ok docs) ↔
      ∀ f ∈ extensions, Options.Given ctx.registry (.ext, f.options) :=
  exists_documentAll_eq_ok fun path f ↦ FieldDecl.exists_documentExtension (long f) scope path f

theorem MessageDecl.exists_document (m : Placed MessageDecl) :
    (∃ doc, MessageDecl.document ctx m = .ok doc) ↔
      (∀ site ∈ m.decl.optionSites, Options.Given ctx.registry site) ∧
        ∀ f ∈ m.decl.fields, f.OneofInRange m.decl.oneofs := by
  rw [document, exists_bind_eq_ok fun _ ↦ exists_bind_eq_ok fun _ ↦ exists_map_eq_ok,
    exists_optionsOf, exists_extensions,
    exists_documentAll_eq_ok (FieldDecl.exists_document _), optionSites, List.cons_append,
    List.forall_mem_cons, List.forall_mem_append, List.forall_mem_map, List.forall_mem_map]
  simp only [forall_and, and_assoc]

theorem MethodDecl.exists_document (path : Address) (m : MethodDecl) :
    (∃ doc, m.document ctx path = .ok doc) ↔
      Options.Given ctx.registry (.method, m.options) := by
  rw [document, exists_map_eq_ok, exists_optionsOf]

theorem ServiceDecl.exists_document (path : Address) (s : ServiceDecl) :
    (∃ doc, s.document ctx path = .ok doc) ↔
      ∀ site ∈ s.optionSites, Options.Given ctx.registry site := by
  rw [document, exists_bind_eq_ok fun _ ↦ exists_map_eq_ok, exists_optionsOf,
    exists_documentAll_eq_ok MethodDecl.exists_document, optionSites, List.forall_mem_cons,
    List.forall_mem_map]

end Declarations

/-! ## Files -/

/-- No member of a oneof of a file's messages counts it past the beginning. -/
def FileDecl.OneofsInRange (f : FileDecl) : Prop :=
  ∀ m ∈ f.allMessages, ∀ d ∈ m.decl.fields, d.OneofInRange m.decl.oneofs

theorem FileDecl.exists_document [DescriptorPool] {registry : Option Registry} {f : FileDecl} :
    (∃ doc, f.document registry = .ok doc) ↔
      (∀ site ∈ f.optionSites, Options.Given registry site) ∧ f.OneofsInRange := by
  unfold FileDecl.document
  rw [exists_bind_eq_ok fun _ ↦ exists_bind_eq_ok fun _ ↦ exists_bind_eq_ok fun _ ↦
      exists_bind_eq_ok fun _ ↦ exists_map_eq_ok,
    exists_optionsOf, exists_mapM_eq_ok, exists_mapM_eq_ok,
    exists_extensions, exists_documentAll_eq_ok ServiceDecl.exists_document]
  simp only [EnumDecl.exists_document, MessageDecl.exists_document, optionSites, OneofsInRange,
    List.cons_append, List.forall_mem_cons, List.forall_mem_append, List.forall_mem_flatMap,
    List.forall_mem_map, imp_and, forall_and]
  tauto

end ProtoCatalog
