import ProtoCatalog.Proofs.Merging
import ProtoCatalog.Proofs.Projecting
import ProtoCatalog.Proofs.WellFormed
import ProtoCatalog.Schema.Annotations

/-!
# Which source an option is from

The options of a declaration come from the built-in ones, from the projected options message and
from transforms, in this order.  A projection has every extension that is set, so what a transform
gives for one is shown only where the options message has no projection.
-/

namespace ProtoCatalog

/-! ## Transformed extensions -/

namespace Registry

-- Only a method's rule has a transform in the standard registry.
theorem standard_find?_eq_some {name : String} {transform : Transform}
    (h : standard.transforms.find? name = some transform) :
    name = HttpRule.extensionName ∧ transform = HttpRule.transform := by
  rw [standard, register, Table.find?_insert] at h
  split at h
  · rename_i hn
    exact ⟨hn, (Option.some.inj h).symm⟩
  · cases h

variable [DescriptorPool]

/-- Every transform takes the value of its extension. -/
def Accepts (g : Registry) (t : MessageType) (options : Record) : Prop :=
  ∀ e ∈ options, ∀ x ∈ g.entry? t e, ∃ v, x.2 = .ok v

theorem entry?_eq_some {g : Registry} {t : MessageType} {e : Nat × Datum}
    {x : String × Except TransformFault Json} :
    g.entry? t e = some x ↔ ∃ spec name transform, t.field? e.1 = some spec ∧
      spec.fullName? = some name ∧ g.transforms.find? name = some transform ∧
      x = (name, transform spec.kind e.2) := by
  unfold entry?
  simp only [bind, Option.bind_eq_some_iff, pure, Option.some.injEq]
  constructor
  · rintro ⟨spec, hs, name, hn, transform, ht, rfl⟩
    exact ⟨spec, name, transform, hs, hn, ht, rfl⟩
  · rintro ⟨spec, name, transform, hs, hn, ht, rfl⟩
    exact ⟨spec, hs, name, hn, transform, ht, rfl⟩

theorem apply_eq_ok {g : Registry} {t : MessageType} {options : Record} {m : OptionMap} :
    g.apply t options = .ok m ↔ ∃ entries,
      List.Forall₂ (fun x y ↦ y.1 = x.1 ∧ x.2 = .ok y.2) (options.filterMap (g.entry? t)) entries ∧
        m = Table.ofList entries := by
  have hone : ∀ (x : String × Except TransformFault Json) (y : String × Json),
      (do return (x.1, ← x.2) : Except TransformFault (String × Json)) = .ok y ↔
        y.1 = x.1 ∧ x.2 = .ok y.2 := by
    intro x y
    obtain ⟨name, result⟩ := x
    cases result with
    | error fault => simp [bind, Except.bind]
    | ok v =>
      obtain ⟨key, value⟩ := y
      simp [bind, Except.bind, pure, Except.pure, eq_comm]
  rw [apply, bind_eq_ok]
  simp only [mapM_eq_ok, hone]
  constructor
  · rintro ⟨entries, he, h⟩
    cases h
    exact ⟨entries, he, rfl⟩
  · rintro ⟨entries, he, rfl⟩
    exact ⟨entries, he, rfl⟩

theorem exists_apply_eq_ok {g : Registry} {t : MessageType} {options : Record} :
    (∃ m, g.apply t options = .ok m) ↔ g.Accepts t options := by
  simp only [apply_eq_ok]
  constructor
  · rintro ⟨_, entries, h, -⟩ e he x hx
    obtain ⟨y, -, -, hy⟩ := exists_of_mem_left h (List.mem_filterMap.mpr ⟨e, he, hx⟩)
    exact ⟨y.2, hy⟩
  · intro h
    have hall : ∀ x ∈ options.filterMap (g.entry? t), ∃ y : String × Json,
        y.1 = x.1 ∧ x.2 = .ok y.2 := by
      intro x hx
      obtain ⟨e, he, hex⟩ := List.mem_filterMap.mp hx
      obtain ⟨v, hv⟩ := h e he x hex
      exact ⟨(x.1, v), rfl, hv⟩
    obtain ⟨entries, hentries⟩ := exists_forall₂ hall
    exact ⟨_, entries, hentries, rfl⟩

/-- Set extensions have different names, so each transformed value is found under its own. -/
theorem find?_apply {g : Registry} {kind : DeclKind} {options : Record} (ho : options.Ordered)
    {number : Nat} {d : Datum} (hd : (number, d) ∈ options) {spec : FieldSpec}
    (hspec : kind.optionsType.field? number = some spec) {name : String}
    (hname : spec.fullName? = some name) {transform : Transform}
    (ht : g.transforms.find? name = some transform) {v : Json}
    (hv : transform spec.kind d = .ok v) {m : OptionMap}
    (h : g.apply kind.optionsType options = .ok m) : Table.find? m name = some v := by
  obtain ⟨entries, hentries, rfl⟩ := apply_eq_ok.mp h
  have hnames : entries.map (·.1) = (options.filterMap (g.entry? kind.optionsType)).map (·.1) :=
    map_eq_map_of_forall₂ hentries fun _ _ hy ↦ hy.1
  have hnodup : ((options.filterMap (g.entry? kind.optionsType)).map (·.1)).Nodup := by
    apply List.pairwise_map.mpr
    apply List.Pairwise.filterMap _ _ ho
    -- Two entries of one name are of one number, and the numbers ascend.
    intro a b hab x hx y hy he
    obtain ⟨f, n, _, hf, hfn, -, rfl⟩ := entry?_eq_some.mp hx
    obtain ⟨f', n', _, hf', hfn', -, rfl⟩ := entry?_eq_some.mp hy
    have hn : n = n' := he
    obtain ⟨hfin, hfnum⟩ := MessageType.field?_eq_some hf
    obtain ⟨hfin', hfnum'⟩ := MessageType.field?_eq_some hf'
    have hfield : f = f' := DeclKind.eq_of_fullName? hfin hfin' hfn (hn ▸ hfn')
    rw [← hfnum, ← hfnum', hfield] at hab
    exact Nat.lt_irrefl _ hab
  have hentry : g.entry? kind.optionsType (number, d) = some (name, transform spec.kind d) :=
    entry?_eq_some.mpr ⟨spec, name, transform, hspec, hname, ht, rfl⟩
  have hin : (name, transform spec.kind d) ∈ options.filterMap (g.entry? kind.optionsType) :=
    List.mem_filterMap.mpr ⟨_, hd, hentry⟩
  obtain ⟨y, hy, hy1, hy2⟩ := exists_of_mem_left hentries hin
  have hyv : y = (name, v) := by
    rw [hv] at hy2
    exact Prod.ext hy1 (Except.ok.inj hy2).symm
  exact Table.find?_ofList_of_mem (hnames ▸ hnodup) (hyv ▸ hy)

end Registry

/-! ## The sources of options -/

namespace Options

section Sources

variable [DescriptorPool]

/-- The options message gives no options of its own at most for a number that JSON has not. -/
def Readable (t : MessageType) (options : Record) : Prop :=
  ∀ fault, options.project t = .error fault → ∃ field isNaN, fault = .nonFinite field isNaN

theorem exists_raw_eq_ok {t : MessageType} {options : Record} :
    (∃ r, raw t options = .ok r) ↔ Readable t options := by
  unfold raw Readable
  cases hp : options.project t with
  | ok ms =>
    constructor
    · intro _ fault h
      cases h
    · intro _
      exact ⟨_, rfl⟩
  | error fault =>
    cases fault with
    | nonFinite field isNaN =>
      constructor
      · intro _ fault h
        exact ⟨field, isNaN, (Except.error.inj h).symm⟩
      · intro _
        exact ⟨_, rfl⟩
    | unknownType url =>
      constructor
      · rintro ⟨_, h⟩
        cases h
      · intro h
        obtain ⟨_, _, he⟩ := h _ rfl
        cases he
    | undecodable type fault =>
      constructor
      · rintro ⟨_, h⟩
        cases h
      · intro h
        obtain ⟨_, _, he⟩ := h _ rfl
        cases he

/-- A declaration's own options message has the fields that its built-in options are read from,
and only the flag and the level of a method are built in. -/
theorem exists_builtin (kind : DeclKind) (options : Record) :
    ∃ b, builtin kind kind.optionsType options = .ok b ∧
      ∀ key ∈ b.keys, key = deprecatedName ∨ kind = .method ∧ key = levelName := by
  have hflag : ∀ e ∈ deprecated kind.optionsType options, e.1 = deprecatedName := by
    intro e he
    unfold deprecated at he
    split at he
    · rw [List.mem_singleton.mp he]
    · exact absurd he List.not_mem_nil
  by_cases hk : kind = .method
  · -- Just methods have a level besides the flag.
    subst hk
    obtain ⟨own, hown, hkeys⟩ : ∃ own, level .methodOptions options = .ok own ∧
        ∀ e ∈ own, e.1 = levelName := by
      refine ⟨_, rfl, ?_⟩
      intro e he
      split at he
      · exact absurd he List.not_mem_nil
      · rw [List.mem_singleton.mp he]
    refine ⟨Table.ofList (deprecated .methodOptions options ++ own), ?_, ?_⟩
    · rw [builtin, if_pos rfl]
      exact bind_eq_ok.mpr ⟨own, hown, rfl⟩
    · intro key hkey
      obtain ⟨e, he, rfl⟩ := List.mem_map.mp (Table.mem_keys_ofList.mp hkey)
      rcases List.mem_append.mp he with he | he
      · exact .inl (hflag e he)
      · exact .inr ⟨rfl, hkeys e he⟩
  · refine ⟨Table.ofList (deprecated kind.optionsType options ++ []), ?_, ?_⟩
    · rw [builtin, if_neg hk]
      rfl
    · intro key hkey
      rw [List.append_nil] at hkey
      obtain ⟨e, he, rfl⟩ := List.mem_map.mp (Table.mem_keys_ofList.mp hkey)
      exact .inl (hflag e he)

theorem gather_eq_ok {g : Registry} {kind : DeclKind} {options : Record}
    {m : Option OptionMap} : gather (some g) kind options = .ok m ↔ ∃ p b r,
      g.apply kind.optionsType options = .ok p ∧ builtin kind kind.optionsType options = .ok b ∧
        raw kind.optionsType options = .ok r ∧ m = OptionMap.merge [some b, some r, some p] := by
  rw [gather, gatherAs]
  simp only [bind_eq_ok, transformed, mapError_eq_ok]
  constructor
  · rintro ⟨p, hp, b, hb, r, hr, h⟩
    cases h
    exact ⟨p, b, r, hp, hb, hr, rfl⟩
  · rintro ⟨p, b, r, hp, hb, hr, rfl⟩
    exact ⟨p, hp, b, hb, r, hr, rfl⟩

/-- A declaration has options just if no transform refuses its value and the options message is
readable. -/
theorem exists_gather_eq_ok {g : Registry} {kind : DeclKind} {options : Record} :
    (∃ m, gather (some g) kind options = .ok m) ↔
      g.Accepts kind.optionsType options ∧ Readable kind.optionsType options := by
  rw [← Registry.exists_apply_eq_ok, ← exists_raw_eq_ok]
  simp only [gather_eq_ok]
  constructor
  · rintro ⟨_, p, _, r, hp, -, hr, -⟩
    exact ⟨⟨p, hp⟩, r, hr⟩
  · rintro ⟨⟨p, hp⟩, r, hr⟩
    obtain ⟨b, hb, -⟩ := exists_builtin kind options
    exact ⟨_, p, b, r, hp, hb, hr, rfl⟩

/-! ## Registered extensions -/

/-- What options show of a set extension, with the value that a transform gives for it: a built-in
value of its name, else its projection, else the transformed value where the options message has no
projection. -/
structure ShowsExtension (kind : DeclKind) (options : Record) (spec : FieldSpec) (d : Datum)
    (name : String) (v : Json) (m : Option OptionMap) : Prop where
  of_builtin : ∀ b j, builtin kind kind.optionsType options = .ok b →
    Table.find? b name = some j → OptionMap.find? m name = some j
  of_projection : ∀ b ms, builtin kind kind.optionsType options = .ok b →
    Table.find? b name = none → options.project kind.optionsType = .ok ms →
    ∃ j, Projection.datum Projection.unpackAll kind.optionsType spec d = .ok j ∧
      OptionMap.find? m name = some j
  of_transform : ∀ b fault, builtin kind kind.optionsType options = .ok b →
    Table.find? b name = none → options.project kind.optionsType = .error fault →
    OptionMap.find? m name = some v

theorem showsExtension_gather {g : Registry} {kind : DeclKind} {options : Record}
    (ho : options.Ordered) {number : Nat} {d : Datum} (hd : (number, d) ∈ options)
    {spec : FieldSpec} (hspec : kind.optionsType.field? number = some spec) {name : String}
    (hname : spec.fullName? = some name) {transform : Transform}
    (ht : g.transforms.find? name = some transform) {v : Json}
    (hv : transform spec.kind d = .ok v) {m : Option OptionMap}
    (h : gather (some g) kind options = .ok m) : ShowsExtension kind options spec d name v m := by
  obtain ⟨p, b, r, hp, hb, hr, rfl⟩ := gather_eq_ok.mp h
  constructor
  · intro b' j hb' hj
    cases hb.symm.trans hb'
    rw [OptionMap.find?_merge, hj, Option.some_or]
  · intro b' ms hb' hn hms
    cases hb.symm.trans hb'
    obtain ⟨r', j, hr', hj, hrj⟩ := find?_raw ho hd hspec hname hms
    cases hr.symm.trans hr'
    refine ⟨j, hj, ?_⟩
    rw [OptionMap.find?_merge, hn, hrj, Option.none_or, Option.some_or]
  · intro b' fault hb' hn hf
    cases hb.symm.trans hb'
    -- Without a projection there are no raw options, so the transformed value is reached.
    have hempty : Table.find? r name = none := by
      unfold raw at hr
      rw [hf] at hr
      cases fault <;> cases hr
      rfl
    rw [OptionMap.find?_merge, hn, hempty, Option.none_or, Option.none_or]
    exact Registry.find?_apply ho hd hspec hname ht hv hp

/-- Whatever the bytes that files are loaded from, each of their declarations shows its extensions
so. -/
theorem showsExtension_of_load {path : String} {contents : Option (List UInt8)}
    {files : List FileDecl} (hload : DescriptorSet.load path contents = .ok files) {f : FileDecl}
    (hf : f ∈ files) {site : DeclKind × Record} (hsite : site ∈ f.optionSites) {g : Registry}
    {number : Nat} {d : Datum} (hd : (number, d) ∈ site.2) {spec : FieldSpec}
    (hspec : site.1.optionsType.field? number = some spec) {name : String}
    (hname : spec.fullName? = some name) {transform : Transform}
    (ht : g.transforms.find? name = some transform) {v : Json}
    (hv : transform spec.kind d = .ok v) {m : Option OptionMap}
    (h : gather (some g) site.1 site.2 = .ok m) : ShowsExtension site.1 site.2 spec d name v m :=
  showsExtension_gather (DescriptorSet.wellFormed_load hload f hf site hsite).ordered hd hspec hname
    ht hv h

-- The transform of rules takes whatever a method has for one.
theorem accepts_standard {number : Nat} {spec : FieldSpec}
    (hspec : MessageType.methodOptions.field? number = some spec)
    (hname : spec.fullName? = some HttpRule.extensionName)
    (hkind : spec.kind = .message .httpRule) (options : Record) :
    Registry.standard.Accepts .methodOptions options := by
  intro e _ x hx
  obtain ⟨f, name, transform, hf, hn, ht, rfl⟩ := Registry.entry?_eq_some.mp hx
  obtain ⟨rfl, rfl⟩ := Registry.standard_find?_eq_some ht
  -- No other extension has the name of a rule.
  have hin : f ∈ DeclKind.method.optionsType.fields := (MessageType.field?_eq_some hf).1
  rw [DeclKind.eq_of_fullName? hin (MessageType.field?_eq_some hspec).1 hn hname, hkind]
  exact ⟨_, rfl⟩

/-- A rule as the list of its bindings. -/
def flattened (rule : Record) : Json :=
  .obj [("rules", .arr ((HttpRule.bindings rule).map HttpBinding.toJson))]

/-- Registered extensions take effect after all else, whatever extensions there are.  A declaration
has options just if no transform refuses its value and the options message is readable; under the
name of a set extension with a transform they then show a built-in value, else the projected value,
and the transformed value just where the options message has no projection.  Under the standard
registry a method with a rule shows the projected rule, and its list of bindings just where there is
no projection. -/
theorem registered_extension_shown :
    (∀ (g : Registry) (kind : DeclKind) (options : Record),
      ((∃ m, gather (some g) kind options = .ok m) ↔
        g.Accepts kind.optionsType options ∧ Readable kind.optionsType options) ∧
      (∃ b, builtin kind kind.optionsType options = .ok b ∧
        ∀ key ∈ b.keys, key = deprecatedName ∨ kind = .method ∧ key = levelName) ∧
      ∀ number d spec name transform v m, options.Ordered → (number, d) ∈ options →
        kind.optionsType.field? number = some spec → spec.fullName? = some name →
        g.transforms.find? name = some transform → transform spec.kind d = .ok v →
        gather (some g) kind options = .ok m → ShowsExtension kind options spec d name v m) ∧
    ∀ (number : Nat) (spec : FieldSpec) (options rule : Record),
      MessageType.methodOptions.field? number = some spec →
      spec.fullName? = some HttpRule.extensionName → spec.kind = .message .httpRule →
      options.Ordered → (number, .record rule) ∈ options →
      ((∃ m, gather (some .standard) .method options = .ok m) ↔
        Readable .methodOptions options) ∧
      ∀ m, gather (some .standard) .method options = .ok m →
        (∀ ms, options.project .methodOptions = .ok ms → ∃ j,
          Projection.datum Projection.unpackAll .methodOptions spec (.record rule) = .ok j ∧
            OptionMap.find? m HttpRule.extensionName = some j) ∧
        ∀ fault, options.project .methodOptions = .error fault →
          OptionMap.find? m HttpRule.extensionName = some (flattened rule) := by
  constructor
  · intro g kind options
    refine ⟨exists_gather_eq_ok, exists_builtin kind options, ?_⟩
    intro number d spec name transform v m ho hd hspec hname ht hv hm
    exact showsExtension_gather ho hd hspec hname ht hv hm
  · intro number spec options rule hspec hname hkind ho hd
    constructor
    · rw [exists_gather_eq_ok]
      exact and_iff_right (accepts_standard hspec hname hkind options)
    · intro m hm
      have ht : Registry.standard.transforms.find? HttpRule.extensionName =
          some HttpRule.transform := rfl
      have hv : HttpRule.transform spec.kind (.record rule) = .ok (flattened rule) := by
        rw [hkind]
        rfl
      have hfield : DeclKind.method.optionsType.field? number = some spec := hspec
      have hshows := showsExtension_gather ho hd hfield hname ht hv hm
      obtain ⟨b, hb, hkeys⟩ := exists_builtin .method options
      -- A rule has neither the name of the flag nor that of the level.
      have hnone : Table.find? b HttpRule.extensionName = none := by
        apply Option.eq_none_iff_forall_ne_some.mpr
        intro j hj
        rcases hkeys _ (Table.mem_keys_iff.mpr ⟨j, hj⟩) with he | ⟨-, he⟩
        · exact absurd he (by decide)
        · exact absurd he (by decide)
      constructor
      · intro ms hms
        exact hshows.of_projection b ms hb hnone hms
      · intro fault hf
        exact hshows.of_transform b fault hb hnone hf

end Sources

/-! ## A rule for reading items -/

def itemsRule : Record := [(2, .text "/v1/items")]

/-- The options of a method with just the rule. -/
def ruleOptions : Record := [(72295728, .record itemsRule)]

/-- The options of a method with the rule, and with a value that is no number. -/
def unprojectedOptions : Record :=
  [(50004, .record [(2, .double ⟨0x7FF8000000000000⟩)]), (72295728, .record itemsRule)]

attribute [local instance] Annotations.pool

theorem field?_rule :
    MessageType.methodOptions.field? 72295728 = some Annotations.httpRule.field := by
  decide +kernel

/-- Where the options message has no projection, the list of bindings is shown. -/
theorem registered_extension_shown_items :
    ∃ m, gather (some .standard) .method unprojectedOptions = .ok m ∧
      OptionMap.find? m HttpRule.extensionName = some (flattened itemsRule) := by
  obtain ⟨-, hhttp⟩ := registered_extension_shown
  have ho : unprojectedOptions.Ordered := by decide
  have hin : (72295728, .record itemsRule) ∈ unprojectedOptions :=
    List.mem_cons_of_mem _ List.mem_cons_self
  obtain ⟨hok, hshown⟩ :=
    hhttp 72295728 _ unprojectedOptions itemsRule field?_rule (by decide) rfl ho hin
  have hfault : unprojectedOptions.project .methodOptions =
      .error (.nonFinite (some "method_value") true) := by decide +kernel
  have hreadable : Readable .methodOptions unprojectedOptions := by
    intro fault hf
    rw [hfault] at hf
    exact ⟨_, _, (Except.error.inj hf).symm⟩
  obtain ⟨m, hm⟩ := hok.mpr hreadable
  exact ⟨m, hm, (hshown m hm).2 _ hfault⟩

/-- Anywhere else the projected rule is, and the list of bindings is not. -/
theorem registered_extension_not_shown_items :
    ruleOptions.Ordered ∧ (72295728, .record itemsRule) ∈ ruleOptions ∧
      HttpRule.transform (.message .httpRule) (.record itemsRule) = .ok (flattened itemsRule) ∧
      ∃ m, gather (some .standard) .method ruleOptions = .ok m ∧
        OptionMap.find? m HttpRule.extensionName = some (.obj [("get", .str "/v1/items")]) ∧
        OptionMap.find? m HttpRule.extensionName ≠ some (flattened itemsRule) := by
  refine ⟨by decide, List.mem_singleton.mpr rfl, rfl, ?_⟩
  apply exists_ok
  decide +kernel

end Options
end ProtoCatalog
