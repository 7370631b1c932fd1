import ProtoCatalog.Proofs.Precedence
import ProtoCatalog.Proofs.Typing
import ProtoCatalog.Schema.Annotations

/-!
# Extensions with the name of a built-in option

Brackets keep extensions apart from the fields of an options message, and they go before options are
merged.  So an extension that is declared outside any package can have the name of a built-in
option.  It never takes the place of one that is set, and it is shown where none is.
-/

namespace ProtoCatalog

/-- Whether a value counts as true: null, zero and what is empty do not. -/
def Json.isTrue : Json → Bool
  | .null => false
  | .bool b => b
  | .int n => n != 0
  | .decimal d => d.digits != 0
  | .str s => s != ""
  | .arr items => !items.isEmpty
  | .obj members => !members.isEmpty

namespace Options

section Names

variable [DescriptorPool] {kind : DeclKind} {options : Record} {f : FieldSpec} {d : Datum}
  {name : String} {r : OptionMap}

/-- What the options message shows of a field: nothing where the field is not set or the message has
no projection. -/
def shown? (kind : DeclKind) (options : Record) (f : FieldSpec) : Option Json :=
  match options.project kind.optionsType with
  | .ok _ => (options.find? f.number).bind fun d =>
    (Projection.datum Projection.unpackAll kind.optionsType f d).toOption
  | .error _ => none

/-- What the options message shows of the extension with a fully-qualified name. -/
def namesake? (kind : DeclKind) (options : Record) (name : String) : Option Json :=
  (kind.optionsType.extensionNamed? name).bind (shown? kind options)

/-- What the options message shows of its flag. -/
def ownFlag? (kind : DeclKind) (options : Record) : Option Json :=
  (kind.optionsType.fieldNamed? deprecatedName).bind (shown? kind options)

/-! ## The fields with the name of a built-in option -/

theorem exists_flagField (kind : DeclKind) :
    ∃ f, kind.optionsType.fieldNamed? deprecatedName = some f ∧ f.kind = .bool ∧
      f.cardinality = .single ∧ plainKey f.key = deprecatedName := by
  cases kind <;> exact ⟨_, rfl, rfl, rfl, by decide +kernel⟩

theorem exists_levelField : ∃ f, MessageType.methodOptions.fieldNamed? levelName = some f ∧
    f.kind = .enumeration .idempotencyLevel ∧ f.cardinality = .single := ⟨_, rfl, rfl, rfl⟩

-- A field without a scope is not an extension.
theorem mem_ownFields (h : f ∈ kind.optionsType.fields) (hscope : f.scope = none) :
    f ∈ kind.optionsType.standardFields := by
  rcases MessageType.mem_fields.mp h with h | ⟨e, -, rfl⟩
  · rwa [DeclKind.ownFields_optionsType] at h
  · cases hscope

-- Of the fields just the flag has its key.
theorem fieldNamed?_of_plainKey (h : f ∈ kind.optionsType.fields) (hscope : f.scope = none)
    (hkey : plainKey f.key = deprecatedName) :
    kind.optionsType.fieldNamed? deprecatedName = some f := by
  have hone : ∀ f ∈ kind.optionsType.standardFields, plainKey f.key = deprecatedName →
      kind.optionsType.standardFields.find? (fun g ↦ g.scope.isNone && g.name == deprecatedName) =
        some f := by
    cases kind <;> decide +kernel
  rw [MessageType.fieldNamed?, MessageType.fields, DeclKind.ownFields_optionsType,
    List.find?_append, hone f (mem_ownFields h hscope) hkey, Option.some_or]

-- The level has a key in camel case, so no field has this one.
theorem plainKey_ne_level (h : f ∈ DeclKind.method.optionsType.fields) (hscope : f.scope = none) :
    plainKey f.key ≠ levelName := by
  have hnone : ∀ f ∈ DeclKind.method.optionsType.standardFields, plainKey f.key ≠ levelName := by
    decide +kernel
  exact hnone f (mem_ownFields h hscope)

/-- A field with the key of a built-in option is one of the options message's own, or it is the
extension of that name. -/
theorem own_or_namesake (h : f ∈ kind.optionsType.fields) (hkey : plainKey f.key = name) :
    f.scope = none ∨ kind.optionsType.extensionNamed? name = some f := by
  cases hscope : f.scope with
  | none => exact .inl rfl
  | some scope =>
    have hfull : f.fullName? = some (inScope scope f.name) := by
      rw [FieldSpec.fullName?, hscope]
      rfl
    have hplain := DeclKind.plainKey_extension h hfull
    right
    exact DeclKind.extensionNamed?_of_mem h (hfull.trans (congrArg some (hplain.symm.trans hkey)))

/-! ## What the options message shows -/

theorem shown?_of_error {fault : ProjectionFault}
    (hp : options.project kind.optionsType = .error fault) : shown? kind options f = none := by
  rw [shown?, hp]

theorem shown?_of_set (hf : kind.optionsType.field? f.number = some f)
    (hd : options.find? f.number = some d) {ms : List (String × Json)}
    (hp : options.project kind.optionsType = .ok ms) :
    ∃ j, Projection.datum Projection.unpackAll kind.optionsType f d = .ok j ∧
      shown? kind options f = some j := by
  obtain ⟨shown, hshown, -⟩ := bind_eq_ok.mp hp
  obtain ⟨j, hj, -⟩ := Projection.mem_members hshown (Record.mem_of_find? hd) hf
  refine ⟨j, hj, ?_⟩
  rw [shown?, hp]
  simp only [hd, Option.bind_some, hj]
  rfl

-- Of a field that may be there nothing is shown if it is not set.
theorem bind_shown?_eq_none {o : Option FieldSpec}
    (h : ¬∃ f ∈ o, ∃ d, options.find? f.number = some d) :
    o.bind (shown? kind options) = none := by
  rw [Option.bind_eq_none_iff]
  intro f hf
  have hunset : options.find? f.number = none :=
    Option.eq_none_iff_forall_ne_some.mpr fun d hd ↦ h ⟨f, hf, d, hd⟩
  unfold shown?
  rw [hunset]
  split <;> rfl

-- The set field with the greatest number of those with one key is shown under it.
theorem find?_raw_eq_shown? (ho : options.Ordered) (hf : kind.optionsType.field? f.number = some f)
    (hd : options.find? f.number = some d) (hkey : plainKey f.key = name)
    (hlater : ∀ e ∈ options, ∀ g ∈ kind.optionsType.field? e.1, f.number < g.number →
      plainKey g.key ≠ name) {ms : List (String × Json)}
    (hp : options.project kind.optionsType = .ok ms)
    (hr : raw kind.optionsType options = .ok r) :
    ∃ j, shown? kind options f = some j ∧ Table.find? r name = some j := by
  obtain ⟨r', j, hr', hj, hrj⟩ := find?_raw_last ho (Record.mem_of_find? hd) hf hkey hlater hp
  obtain ⟨j', hj', hshown⟩ := shown?_of_set hf hd hp
  cases hr.symm.trans hr'
  cases hj.symm.trans hj'
  exact ⟨j, hshown, hrj⟩

theorem exists_find?_of_mem {e : Nat × Datum} (he : e ∈ options)
    (hf : kind.optionsType.field? e.1 = some f) : ∃ d, options.find? f.number = some d := by
  rw [← Option.isSome_iff_exists, Record.find?, Option.isSome_map, List.find?_isSome]
  exact ⟨e, he, beq_iff_eq.mpr (MessageType.field?_eq_some hf).2.symm⟩

-- A key that no other set field has shows one field.
theorem find?_raw_own (ho : options.Ordered) {own : Option FieldSpec}
    (hown : ∀ f ∈ own, f ∈ kind.optionsType.fields ∧ plainKey f.key = name)
    (hkeyed : ∀ e ∈ options, ∀ f ∈ kind.optionsType.field? e.1, plainKey f.key = name →
      own = some f) {ms : List (String × Json)}
    (hp : options.project kind.optionsType = .ok ms)
    (hr : raw kind.optionsType options = .ok r) :
    Table.find? r name = own.bind (shown? kind options) := by
  by_cases hset : ∃ f ∈ own, ∃ d, options.find? f.number = some d
  · obtain ⟨f, hf, d, hd⟩ := hset
    obtain ⟨hin, hkey⟩ := hown f hf
    have hlater : ∀ e ∈ options, ∀ g ∈ kind.optionsType.field? e.1, f.number < g.number →
        plainKey g.key ≠ name := by
      intro e he g hg hlt hk
      cases hf.symm.trans (hkeyed e he g hg hk)
      exact Nat.lt_irrefl _ hlt
    obtain ⟨j, hj, hrj⟩ := find?_raw_eq_shown? ho (DeclKind.field?_of_mem hin) hd hkey hlater hp hr
    rw [hf, Option.bind_some, hj, hrj]
  · rw [bind_shown?_eq_none hset]
    apply find?_raw_eq_none _ hr
    intro e he f hf hkey
    exact hset ⟨f, hkeyed e he f hf hkey, exists_find?_of_mem he hf⟩

/-- Under a name that at most one of the options message's own fields has for its key, the extension
of that name is shown if it is set, and else the field. -/
theorem find?_raw_named (ho : options.Ordered) (hr : raw kind.optionsType options = .ok r)
    {own : Option FieldSpec}
    (hown : ∀ f ∈ own, f ∈ kind.optionsType.fields ∧ plainKey f.key = name)
    (honly : ∀ f ∈ kind.optionsType.fields, f.scope = none → plainKey f.key = name →
      own = some f) :
    Table.find? r name = (namesake? kind options name).or (own.bind (shown? kind options)) := by
  cases hp : options.project kind.optionsType with
  | error fault =>
    have hnone : shown? kind options = fun _ ↦ none := funext fun f ↦ shown?_of_error hp
    rw [raw, hp] at hr
    rw [namesake?, hnone, Option.bind_fun_none, Option.bind_fun_none]
    cases fault <;> cases hr
    rfl
  | ok ms =>
    by_cases hset : ∃ f ∈ kind.optionsType.extensionNamed? name,
        ∃ d, options.find? f.number = some d
    · obtain ⟨f, hf, d, hd⟩ := hset
      obtain ⟨hin, hname⟩ := MessageType.extensionNamed?_eq_some hf
      have hlater : ∀ e ∈ options, ∀ g ∈ kind.optionsType.field? e.1, f.number < g.number →
          plainKey g.key ≠ name := by
        intro e _ g hg hlt
        exact DeclKind.plainKey_ne_of_lt hin hname (MessageType.field?_eq_some hg).1 hlt
      obtain ⟨j, hj, hrj⟩ := find?_raw_eq_shown? ho (DeclKind.field?_of_mem hin) hd
        (DeclKind.plainKey_extension hin hname) hlater hp hr
      rw [namesake?, Option.mem_def.mp hf, Option.bind_some, hj, hrj, Option.some_or]
    · -- No extension of the name is set, so a set field with the key is the message's own.
      have hkeyed : ∀ e ∈ options, ∀ f ∈ kind.optionsType.field? e.1, plainKey f.key = name →
          own = some f := by
        intro e he f hf hkey
        have hin := (MessageType.field?_eq_some hf).1
        rcases own_or_namesake hin hkey with hscope | hext
        · exact honly f hin hscope hkey
        · exact absurd ⟨f, hext, exists_find?_of_mem he hf⟩ hset
      rw [namesake?, bind_shown?_eq_none hset, Option.none_or]
      exact find?_raw_own ho hown hkeyed hp hr

theorem find?_raw_deprecated (ho : options.Ordered)
    (hr : raw kind.optionsType options = .ok r) : Table.find? r deprecatedName =
      (namesake? kind options deprecatedName).or (ownFlag? kind options) := by
  apply find?_raw_named ho hr _ fun _ ↦ fieldNamed?_of_plainKey
  obtain ⟨flag, hflag, -, -, hkey⟩ := exists_flagField kind
  intro f hf
  cases hflag.symm.trans hf
  exact ⟨List.mem_of_find?_eq_some hflag, hkey⟩

theorem find?_raw_level {options : Record} (ho : options.Ordered) {r : OptionMap}
    (hr : raw .methodOptions options = .ok r) :
    Table.find? r levelName = namesake? .method options levelName := by
  have hnamed := @find?_raw_named _ .method options levelName r ho hr none
    (fun _ hf ↦ absurd hf (Option.not_mem_none _))
    (fun _ hf hscope hkey ↦ absurd hkey (plainKey_ne_level hf hscope))
  rwa [Option.bind_none, Option.or_none] at hnamed

/-! ## Values of the right kind -/

-- A flag that is not true is set to false, if it is set.
theorem ownFlag?_eq_false (ht : options.Typed kind.optionsType)
    (h : isDeprecated kind options = false) : ∀ v ∈ ownFlag? kind options, v = .bool false := by
  obtain ⟨flag, hflag, hkind, hsingle, -⟩ := exists_flagField kind
  have hf := DeclKind.field?_of_mem (List.mem_of_find?_eq_some hflag)
  intro v hv
  rw [isDeprecated, hflag, Option.any_some, Record.flag] at h
  rw [ownFlag?, hflag, Option.mem_def, Option.bind_some, shown?] at hv
  split at hv
  · obtain ⟨d, hd, hv⟩ := Option.bind_eq_some_iff.mp hv
    have hallows := ht _ (Record.mem_of_find? hd) flag hf
    rw [flag.allows_single hsingle, hkind] at hallows
    rw [hd] at h
    cases d with
    | bool b =>
      cases h
      cases hv
      rfl
    | _ => cases hallows
  · cases hv

-- The number of a level that is set has a name.
theorem exists_levelName {options : Record} (ht : options.Typed .methodOptions) {n : Int}
    (h : levelOf? options = some n) : ∃ name, EnumType.idempotencyLevel.name? n = some name := by
  obtain ⟨level, hlevel, hkind, hsingle⟩ := exists_levelField
  have hin : level ∈ DeclKind.method.optionsType.fields := List.mem_of_find?_eq_some hlevel
  have hf := DeclKind.field?_of_mem hin
  rw [levelOf?, hlevel, Option.bind_some, Record.int?] at h
  split at h
  · rename_i hd
    cases h
    have hallows := ht _ (Record.mem_of_find? hd) level hf
    rw [level.allows_single hsingle, hkind] at hallows
    exact Option.isSome_iff_exists.mp hallows
  · cases h

/-! ## Built-in names -/

/-- What options show under the names of the built-in options: those that are set, else what the
options message shows of an extension with the name.  A flag that is set to false is shown where no
extension is. -/
structure BuiltinNames (kind : DeclKind) (options : Record) (m : Option OptionMap) : Prop where
  flag_true : isDeprecated kind options = true →
    OptionMap.find? m deprecatedName = some (.bool true)
  flag_false : isDeprecated kind options = false → OptionMap.find? m deprecatedName =
    (namesake? kind options deprecatedName).or (ownFlag? kind options) ∧
      ∀ v ∈ ownFlag? kind options, v = .bool false
  flag_iff : (∃ v, OptionMap.find? m deprecatedName = some v ∧ v.isTrue = true) ↔
    isDeprecated kind options = true ∨
      ∃ v, namesake? kind options deprecatedName = some v ∧ v.isTrue = true
  level_set : kind = .method → ∀ n, levelOf? options = some n →
    ∃ name, EnumType.idempotencyLevel.name? n = some name ∧
      OptionMap.find? m levelName = some (.str name)
  level_unset : kind = .method → levelOf? options = none →
    OptionMap.find? m levelName = namesake? kind options levelName
  level_iff : kind = .method → ((∃ v, OptionMap.find? m levelName = some v) ↔
    (∃ n, levelOf? options = some n) ∨ (∃ ms, options.project kind.optionsType = .ok ms) ∧
      ∃ f ∈ kind.optionsType.extensionNamed? levelName, ∃ d, options.find? f.number = some d)

-- An extension is shown just if it is set and there is a projection.
theorem exists_namesake?_iff : (∃ v, namesake? kind options name = some v) ↔
    (∃ ms, options.project kind.optionsType = .ok ms) ∧
      ∃ f ∈ kind.optionsType.extensionNamed? name, ∃ d, options.find? f.number = some d := by
  constructor
  · rintro ⟨v, hv⟩
    constructor
    · cases hp : options.project kind.optionsType with
      | ok ms => exact ⟨ms, rfl⟩
      | error fault =>
        obtain ⟨f, -, hv⟩ := Option.bind_eq_some_iff.mp hv
        rw [shown?_of_error hp] at hv
        cases hv
    · by_contra hset
      rw [namesake?, bind_shown?_eq_none hset] at hv
      cases hv
  · rintro ⟨⟨ms, hp⟩, f, hf, d, hd⟩
    obtain ⟨j, -, hj⟩ := shown?_of_set (DeclKind.field?_of_mem (MessageType.extensionNamed?_eq_some hf).1) hd hp
    exact ⟨j, by rw [namesake?, Option.mem_def.mp hf, Option.bind_some, hj]⟩

section

variable {m : Option OptionMap}

/-- Without transforms a name is looked up among the built-in options and then in what the options
message shows. -/
theorem find?_gather_none (h : gather none kind options = .ok m) :
    ∃ b r, IsBuiltin kind options b ∧ raw kind.optionsType options = .ok r ∧
      ∀ name, OptionMap.find? m name = (Table.find? b name).or (Table.find? r name) := by
  obtain ⟨b, hb, hbuiltin⟩ := exists_isBuiltin kind options
  obtain ⟨r, hr, h⟩ := bind_eq_ok.mp ((gather_eq hb rfl).symm.trans h)
  refine ⟨b, r, hbuiltin, hr, ?_⟩
  intro name
  rw [← Except.ok.inj h, OptionMap.find?_merge, Table.find?_empty, Option.or_none]

theorem find?_flag_of_true (h : gather none kind options = .ok m)
    (hset : isDeprecated kind options = true) :
    OptionMap.find? m deprecatedName = some (.bool true) := by
  obtain ⟨b, r, hbuiltin, -, hfind⟩ := find?_gather_none h
  rw [hfind, hbuiltin.flag, if_pos hset, Option.some_or]

theorem find?_flag_of_false (ho : options.Ordered) (h : gather none kind options = .ok m)
    (hunset : isDeprecated kind options = false) : OptionMap.find? m deprecatedName =
      (namesake? kind options deprecatedName).or (ownFlag? kind options) := by
  obtain ⟨b, r, hbuiltin, hr, hfind⟩ := find?_gather_none h
  rw [hfind, hbuiltin.flag, hunset, if_neg Bool.false_ne_true, Option.none_or,
    find?_raw_deprecated ho hr]

/-- There is a true value under the name of the flag just if the flag is true or the extension of
that name shows one. -/
theorem find?_flag_true_iff (ho : options.Ordered) (ht : options.Typed kind.optionsType)
    (h : gather none kind options = .ok m) :
    (∃ v, OptionMap.find? m deprecatedName = some v ∧ v.isTrue = true) ↔
      isDeprecated kind options = true ∨
        ∃ v, namesake? kind options deprecatedName = some v ∧ v.isTrue = true := by
  cases hflag : isDeprecated kind options with
  | true => exact iff_of_true ⟨_, find?_flag_of_true h hflag, rfl⟩ (.inl rfl)
  | false =>
    rw [find?_flag_of_false ho h hflag]
    constructor
    · rintro ⟨v, hv, hvtrue⟩
      rcases Option.or_eq_some_iff.mp hv with hn | ⟨-, hown⟩
      · exact .inr ⟨v, hn, hvtrue⟩
      · rw [ownFlag?_eq_false ht hflag v hown] at hvtrue
        cases hvtrue
    · rintro (hset | ⟨v, hn, hvtrue⟩)
      · cases hset
      · exact ⟨v, by rw [hn, Option.some_or], hvtrue⟩

end

section

variable {options : Record} {m : Option OptionMap}

theorem find?_level_of_set (ht : options.Typed .methodOptions)
    (h : gather none .method options = .ok m) {n : Int} (hn : levelOf? options = some n) :
    ∃ name, EnumType.idempotencyLevel.name? n = some name ∧
      OptionMap.find? m levelName = some (.str name) := by
  obtain ⟨b, r, hbuiltin, -, hfind⟩ := find?_gather_none h
  obtain ⟨name, hname⟩ := exists_levelName ht hn
  refine ⟨name, hname, ?_⟩
  rw [hfind, hbuiltin.level, if_pos rfl, hn, Option.map_some, hname, Option.some_or,
    Option.getD_some]

theorem find?_level_of_unset (ho : options.Ordered) (h : gather none .method options = .ok m)
    (hn : levelOf? options = none) :
    OptionMap.find? m levelName = namesake? .method options levelName := by
  obtain ⟨b, r, hbuiltin, hr, hfind⟩ := find?_gather_none h
  rw [hfind, hbuiltin.level, if_pos rfl, hn, Option.map_none, Option.none_or,
    find?_raw_level ho hr]

/-- There is a value under the name of the level just if a level is set or the extension of that
name is shown. -/
theorem exists_find?_level_iff (ho : options.Ordered) (ht : options.Typed .methodOptions)
    (h : gather none .method options = .ok m) :
    (∃ v, OptionMap.find? m levelName = some v) ↔
      (∃ n, levelOf? options = some n) ∨ ∃ v, namesake? .method options levelName = some v := by
  cases hn : levelOf? options with
  | some n =>
    obtain ⟨name, -, hname⟩ := find?_level_of_set ht h hn
    exact iff_of_true ⟨_, hname⟩ (.inl ⟨n, rfl⟩)
  | none =>
    rw [find?_level_of_unset ho h hn]
    constructor
    · exact .inr
    · rintro (⟨n, hset⟩ | hshown)
      · cases hset
      · exact hshown

end

theorem builtinNames_gather (ho : options.Ordered) (ht : options.Typed kind.optionsType)
    {m : Option OptionMap} (h : gather none kind options = .ok m) :
    BuiltinNames kind options m := by
  constructor
  · exact find?_flag_of_true h
  · exact fun hunset ↦ ⟨find?_flag_of_false ho h hunset, ownFlag?_eq_false ht hunset⟩
  · exact find?_flag_true_iff ho ht h
  · rintro rfl n
    exact find?_level_of_set ht h
  · rintro rfl
    exact find?_level_of_unset ho h
  · rintro rfl
    rw [← exists_namesake?_iff]
    exact exists_find?_level_iff ho ht h

/-- Whatever the bytes that files are loaded from, each of their declarations shows these names so. -/
theorem builtinNames_of_load {path : String} {contents : Option (List UInt8)}
    {files : List FileDecl} (hload : DescriptorSet.load path contents = .ok files) {f : FileDecl}
    (hf : f ∈ files) {site : DeclKind × Record} (hsite : site ∈ f.optionSites)
    {m : Option OptionMap} (h : gather none site.1 site.2 = .ok m) :
    BuiltinNames site.1 site.2 m := by
  have hformed := DescriptorSet.wellFormed_load hload f hf site hsite
  exact builtinNames_gather hformed.ordered hformed.typed h

/-- A built-in option that is set is never overridden, and the name of one that is not set is free.
Without transforms a declaration has options just if its options message is readable.  A flag that
is true is shown as true, and the level that is set on a method by its symbolic name, whatever
extensions are set.  A flag that is not true, and a level that is not set, leave their names to an
extension that has one for its full name, so under the name of the flag there is a true value just
if the flag is true or such an extension shows one, and under that of the level there is a value
just if the level is set or the options message has a projection with such an extension. -/
theorem builtin_names_exact (ho : options.Ordered) (ht : options.Typed kind.optionsType) :
    ((∃ m, gather none kind options = .ok m) ↔ Readable kind.optionsType options) ∧
      ∀ m, gather none kind options = .ok m → BuiltinNames kind options m := by
  have hg : Given none (kind, options) ↔ Readable kind.optionsType options := given_iff nofun
  refine ⟨hg, ?_⟩
  exact fun m ↦ builtinNames_gather ho ht

end Names

/-! ## Names that are set and names that are free -/

attribute [local instance] Annotations.pool

/-- The options of a field that is explicitly not deprecated, and an extension with the name of the
flag. -/
def flagOptions : Record := [(3, .bool false), (50010, .text "soon")]

theorem project_flagOptions : flagOptions.project .fieldOptions =
    .ok [("deprecated", .bool false), ("[deprecated]", .str "soon")] := by decide +kernel

/-- The flag and the level of a method are shown, and not the extension; a flag that is set to false
gives way to one. -/
theorem builtin_names_exact_options :
    (∃ m, gather none .method levelOptions = .ok m ∧
      OptionMap.find? m deprecatedName = some (.bool true) ∧
      OptionMap.find? m levelName = some (.str "IDEMPOTENT")) ∧
    ∃ m, gather none .field flagOptions = .ok m ∧
      OptionMap.find? m deprecatedName = some (.str "soon") := by
  have hmethod : Readable DeclKind.method.optionsType levelOptions := by
    intro fault h
    rw [DeclKind.optionsType, project_levelOptions] at h
    cases h
  have hfield : Readable DeclKind.field.optionsType flagOptions := by
    intro fault h
    rw [DeclKind.optionsType, project_flagOptions] at h
    cases h
  constructor
  · obtain ⟨hreturns, hnames⟩ :=
      @builtin_names_exact _ .method levelOptions (by decide) (by decide +kernel)
    obtain ⟨m, hm⟩ := hreturns.mpr hmethod
    obtain ⟨name, hname, hlevel⟩ := (hnames m hm).level_set rfl 2 (by decide +kernel)
    cases hname
    exact ⟨m, hm, (hnames m hm).flag_true (by decide +kernel), hlevel⟩
  · obtain ⟨hreturns, hnames⟩ :=
      @builtin_names_exact _ .field flagOptions (by decide) (by decide +kernel)
    obtain ⟨m, hm⟩ := hreturns.mpr hfield
    refine ⟨m, hm, ?_⟩
    rw [((hnames m hm).flag_false (by decide +kernel)).1]
    decide +kernel

/-- The options of a method without a level, and an extension with the name of one. -/
def unsetLevelOptions : Record := [(50010, .text "IDEMPOTENT")]

/-- Nothing built in is set here, and still there is a level, and a true value for the flag. -/
theorem builtin_names_taken :
    (∃ m, gather none .method unsetLevelOptions = .ok m ∧ levelOf? unsetLevelOptions = none ∧
      OptionMap.find? m levelName = some (.str "IDEMPOTENT")) ∧
    ∃ m v, gather none .field flagOptions = .ok m ∧ isDeprecated .field flagOptions = false ∧
      OptionMap.find? m deprecatedName = some v ∧ v.isTrue = true := by
  obtain ⟨m, hm, hlevel⟩ : ∃ m, gather none .method unsetLevelOptions = .ok m ∧
      OptionMap.find? m levelName = some (.str "IDEMPOTENT") := exists_ok (by decide +kernel)
  obtain ⟨m', hm', hflag⟩ : ∃ m, gather none .field flagOptions = .ok m ∧
      OptionMap.find? m deprecatedName = some (.str "soon") := exists_ok (by decide +kernel)
  exact ⟨⟨m, hm, by decide +kernel, hlevel⟩, m', _, hm', by decide +kernel, hflag, by decide⟩

end Options
end ProtoCatalog
