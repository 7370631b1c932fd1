import ProtoCatalog.Proofs.Payloads
import ProtoCatalog.Schema.Annotations

/-!
# Which source wins, and where its names come

The options of a declaration have for each name the value of the first source that has it, and of
the members of a projection that share a name the value of the last.  Names come in the order in
which the sources first have them.  The built-in options are the first source, so a flag or a level
that is set is shown whatever else has its name.
-/

namespace ProtoCatalog

/-! ## Three sources merged -/

namespace Options

/-- Options from three sources: the built-in ones, the entries of the options message, and the
transformed ones. -/
structure Precedence (b : OptionMap) (r : List (String × Json)) (p : OptionMap)
    (m : Option OptionMap) : Prop where
  value : ∀ key, OptionMap.find? m key = (Table.find? b key).or
    (((r.filter (·.1 == key)).getLast?.map (·.2)).or (Table.find? p key))
  order : OptionMap.names m =
    b.keys ++ ((r.map (·.1)).eraseDups.filter fun key ↦ !b.keys.contains key) ++
      p.keys.filter fun key ↦ !b.keys.contains key && !(r.map (·.1)).contains key
  eq_none_iff : m = none ↔ b.keys = [] ∧ r = [] ∧ p.keys = []
  nonempty : ∀ t, m = some t → t.keys ≠ []

theorem precedence_merge (b p : OptionMap) (r : List (String × Json)) :
    Precedence b r p (OptionMap.merge [some b, some (Table.ofList r), some p]) := by
  constructor
  · intro key
    rw [OptionMap.find?_merge, Table.find?_ofList]
  · rw [OptionMap.names_merge_three, Table.keys_ofList]
    congr 2
    funext key
    rw [Bool.eq_iff_iff]
    simp
  · have hr : (Table.ofList r).keys = [] ↔ r = [] := by
      rw [Table.keys_ofList, Keys.eraseDups_eq_nil_iff, List.map_eq_nil_iff]
    rw [OptionMap.merge_eq_none_iff, List.forall_mem_cons, List.forall_mem_cons,
      List.forall_mem_singleton]
    exact and_congr_right' (and_congr_left' hr)
  · intro t
    exact OptionMap.names_ne_nil

/-! ## The three sources -/

/-- What is built in, as entries. -/
def builtinEntries (flag : Bool) (level : Option String) : List (String × Json) :=
  (if flag then [(deprecatedName, .bool true)] else []) ++
    (level.map fun name ↦ (levelName, Json.str name)).toList

theorem find?_builtinEntries (flag : Bool) (level : Option String) (key : String) :
    (Table.ofList (builtinEntries flag level)).find? key =
      if key = deprecatedName then if flag then some (.bool true) else none
      else if key = levelName then level.map .str else none := by
  have hne : deprecatedName ≠ levelName := by decide
  -- There are two entries at most, put into the table one after the other.
  by_cases hd : key = deprecatedName
  · subst hd
    cases flag <;> cases level <;>
      simp [builtinEntries, Table.ofList, Table.find?_insert, Table.find?_empty, hne]
  · cases flag <;> cases level <;>
      simp [builtinEntries, Table.ofList, Table.find?_insert, Table.find?_empty, hd]

section Sources

variable [DescriptorPool] {registry : Option Registry} {kind : DeclKind} {options : Record}

/-- Whether the flag of an options message is true. -/
def isDeprecated (kind : DeclKind) (options : Record) : Bool :=
  (kind.optionsType.fieldNamed? deprecatedName).any fun f ↦ options.flag f.number

/-- The level that is set on a method's options message, by its number. -/
def levelOf? (options : Record) : Option Int :=
  (MessageType.methodOptions.fieldNamed? levelName).bind fun f ↦ options.int? f.number

/-- The built-in options: the flag where it is true, the level where one is set on a method, and
nothing else. -/
structure IsBuiltin (kind : DeclKind) (options : Record) (b : OptionMap) : Prop where
  flag : Table.find? b deprecatedName =
    if isDeprecated kind options then some (.bool true) else none
  level : Table.find? b levelName = if kind = .method then
    (levelOf? options).map fun n ↦ .str ((EnumType.idempotencyLevel.name? n).getD "") else none
  others : ∀ key, key ≠ deprecatedName → key ≠ levelName → Table.find? b key = none

/-- What the options message itself has: the members of its projection by ascending field number,
extensions without their brackets, or nothing where a number keeps it from having a projection. -/
inductive RawEntries (t : MessageType) (options : Record) : List (String × Json) → Prop
  | projected (members : List (FieldSpec × Json))
    (shown : options.project t = .ok (members.map fun (f, j) => (f.key, j)))
    (ascending : options.Ordered → members.Pairwise fun a b => a.1.number < b.1.number) :
    RawEntries t options (members.map fun (f, j) => (plainKey f.key, j))
  | nonFinite (field : Option String) (isNaN : Bool)
    (failed : options.project t = .error (.nonFinite field isNaN)) : RawEntries t options []

-- The entries are those of the projection that there is.
theorem RawEntries.eq_map {t : MessageType} {r ms : List (String × Json)}
    (h : RawEntries t options r) (hms : options.project t = .ok ms) :
    r = ms.map fun (k, v) ↦ (plainKey k, v) := by
  cases h with
  | projected members shown _ =>
    rw [hms] at shown
    rw [Except.ok.inj shown, List.map_map]
    rfl
  | nonFinite field isNaN failed =>
    rw [hms] at failed
    cases failed

theorem builtin_eq (kind : DeclKind) (options : Record) :
    builtin kind kind.optionsType options = .ok (Table.ofList
      (builtinEntries (isDeprecated kind options)
        (if kind = .method then
          (levelOf? options).map fun n ↦ (EnumType.idempotencyLevel.name? n).getD ""
        else none))) := by
  rw [builtin]
  by_cases hk : kind = .method
  · subst hk
    have hlevel : level .methodOptions options = .ok (((levelOf? options).map fun n ↦
        (levelName, Json.str ((EnumType.idempotencyLevel.name? n).getD ""))).toList) := by
      obtain ⟨f, hf⟩ : ∃ f, MessageType.methodOptions.fieldNamed? levelName = some f := ⟨_, rfl⟩
      rw [level, levelOf?, hf, Option.bind_some]
      dsimp only
      cases options.int? f.number <;> rfl
    rw [if_pos rfl, if_pos rfl]
    show (level .methodOptions options >>= fun own ↦ _) = _
    rw [hlevel]
    show Except.ok (Table.ofList (_ ++ _)) = Except.ok (Table.ofList (_ ++ _))
    rw [Option.map_map]
    rfl
  · rw [if_neg hk, if_neg hk]
    rfl

theorem exists_isBuiltin (kind : DeclKind) (options : Record) :
    ∃ b, builtin kind kind.optionsType options = .ok b ∧ IsBuiltin kind options b := by
  have hne : levelName ≠ deprecatedName := by decide
  refine ⟨_, builtin_eq kind options, ?_, ?_, ?_⟩
  · rw [find?_builtinEntries, if_pos rfl]
  · rw [find?_builtinEntries, if_neg hne, if_pos rfl]
    split
    · exact Option.map_map ..
    · rfl
  · intro key hd hl
    rw [find?_builtinEntries, if_neg hd, if_neg hl]

theorem exists_rawEntries (h : Readable kind.optionsType options) :
    ∃ r, RawEntries kind.optionsType options r ∧
      raw kind.optionsType options = .ok (Table.ofList r) := by
  cases hp : options.project kind.optionsType with
  | ok shown =>
    obtain ⟨members, hmembers, he⟩ := bind_eq_ok.mp hp
    cases he
    refine ⟨_, .projected members hp fun ho ↦ (Projection.members_ordered hmembers ho).2, ?_⟩
    rw [raw, hp]
    show Except.ok (Table.ofList _) = _
    rw [List.map_map]
    rfl
  | error fault =>
    obtain ⟨field, isNaN, rfl⟩ := h fault hp
    exact ⟨[], .nonFinite field isNaN hp, by rw [raw, hp]; rfl⟩

/-- The precedence of options is exact.  Where no transform refuses a value and the options message
is readable, a declaration has options from three sources, and the first source that has a name
gives its value; of the members of the projection with one name the last counts.  No other name is
there, names come in the order in which the sources first have them, and there are no options just
where no source has any.  A flag that is set and the level that is set on a method are always
shown. -/
theorem precedence_exact (ha : ∀ g ∈ registry, g.Accepts kind.optionsType options)
    (hr : Readable kind.optionsType options) :
    ∃ b r p m, builtin kind kind.optionsType options = .ok b ∧ IsBuiltin kind options b ∧
      RawEntries kind.optionsType options r ∧
      transformed registry kind.optionsType options = .ok p ∧
      gather registry kind options = .ok m ∧ Precedence b r p m ∧
      (isDeprecated kind options = true →
        OptionMap.find? m deprecatedName = some (.bool true)) ∧
      (kind = .method → ∀ n name, levelOf? options = some n →
        EnumType.idempotencyLevel.name? n = some name →
          OptionMap.find? m levelName = some (.str name)) := by
  obtain ⟨b, hb, hbuiltin⟩ := exists_isBuiltin kind options
  obtain ⟨r, hentries, hraw⟩ := exists_rawEntries hr
  obtain ⟨p, hp⟩ := exists_transformed.mpr ha
  have hprecedence := precedence_merge b p r
  refine ⟨b, r, p, _, hb, hbuiltin, hentries, hp, ?_, hprecedence, ?_, ?_⟩
  · rw [gather_eq hb hp, hraw]
    rfl
  · intro hflag
    rw [hprecedence.value, hbuiltin.flag, if_pos hflag, Option.some_or]
  · intro hk n name hn hname
    rw [hprecedence.value, hbuiltin.level, if_pos hk, hn, Option.map_some, hname, Option.getD_some,
      Option.some_or]

end Sources

/-! ## A level that others have the name of -/

attribute [local instance] Annotations.pool

/-- The options of a method that are both built in, and an extension with the name of the level. -/
def levelOptions : Record := [(33, .bool true), (34, .int 2), (50010, .text "unknown")]

/-- A registry with a transform for the extension. -/
def levelRegistry : Registry := Registry.empty.register levelName fun _ _ => .ok (.str "none")

-- All three sources have the name of the level.
theorem accepts_levelRegistry :
    ∀ g ∈ some levelRegistry, g.Accepts DeclKind.method.optionsType levelOptions := by
  intro g hg e _ x hx
  cases hg
  obtain ⟨spec, name, transform, -, -, ht, rfl⟩ := Registry.entry?_eq_some.mp hx
  rw [levelRegistry, Registry.register, Table.find?_insert] at ht
  split at ht
  · cases ht
    exact ⟨_, rfl⟩
  · cases ht

theorem project_levelOptions : levelOptions.project .methodOptions =
    .ok [("deprecated", .bool true), ("idempotencyLevel", .str "IDEMPOTENT"),
      ("[idempotency_level]", .str "unknown")] := by decide +kernel

/-- The level is shown, and neither the extension nor its transformed value.  The key of the level's
own projection is another one, and it comes last. -/
theorem precedence_exact_level : ∃ p m,
    transformed (some levelRegistry) .methodOptions levelOptions = .ok p ∧
      Table.find? p levelName = some (.str "none") ∧
      gather (some levelRegistry) .method levelOptions = .ok m ∧
      OptionMap.names m = ["deprecated", "idempotency_level", "idempotencyLevel"] ∧
      OptionMap.find? m deprecatedName = some (.bool true) ∧
      OptionMap.find? m levelName = some (.str "IDEMPOTENT") := by
  have hreadable : Readable DeclKind.method.optionsType levelOptions := by
    intro fault h
    rw [DeclKind.optionsType, project_levelOptions] at h
    cases h
  obtain ⟨b, r, p, m, hb, -, hr, hp, hm, hprecedence, hflag, hlevel⟩ :=
    precedence_exact accepts_levelRegistry hreadable
  have hentries := hr.eq_map project_levelOptions
  cases hb
  cases hp
  refine ⟨_, m, rfl, by decide +kernel, hm, ?_, hflag (by decide +kernel),
    hlevel rfl 2 "IDEMPOTENT" (by decide +kernel) (by decide)⟩
  rw [hprecedence.order, hentries]
  decide +kernel

end Options
end ProtoCatalog
