import Mathlib.Data.List.TakeWhile
import ProtoCatalog.Options.Gather
import ProtoCatalog.Proofs.Keys

/-!
# The fields of message types

What a descriptor pool warrants of the fields of a message type.  The fields of an options message
have different numbers, those of its extensions are the greatest, and the key of an extension without
its brackets is its full name, which no other extension has.
-/

namespace ProtoCatalog

/-! ## Extensions as fields -/

namespace Extension

@[simp] theorem fullName?_field (e : Extension) : e.field.fullName? = some e.fullName := rfl

theorem cardinality_field_ne_map (e : Extension) : e.field.cardinality ≠ .map := by
  obtain ⟨_, _, _, _, _, repeated⟩ := e
  cases repeated <;> nofun

end Extension

/-- What is stripped off both ends of a text is all that is around a part without such characters. -/
theorem Text.stripBoth_append {p : Char → Bool} {front cs back : List Char}
    (hfront : ∀ c ∈ front, p c = true) (hback : ∀ c ∈ back, p c = true)
    (h : ∀ c ∈ cs, p c = false) : stripBoth p (front ++ (cs ++ back)) = cs := by
  have hself : ∀ l : List Char, (∀ c ∈ l, p c = false) → l.dropWhile p = l := by
    intro l hl
    rw [List.dropWhile_eq_self_iff]
    intro hpos
    rw [hl _ (List.getElem_mem hpos)]
    exact Bool.false_ne_true
  rw [stripBoth, dropLeading, dropTrailing, List.dropWhile_append_of_pos hfront]
  cases cs with
  | nil =>
    rw [List.nil_append, List.dropWhile_eq_nil_iff.mpr hback]
    rfl
  | cons c rest =>
    have hc : ¬p c = true := by
      rw [h c List.mem_cons_self]
      exact Bool.false_ne_true
    rw [List.cons_append, List.dropWhile_cons_of_neg hc, ← List.cons_append, List.reverse_append,
      List.dropWhile_append_of_pos fun x hx ↦ hback x (List.mem_reverse.mp hx),
      hself _ fun x hx ↦ h x (List.mem_reverse.mp hx), List.reverse_reverse]

/-- Brackets around a name that has none itself are all that goes. -/
theorem Options.plainKey_bracketed {name : String}
    (h : ∀ c ∈ name.toList, isBracket c = false) : plainKey ("[" ++ name ++ "]") = name := by
  have hbrackets : ("[" ++ name ++ "]").toList = ['['] ++ (name.toList ++ [']']) := by
    rw [String.toList_append, String.toList_append]
    rfl
  rw [plainKey, hbrackets, Text.stripBoth_append (List.forall_mem_singleton.mpr rfl)
    (List.forall_mem_singleton.mpr rfl) h, String.ofList_toList]

/-! ## Fields that standard types declare -/

namespace MessageType

theorem isMessage_of_map (t : MessageType) :
    ∀ f ∈ t.standardFields, f.cardinality = .map → f.kind.isMessage = true := by
  have h : ∀ t ∈ standard, ∀ f ∈ t.standardFields, f.cardinality = .map →
      f.kind.isMessage = true := by decide +kernel
  rcases t.mem_standard with ht | ⟨fullName, rfl⟩
  · exact h t ht
  · exact List.forall_mem_nil _

theorem scope_eq_none (t : MessageType) : ∀ f ∈ t.standardFields, f.scope = none := by
  have h : ∀ t ∈ standard, ∀ f ∈ t.standardFields, f.scope = none := by decide +kernel
  rcases t.mem_standard with ht | ⟨fullName, rfl⟩
  · exact h t ht
  · exact List.forall_mem_nil _

theorem nodup_standardNumbers (t : MessageType) : (t.standardFields.map (·.number)).Nodup := by
  have h : ∀ t ∈ standard, (t.standardFields.map (·.number)).Nodup := by decide +kernel
  rcases t.mem_standard with ht | ⟨fullName, rfl⟩
  · exact h t ht
  · exact List.nodup_nil

end MessageType

variable [DescriptorPool] {t : MessageType} {kind : DeclKind} {f : FieldSpec} {name : String}

namespace MessageType

/-! ## Fields of any type -/

theorem field?_eq_some {number : Nat} (h : t.field? number = some f) :
    f ∈ t.fields ∧ f.number = number := by
  have hnumber := List.find?_some h
  exact ⟨List.mem_of_find?_eq_some h, beq_iff_eq.mp hnumber⟩

theorem extensionNamed?_eq_some (h : t.extensionNamed? name = some f) :
    f ∈ t.fields ∧ f.fullName? = some name := by
  have hname := List.find?_some h
  exact ⟨List.mem_of_find?_eq_some h, beq_iff_eq.mp hname⟩

theorem mem_extensions {e : Extension} :
    e ∈ t.extensions ↔ e ∈ DescriptorPool.extensions ∧ e.extendee = t := by
  rw [extensions, List.mem_filter, decide_eq_true_iff]

theorem mem_fields : f ∈ t.fields ↔ f ∈ t.ownFields ∨ ∃ e ∈ t.extensions, e.field = f := by
  rw [fields, List.mem_append, List.mem_map]

-- The values of a map are entries.
theorem exists_entryType : ∀ f ∈ t.fields, f.cardinality = .map → ∃ m, f.kind = .message m := by
  have hmessage : ∀ f ∈ t.fields, f.cardinality = .map → f.kind.isMessage = true := by
    intro f hf hmap
    rcases mem_fields.mp hf with hf | ⟨e, -, rfl⟩
    · unfold ownFields at hf
      split at hf
      · rename_i fullName _
        cases hfields : DescriptorPool.messages.find? fullName with
        | none =>
          rw [hfields] at hf
          cases hf
        | some fields =>
          rw [hfields] at hf
          obtain ⟨m, hm, rfl⟩ := Option.map_eq_some_iff.mp hfields
          exact DescriptorPool.entries_of_map m (List.mem_of_find?_eq_some hm) f hf hmap
      · exact isMessage_of_map _ f hf hmap
    · exact absurd hmap e.cardinality_field_ne_map
  intro f hf hmap
  have hm := hmessage f hf hmap
  cases hk : f.kind with
  | message m => exact ⟨m, rfl⟩
  | _ =>
    rw [hk] at hm
    cases hm

end MessageType

/-! ## Fields of options messages -/

namespace DeclKind

-- Options messages are of standard types.
theorem ownFields_optionsType (kind : DeclKind) :
    kind.optionsType.ownFields = kind.optionsType.standardFields := by
  cases kind <;> rfl

theorem scope_of_mem_ownFields (h : f ∈ kind.optionsType.ownFields) : f.scope = none := by
  rw [ownFields_optionsType] at h
  exact MessageType.scope_eq_none _ f h

theorem lt_of_mem_extensions (hf : f ∈ kind.optionsType.ownFields) {e : Extension}
    (he : e ∈ kind.optionsType.extensions) : f.number < e.number := by
  obtain ⟨hin, hextendee⟩ := MessageType.mem_extensions.mp he
  rw [ownFields_optionsType, ← hextendee] at hf
  exact DescriptorPool.above_own e hin f hf

/-- An extension among the fields is one of the pool. -/
theorem exists_extension (h : f ∈ kind.optionsType.fields) (hname : f.fullName? = some name) :
    ∃ e ∈ kind.optionsType.extensions, e.field = f ∧ e.fullName = name := by
  rcases MessageType.mem_fields.mp h with h | ⟨e, he, rfl⟩
  · rw [FieldSpec.fullName?, scope_of_mem_ownFields h] at hname
    cases hname
  · exact ⟨e, he, rfl, Option.some.inj hname⟩

theorem nodup_numbers (kind : DeclKind) : (kind.optionsType.fields.map (·.number)).Nodup := by
  have hown : (kind.optionsType.ownFields.map (·.number)).Nodup := by
    rw [ownFields_optionsType]
    exact MessageType.nodup_standardNumbers _
  have hextensions : (kind.optionsType.extensions.map (·.number)).Nodup := by
    -- Extensions of one type are told by their numbers.
    have hpairs : kind.optionsType.extensions.map (fun e ↦ (e.extendee, e.number)) =
        (kind.optionsType.extensions.map (·.number)).map fun n ↦ (kind.optionsType, n) := by
      rw [List.map_map]
      apply List.map_congr_left
      intro e he
      exact Prod.ext (MessageType.mem_extensions.mp he).2 rfl
    apply List.Nodup.of_map
    rw [← hpairs]
    exact DescriptorPool.distinct_numbers.sublist (List.filter_sublist.map _)
  rw [MessageType.fields, List.map_append, List.map_map]
  apply hown.append hextensions
  intro n hn hn'
  obtain ⟨f, hf, rfl⟩ := List.mem_map.mp hn
  obtain ⟨e, he, hnumber⟩ := List.mem_map.mp hn'
  exact Nat.ne_of_lt (lt_of_mem_extensions hf he) hnumber.symm

theorem field?_of_mem (h : f ∈ kind.optionsType.fields) :
    kind.optionsType.field? f.number = some f :=
  Keys.find?_of_nodup (nodup_numbers kind) h

/-- No two extensions have one name. -/
theorem eq_of_fullName? {g : FieldSpec} (hf : f ∈ kind.optionsType.fields)
    (hg : g ∈ kind.optionsType.fields) (hfn : f.fullName? = some name)
    (hgn : g.fullName? = some name) : f = g := by
  obtain ⟨e, he, rfl, hen⟩ := exists_extension hf hfn
  obtain ⟨e', he', rfl, hen'⟩ := exists_extension hg hgn
  have heq : e = e' := List.inj_on_of_nodup_map DescriptorPool.distinct_names
    (MessageType.mem_extensions.mp he).1 (MessageType.mem_extensions.mp he').1
    (hen.trans hen'.symm)
  rw [heq]

theorem extensionNamed?_of_mem (h : f ∈ kind.optionsType.fields)
    (hname : f.fullName? = some name) : kind.optionsType.extensionNamed? name = some f := by
  obtain ⟨g, hin, hg, hgname⟩ := Keys.exists_find?_of_mem FieldSpec.fullName? h
  rw [hname] at hg hgname
  rw [← eq_of_fullName? hin h hgname hname]
  exact hg

/-- Without its brackets the key of an extension is its name. -/
theorem plainKey_extension (h : f ∈ kind.optionsType.fields) (hname : f.fullName? = some name) :
    Options.plainKey f.key = name := by
  obtain ⟨e, he, rfl, rfl⟩ := exists_extension h hname
  apply Options.plainKey_bracketed
  intro c hc
  obtain ⟨hopen, hclose⟩ :=
    DescriptorPool.no_brackets e (MessageType.mem_extensions.mp he).1 c hc
  simp [Options.isBracket, hopen, hclose]

/-- No field with a greater number than an extension has its name for a key. -/
theorem plainKey_ne_of_lt {g : FieldSpec} (hf : f ∈ kind.optionsType.fields)
    (hname : f.fullName? = some name) (hg : g ∈ kind.optionsType.fields)
    (hlt : f.number < g.number) : Options.plainKey g.key ≠ name := by
  obtain ⟨e, he, rfl, -⟩ := exists_extension hf hname
  rcases MessageType.mem_fields.mp hg with hown | ⟨e', -, rfl⟩
  · -- The own fields come first.
    exact absurd hlt (Nat.lt_asymm (lt_of_mem_extensions hown he))
  · intro hkey
    have hname' : e'.fullName = name :=
      (plainKey_extension hg e'.fullName?_field).symm.trans hkey
    have heq := eq_of_fullName? hf hg hname (congrArg some hname')
    rw [heq] at hlt
    exact Nat.lt_irrefl _ hlt

end DeclKind
end ProtoCatalog
