import ProtoCatalog.Proofs.FieldPlace
import ProtoCatalog.Proofs.MapEntries
import ProtoCatalog.Proofs.Order
import ProtoCatalog.Proofs.Resolving
import ProtoCatalog.Schema.Annotations

/-!
# Resolving map fields in place

Map fields can also be resolved one after another in the messages themselves: a field that is
visited takes the types of its entry's fields and marks the entry.  Entries are visited before and
after the fields that they stand for, may be in other files, and may have map fields of their own.
In whatever order the fields are visited, once all are the messages are those that settling gives:
a map field has the types of the last message of its type's name, the last message of each name that
a map field has as its type is marked, and nothing else is changed.
-/

namespace ProtoCatalog.Catalog

/-! ## Visiting a field -/

/-- A field of one of the messages: the position of its message, and its place there. -/
structure Slot where
  message : Nat
  place : FieldPlace
deriving DecidableEq, Repr

/-- A field that takes its key and value types from the fields of an entry, one by one. -/
def takeTypes (fields : List FieldDoc) (f : FieldDoc) : FieldDoc :=
  fields.foldl (fun f e ↦
    if e.name == keyName then { f with mapKey := e.type.full }
    else if e.name == valueName then { f with mapValue := e.type.full }
    else f) f

/-- The position of the entry of a field, if it is a map field and its entry is known. -/
def entryOf? (table : Table Nat) (f : FieldDoc) : Option Nat :=
  if f.isMap then table.find? f.type.full else none

def fieldAt? (ms : List MessageDoc) (s : Slot) : Option FieldDoc :=
  ms[s.message]?.bind (·.fieldAt? s.place)

def mark (m : MessageDoc) : MessageDoc := { m with internal := true }

/-- The messages after a visit to one field: its entry is marked, and then its types are those of
the entry as it is at that time. -/
def visitField (table : Table Nat) (ms : List MessageDoc) (s : Slot) : List MessageDoc :=
  match (fieldAt? ms s).bind (entryOf? table) with
  | none => ms
  | some e =>
    let marked := ms.modify e mark
    match marked[e]? with
    | none => marked
    | some entry =>
      marked.modify s.message (MessageDoc.modifyField s.place (takeTypes entry.fields))

/-- The fields of all messages in the order in which packages list their messages. -/
def visitOrder (files : List FileDoc) : List Slot :=
  let numbered := (files.flatMap fun f ↦ f.messages.map fun m ↦ (f.package, m)).zipIdx
  (packageNames files).flatMap fun package ↦
    (sortByName (·.1.2.names.full) (numbered.filter (·.1.1 == package))).flatMap fun m ↦
      m.1.2.places.map (⟨m.2, ·⟩)

/-- The messages of some files after all their fields are visited, package by package. -/
def resolveInPlace (files : List FileDoc) : List MessageDoc :=
  (visitOrder files).foldl (visitField (positions (nodes files))) (nodes files)

/-! ## Types taken from an entry -/

/-- The last type that fields give under a name. -/
def lastType? (fields : List FieldDoc) (name : String) : Option String :=
  (fields.filter (·.name == name)).getLast?.map (·.type.full)

theorem entryType_eq (entry : MessageDoc) (name : String) :
    entryType entry name = (lastType? entry.fields name).getD "" := rfl

theorem lastType?_cons (e : FieldDoc) (rest : List FieldDoc) (name : String) :
    lastType? (e :: rest) name =
      (lastType? rest name).or (if e.name = name then some e.type.full else none) := by
  rw [lastType?, lastType?, List.filter_cons]
  by_cases he : e.name = name
  · rw [if_pos (beq_iff_eq.mpr he), if_pos he, List.getLast?_cons]
    cases (rest.filter (·.name == name)).getLast? <;> rfl
  · rw [if_neg (by simpa using he), if_neg he, Option.or_none]

-- Field by field the types are those that the last fields give.
theorem takeTypes_eq (fields : List FieldDoc) (f : FieldDoc) :
    takeTypes fields f =
      { f with
        mapKey := (lastType? fields keyName).getD f.mapKey
        mapValue := (lastType? fields valueName).getD f.mapValue } := by
  induction fields generalizing f with
  | nil => rfl
  | cons e rest ih =>
    rw [takeTypes, List.foldl_cons]
    show takeTypes rest _ = _
    rw [ih, lastType?_cons, lastType?_cons]
    by_cases hk : e.name = keyName
    · have hv : e.name ≠ valueName := by rw [hk]; decide
      simp only [hk, beq_self_eq_true, if_true, Option.or_some, Option.getD_some]
      rw [if_neg (hk ▸ hv), Option.or_none]
    · by_cases hv : e.name = valueName
      · simp [hv, show (valueName == keyName) = false by decide,
          show valueName ≠ keyName by decide]
      · simp [hk, hv]

-- Changes that keep names and types do not matter.
theorem lastType?_mapIdx {change : Nat → FieldDoc → FieldDoc}
    (h : ∀ i f, (change i f).name = f.name ∧ (change i f).type = f.type)
    (fields : List FieldDoc) (name : String) :
    lastType? (fields.mapIdx change) name = lastType? fields name := by
  have hsame : List.Forall₂ (fun f g ↦ g.name = f.name ∧ g.type = f.type) fields
      (fields.mapIdx change) := by
    conv => arg 2; rw [← List.zipIdx_map_fst 0 fields]
    rw [List.mapIdx_eq_zipIdx_map, List.forall₂_map_left_iff, List.forall₂_map_right_iff,
      List.forall₂_same]
    exact fun f _ ↦ h f.2 f.1
  have hpicked := map_filter_of_forall₂ hsame (p := (·.name == name)) (q := (·.name == name))
    (f := (·.type.full)) (g := (·.type.full)) (fun _ _ hfg ↦ by rw [hfg.1])
    (fun _ _ hfg ↦ by rw [hfg.2])
  rw [lastType?, lastType?, ← List.getLast?_map, hpicked, List.getLast?_map]

/-! ## What has become of the messages on the way -/

section Run

variable {files : List FileDoc}

theorem name_type_resolveField (table : Table MessageDoc) (f : FieldDoc) :
    (resolveField table f).name = f.name ∧ (resolveField table f).type = f.type := by
  unfold resolveField
  split
  · split <;> exact ⟨rfl, rfl⟩
  · exact ⟨rfl, rfl⟩

theorem entryOf?_resolveField (positions : Table Nat) (table : Table MessageDoc) (f : FieldDoc) :
    entryOf? positions (resolveField table f) = entryOf? positions f := by
  rw [entryOf?, entryOf?, isMap_resolveField, (name_type_resolveField table f).2]

/-- The position of the entry of the field in a slot. -/
def entryAt? (files : List FileDoc) (s : Slot) : Option Nat :=
  (fieldAt? (nodes files) s).bind (entryOf? (positions (nodes files)))

/-- What has become of a field when those in some slots are visited. -/
def visitedField (files : List FileDoc) (slots : List Slot) (s : Slot) (f : FieldDoc) : FieldDoc :=
  if s ∈ slots then resolveField (messageTable files) f else f

/-- What has become of a message when the fields in some slots are visited: these are resolved, and
the message is marked if it is the entry of one of them. -/
def visited (files : List FileDoc) (slots : List Slot) (p : Nat) (m : MessageDoc) : MessageDoc :=
  { m.mapFields (fun k ↦ visitedField files slots ⟨p, k⟩) with
    internal := slots.any fun s ↦ entryAt? files s == some p }

theorem visitedField_cons_ne {slots : List Slot} {s t : Slot} (h : t ≠ s) (f : FieldDoc) :
    visitedField files (s :: slots) t f = visitedField files slots t f := by
  simp only [visitedField, List.mem_cons, h, false_or]

theorem fieldAt?_visited (slots : List Slot) (s : Slot) :
    fieldAt? ((nodes files).mapIdx (visited files slots)) s =
      (fieldAt? (nodes files) s).map (visitedField files slots s) := by
  rw [fieldAt?, fieldAt?, List.getElem?_mapIdx]
  cases (nodes files)[s.message]? with
  | none => rfl
  | some m =>
    exact MessageDoc.fieldAt?_mapFields (fun k ↦ visitedField files slots ⟨s.message, k⟩) m s.place

-- Visits do not change which entry a field has.
theorem entryAt?_visited (slots : List Slot) (s : Slot) :
    (fieldAt? ((nodes files).mapIdx (visited files slots)) s).bind
      (entryOf? (positions (nodes files))) = entryAt? files s := by
  rw [fieldAt?_visited, entryAt?]
  cases fieldAt? (nodes files) s with
  | none => rfl
  | some f =>
    rw [Option.map_some, Option.bind_some, Option.bind_some, visitedField]
    split
    · exact entryOf?_resolveField _ _ f
    · rfl

theorem resolveField_of_entryOf?_eq_none {f : FieldDoc}
    (h : entryOf? (positions (nodes files)) f = none) :
    resolveField (messageTable files) f = f := by
  unfold resolveField
  split
  · rename_i hmap
    rw [entryOf?, if_pos hmap] at h
    rw [find?_messageTable_eq, h, Option.bind_none]
  · rfl

theorem resolveField_of_entryOf?_eq_some {f : FieldDoc} {e : Nat}
    (h : entryOf? (positions (nodes files)) f = some e) :
    ∃ entry, (nodes files)[e]? = some entry ∧ resolveField (messageTable files) f =
      { f with mapKey := entryType entry keyName, mapValue := entryType entry valueName } := by
  have hmap : f.isMap = true := by
    by_contra hno
    rw [entryOf?, if_neg hno] at h
    exact Option.some_ne_none e h.symm
  rw [entryOf?, if_pos hmap] at h
  obtain ⟨entry, hentry, -⟩ := Option.map_eq_some_iff.mp
    (getElem?_fullNames (nodes files) e ▸ (find?_positions.mp h).1)
  refine ⟨entry, hentry, ?_⟩
  rw [resolveField, if_pos hmap, find?_messageTable_eq, h, Option.bind_some, hentry]

/-- An entry gives a field the types that it has when the field is resolved, whatever has become of
the entry by then and whether the field has been visited before. -/
theorem takeTypes_visited (slots : List Slot) {s : Slot} {f : FieldDoc} {e : Nat}
    {entry : MessageDoc} (hentry : (nodes files)[e]? = some entry)
    (hf : entryOf? (positions (nodes files)) f = some e)
    (hfresh : f.mapKey = "" ∧ f.mapValue = "") :
    takeTypes (visited files slots e entry).fields (visitedField files slots s f) =
      resolveField (messageTable files) f := by
  have htype : ∀ name, lastType? (visited files slots e entry).fields name =
      lastType? entry.fields name := by
    apply lastType?_mapIdx
    intro i x
    show (visitedField files slots ⟨e, .plain i⟩ x).name = x.name ∧
      (visitedField files slots ⟨e, .plain i⟩ x).type = x.type
    rw [visitedField]
    split
    · exact name_type_resolveField _ x
    · exact ⟨rfl, rfl⟩
  obtain ⟨_, hsame, hresolved⟩ := resolveField_of_entryOf?_eq_some hf
  obtain rfl := Option.some.inj (hentry.symm.trans hsame)
  rw [takeTypes_eq, htype, htype, visitedField]
  split
  · -- The types that it has already are the same.
    have hagain : ∀ name, (lastType? entry.fields name).getD (entryType entry name) =
        entryType entry name := by
      intro name
      rw [entryType_eq]
      cases lastType? entry.fields name <;> rfl
    rw [hresolved]
    show FieldDoc.mk .. = FieldDoc.mk ..
    rw [hagain, hagain]
  · rw [hfresh.1, hfresh.2, hresolved]
    rfl

-- A visit to what is no field, or to a field without an entry, changes nothing.
theorem visited_cons_of_none {slots : List Slot} {s : Slot} (hs : entryAt? files s = none) {p : Nat}
    {m : MessageDoc} (hm : (nodes files)[p]? = some m) :
    visited files (s :: slots) p m = visited files slots p m := by
  have hfields : m.mapFields (fun k ↦ visitedField files (s :: slots) ⟨p, k⟩) =
      m.mapFields fun k ↦ visitedField files slots ⟨p, k⟩ := by
    apply MessageDoc.mapFields_congr
    intro k f hk
    by_cases he : (⟨p, k⟩ : Slot) = s
    · have hfield : fieldAt? (nodes files) s = some f :=
        he ▸ Option.bind_eq_some_iff.mpr ⟨m, hm, hk⟩
      rw [entryAt?, hfield] at hs
      rw [visitedField, visitedField, resolveField_of_entryOf?_eq_none hs, ite_self, ite_self]
    · exact visitedField_cons_ne he f
  rw [visited, visited, hfields, List.any_cons, hs]
  rfl

/-- A visit to a field with an entry resolves the field, and nothing else in any message. -/
theorem modifyField_visited {slots : List Slot} {s : Slot} {f : FieldDoc} {e : Nat}
    {entry : MessageDoc} (hs : fieldAt? (nodes files) s = some f)
    (hentry : (nodes files)[e]? = some entry)
    (hf : entryOf? (positions (nodes files)) f = some e)
    (hfresh : f.mapKey = "" ∧ f.mapValue = "") {p : Nat} {m : MessageDoc}
    (hm : (nodes files)[p]? = some m) :
    (if s.message = p then
      (m.mapFields fun k ↦ visitedField files slots ⟨p, k⟩).modifyField s.place
        (takeTypes (visited files slots e entry).fields)
      else m.mapFields fun k ↦ visitedField files slots ⟨p, k⟩) =
    m.mapFields fun k ↦ visitedField files (s :: slots) ⟨p, k⟩ := by
  split
  · rename_i hp
    subst hp
    rw [MessageDoc.modifyField, MessageDoc.mapFields_mapFields]
    apply MessageDoc.mapFields_congr
    intro k x hk
    split
    · -- This is the field that is visited.
      rename_i hplace
      subst hplace
      have hfield : fieldAt? (nodes files) s = some x :=
        Option.bind_eq_some_iff.mpr ⟨m, hm, hk⟩
      obtain rfl := Option.some.inj (hs.symm.trans hfield)
      rw [takeTypes_visited slots hentry hf hfresh, visitedField, if_pos List.mem_cons_self]
    · rename_i hplace
      exact (visitedField_cons_ne (fun he ↦ hplace (congrArg Slot.place he)) x).symm
  · rename_i hp
    apply MessageDoc.mapFields_congr
    intro k x _
    exact (visitedField_cons_ne (fun he ↦ hp (congrArg Slot.message he).symm) x).symm

-- And it marks the entry, and no other message.
theorem mark_visited {slots : List Slot} {s : Slot} {e : Nat} (hs : entryAt? files s = some e)
    (p : Nat) (m : MessageDoc) :
    (if e = p then mark (visited files slots p m) else visited files slots p m) =
      { m.mapFields (fun k ↦ visitedField files slots ⟨p, k⟩) with
        internal := (s :: slots).any fun s ↦ entryAt? files s == some p } := by
  rw [List.any_cons, hs]
  split
  · rename_i he
    rw [he, beq_self_eq_true, Bool.true_or]
    rfl
  · rename_i he
    rw [show (some e == some p) = false by simpa using he, Bool.false_or]
    rfl

/-- One visit: the field is added to those that are visited. -/
theorem visitField_visited (hfresh : ∀ m ∈ nodes files, Fresh m) (slots : List Slot) (s : Slot) :
    visitField (positions (nodes files)) ((nodes files).mapIdx (visited files slots)) s =
      (nodes files).mapIdx (visited files (s :: slots)) := by
  rw [visitField, entryAt?_visited]
  cases hs : entryAt? files s with
  | none =>
    apply List.ext_getElem?
    intro p
    rw [List.getElem?_mapIdx, List.getElem?_mapIdx]
    exact Option.map_congr fun m hm ↦ (visited_cons_of_none hs hm).symm
  | some e =>
    obtain ⟨f, hf, hfe⟩ := Option.bind_eq_some_iff.mp hs
    obtain ⟨entry, hentry, -⟩ := resolveField_of_entryOf?_eq_some hfe
    obtain ⟨owner, howner, hfield⟩ := Option.bind_eq_some_iff.mp hf
    have huntyped := (hfresh owner (List.mem_of_getElem? howner)).untyped f
      (MessageDoc.mem_allFields.mpr ⟨s.place, hfield⟩)
    have hmarked : (((nodes files).mapIdx (visited files slots)).modify e mark)[e]? =
        some (mark (visited files slots e entry)) := by
      rw [List.getElem?_modify, List.getElem?_mapIdx, hentry]
      simp
    simp only [hmarked]
    apply List.ext_getElem?
    intro p
    rw [List.getElem?_modify, List.getElem?_modify, List.getElem?_mapIdx, List.getElem?_mapIdx,
      Option.map_eq_map, Option.map_eq_map, Option.map_map, Option.map_map]
    apply Option.map_congr
    intro m hm
    have hvisited : visited files (s :: slots) p m =
        { m.mapFields (fun k ↦ visitedField files (s :: slots) ⟨p, k⟩) with
          internal := (s :: slots).any fun s ↦ entryAt? files s == some p } := rfl
    simp only [Function.comp_apply, mark_visited hs]
    rw [hvisited, ← modifyField_visited hf hentry hfe huntyped hm]
    split <;> rfl

/-! ## A whole run -/

theorem foldl_visitField (hfresh : ∀ m ∈ nodes files, Fresh m) (slots before : List Slot) :
    slots.foldl (visitField (positions (nodes files)))
        ((nodes files).mapIdx (visited files before)) =
      (nodes files).mapIdx (visited files (slots.reverse ++ before)) := by
  induction slots generalizing before with
  | nil => rfl
  | cons s rest ih =>
    rw [List.foldl_cons, visitField_visited hfresh, ih, List.reverse_cons, List.append_assoc,
      List.singleton_append]

-- Before the first visit the messages are as they are documented.
theorem mapIdx_visited_nil (hfresh : ∀ m ∈ nodes files, Fresh m) :
    (nodes files).mapIdx (visited files []) = nodes files := by
  apply List.ext_getElem?
  intro p
  rw [List.getElem?_mapIdx]
  cases hm : (nodes files)[p]? with
  | none => rfl
  | some m =>
    have hid : m.mapFields (fun k ↦ visitedField files [] ⟨p, k⟩) = m := by
      have hconst : (fun k ↦ visitedField files [] ⟨p, k⟩) = fun _ ↦ id := by
        funext k f
        rw [visitedField, if_neg List.not_mem_nil, id]
      rw [hconst, MessageDoc.mapFields_const]
      simp
    rw [Option.map_some, visited, hid, List.any_nil,
      ← (hfresh m (List.mem_of_getElem? hm)).unmarked]

/-- A message is marked just if some field that is visited has it as its entry. -/
theorem any_entryAt?_iff {slots : List Slot}
    (hall : ∀ s f, fieldAt? (nodes files) s = some f → s ∈ slots) {p : Nat} {m : MessageDoc}
    (hm : (nodes files)[p]? = some m) :
    (slots.any fun s ↦ entryAt? files s == some p) = true ↔
      m.names.full ∈ mapTypes files ∧ LastNamed (nodes files) m.names.full p := by
  rw [List.any_eq_true, mem_mapTypes_nodes]
  constructor
  · rintro ⟨s, -, hs⟩
    obtain ⟨f, hf, hfe⟩ := Option.bind_eq_some_iff.mp (beq_iff_eq.mp hs)
    obtain ⟨owner, howner, hfield⟩ := Option.bind_eq_some_iff.mp hf
    have hmap : f.isMap = true := by
      by_contra hno
      rw [entryOf?, if_neg hno] at hfe
      exact Option.some_ne_none p hfe.symm
    rw [entryOf?, if_pos hmap, find?_positions] at hfe
    have hname : f.type.full = m.names.full := by
      have hat := hfe.1
      rw [getElem?_fullNames, hm] at hat
      exact (Option.some.inj hat).symm
    exact ⟨⟨owner, List.mem_of_getElem? howner, f, MessageDoc.mem_allFields.mpr ⟨_, hfield⟩, hmap,
      hname⟩, hname ▸ hfe⟩
  · rintro ⟨⟨owner, howner, f, hf, hmap, hname⟩, hlast⟩
    obtain ⟨q, hq⟩ := List.mem_iff_getElem?.mp howner
    obtain ⟨k, hk⟩ := MessageDoc.mem_allFields.mp hf
    have hfield : fieldAt? (nodes files) ⟨q, k⟩ = some f :=
      Option.bind_eq_some_iff.mpr ⟨owner, hq, hk⟩
    refine ⟨⟨q, k⟩, hall _ f hfield, ?_⟩
    rw [entryAt?, hfield, Option.bind_some, entryOf?, if_pos hmap, hname,
      find?_positions.mpr hlast, beq_self_eq_true]

/-- In any order, once every field is visited the messages are settled. -/
theorem foldl_visitField_eq_settle (hfresh : ∀ m ∈ nodes files, Fresh m) {slots : List Slot}
    (hall : ∀ s f, fieldAt? (nodes files) s = some f → s ∈ slots) :
    slots.foldl (visitField (positions (nodes files))) (nodes files) = nodes (settle files) := by
  have hrun := foldl_visitField hfresh slots []
  rw [mapIdx_visited_nil hfresh, List.append_nil] at hrun
  rw [hrun]
  have hrev : ∀ s f, fieldAt? (nodes files) s = some f → s ∈ slots.reverse :=
    fun s f hs ↦ List.mem_reverse.mpr (hall s f hs)
  apply List.ext_getElem?
  intro p
  rw [getElem?_nodes_settle, List.getElem?_mapIdx]
  apply Option.map_congr
  intro m hm
  have hfields : m.mapFields (fun k ↦ visitedField files slots.reverse ⟨p, k⟩) =
      resolveMessage (messageTable files) m := by
    rw [resolveMessage, ← MessageDoc.mapFields_const]
    apply MessageDoc.mapFields_congr
    intro k f hk
    rw [visitedField, if_pos (hrev _ f (Option.bind_eq_some_iff.mpr ⟨m, hm, hk⟩))]
  have hmark : (slots.reverse.any fun s ↦ entryAt? files s == some p) =
      ((mapTypes files).contains m.names.full &&
        (positions (nodes files)).find? m.names.full == some p) := by
    rw [Bool.eq_iff_iff, any_entryAt?_iff hrev hm, Bool.and_eq_true, List.contains_iff_mem,
      beq_iff_eq, find?_positions]
  rw [visited, hfields, hmark]

/-! ## Package by package -/

theorem mem_visitOrder {s : Slot} {f : FieldDoc} (hs : fieldAt? (nodes files) s = some f) :
    s ∈ visitOrder files := by
  obtain ⟨m, hm, hf⟩ := Option.bind_eq_some_iff.mp hs
  let owned := files.flatMap fun f ↦ f.messages.map fun m ↦ (f.package, m)
  have hnodes : owned.map (·.2) = nodes files := by
    rw [List.map_flatMap]
    simp only [List.map_map, Function.comp_def, List.map_id']
    rfl
  -- The message is listed with the package of its file.
  have hat : (owned.map (·.2))[s.message]? = some m := hnodes ▸ hm
  rw [List.getElem?_map] at hat
  obtain ⟨⟨package, m⟩, hin, rfl⟩ := Option.map_eq_some_iff.mp hat
  obtain ⟨d, hd, hmem⟩ := List.mem_flatMap.mp (List.mem_of_getElem? hin)
  obtain ⟨_, -, he⟩ := List.mem_map.mp hmem
  have hpackage : package ∈ packageNames files :=
    mem_packageNames.mpr ⟨d, hd, congrArg Prod.fst he⟩
  refine List.mem_flatMap.mpr ⟨package, hpackage, List.mem_flatMap.mpr
    ⟨((package, m), s.message), (sortByName_perm _ _).mem_iff.mpr ?_,
      List.mem_map.mpr ⟨s.place, MessageDoc.mem_places hf, rfl⟩⟩⟩
  exact List.mem_filter.mpr ⟨List.mem_zipIdx_iff_getElem?.mpr hin, beq_self_eq_true package⟩

/-- Resolving in place, package by package, leaves the messages as settling gives them. -/
theorem resolveInPlace_eq (hfresh : ∀ m ∈ nodes files, Fresh m) :
    resolveInPlace files = nodes (settle files) :=
  foldl_visitField_eq_settle hfresh fun _ _ ↦ mem_visitOrder

end Run

/-! ## The effect of the pass -/

-- A catalog holds the messages that are left when its files are settled, and no others.
theorem mem_nodes_of_holds {files : List FileDoc} {m : MessageDoc} (h : (assemble files).Holds m) :
    m ∈ nodes files := List.mem_flatMap.mpr (exists_of_holds h)

/-- The exact effect of resolving map fields, where full names may repeat.  The files are
documented; resolving in place, package by package, leaves the messages of the settled files; these
differ from the documented ones just in key and value types and in the marks.  The files list their
messages in the same order, but for the internal ones, and all that the catalog holds are settled
messages: its table has the last of each name. -/
theorem map_resolution_effect [DescriptorPool] {registry : Option Registry} {files : List FileDecl}
    {c : Catalog} (h : build registry files = .ok c) :
    ∃ docs settled, List.Forall₂ (fun f d ↦ f.document registry = .ok d) files docs ∧
      nodes settled = resolveInPlace docs ∧ Settlement docs settled ∧
      c.files = settled.map (fun s ↦ { s with messages := s.messages.filter (!·.internal) }) ∧
      (∀ name x, c.messages.find? name = some x ↔
        ∃ p, LastNamed (nodes settled) name p ∧ (nodes settled)[p]? = some x) ∧
      ∀ m, c.Holds m → m ∈ nodes settled := by
  obtain ⟨docs, hdocs, hfresh, hsettled, rfl⟩ := exists_settlement h
  refine ⟨docs, settle docs, hdocs, (resolveInPlace_eq hfresh).symm, hsettled, rfl, ?_, ?_⟩
  · intro name x
    exact find?_messageTable_iff
  · intro m
    exact mem_nodes_of_holds

/-! ## One name declared twice -/

/-- The value of another map: a truth value. -/
def flagValue : FieldDecl := plainField valueName 2 .optional (.scalar .bool) ""

/-- Two files that declare the same message and the same entry, with different values. -/
def labelsTwice : List FileDecl :=
  [labelsFile "shop", plainFile "flags.proto" "shop" [plainMessage "Item" [labelsField "shop"]
    [plainMessage "LabelsEntry" [labelKey, flagValue] []]]]

attribute [local instance] Annotations.pool

/-- Two names are declared twice, and the effect is told as exactly as where all names differ. -/
theorem map_resolution_effect_twice : ¬ (FileDecl.messageNames labelsTwice).Nodup ∧
    ∃ c docs settled, build none labelsTwice = .ok c ∧
      List.Forall₂ (fun f d ↦ FileDecl.document none f = .ok d) labelsTwice docs ∧
      nodes settled = resolveInPlace docs ∧ Settlement docs settled ∧
      c.files = settled.map (fun s ↦ { s with messages := s.messages.filter (!·.internal) }) ∧
      ∀ m, c.Holds m → m ∈ nodes settled := by
  have htwice : ¬ (FileDecl.messageNames labelsTwice).Nodup := by decide +kernel
  obtain ⟨c, hc, -⟩ : ∃ c, build none labelsTwice = .ok c ∧ True := exists_ok (by decide +kernel)
  obtain ⟨docs, settled, hdocs, hplace, hsettled, hfiles, -, hheld⟩ := map_resolution_effect hc
  exact ⟨htwice, c, docs, settled, hc, hdocs, hplace, hsettled, hfiles, hheld⟩

end ProtoCatalog.Catalog
