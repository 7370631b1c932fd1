import Mathlib.Data.List.Basic
import ProtoCatalog.Doc.Basic

/-!
# Fields at their places

A field of a message is told by its place: among the plain fields, or among the members of one of
the oneofs.  Changes can be made to the field at one place, or to all fields at once.
-/

namespace ProtoCatalog

/-- Where a field stands in its message: among the plain ones, or among the members of a oneof. -/
inductive FieldPlace where
  | plain (index : Nat)
  | member (oneof index : Nat)
deriving DecidableEq, Repr

namespace MessageDoc

def fieldAt? (m : MessageDoc) : FieldPlace → Option FieldDoc
  | .plain i => m.fields[i]?
  | .member o i => m.oneofs[o]?.bind (·.fields[i]?)

/-- The places of a message's fields: the plain ones, then the members of each oneof. -/
def places (m : MessageDoc) : List FieldPlace :=
  (List.range m.fields.length).map .plain ++
    (m.oneofs.mapIdx fun o q ↦ (List.range q.fields.length).map (.member o)).flatten

/-- A message with a change made to each of its fields. -/
def mapFields (change : FieldPlace → FieldDoc → FieldDoc) (m : MessageDoc) : MessageDoc :=
  { m with
    fields := m.fields.mapIdx fun i ↦ change (.plain i)
    oneofs := m.oneofs.mapIdx fun o q ↦
      { q with fields := q.fields.mapIdx fun i ↦ change (.member o i) } }

/-- A message with a change made to the field at a place. -/
def modifyField (k : FieldPlace) (change : FieldDoc → FieldDoc) : MessageDoc → MessageDoc :=
  mapFields fun j f ↦ if j = k then change f else f

theorem mem_places {m : MessageDoc} {k : FieldPlace} {f : FieldDoc} (h : m.fieldAt? k = some f) :
    k ∈ m.places := by
  cases k with
  | plain i =>
    have hi := (List.getElem?_eq_some_iff.mp h).1
    exact List.mem_append_left _ (List.mem_map_of_mem (List.mem_range.mpr hi))
  | member o i =>
    obtain ⟨q, hq, hf⟩ := Option.bind_eq_some_iff.mp h
    have hi := (List.getElem?_eq_some_iff.mp hf).1
    refine List.mem_append_right _ (List.mem_flatten.mpr
      ⟨_, List.mem_iff_getElem?.mpr ⟨o, ?_⟩, List.mem_map_of_mem (List.mem_range.mpr hi)⟩)
    rw [List.getElem?_mapIdx, hq]
    rfl

theorem mem_allFields {m : MessageDoc} {f : FieldDoc} :
    f ∈ m.allFields ↔ ∃ k, m.fieldAt? k = some f := by
  rw [allFields, List.mem_append, List.mem_flatMap]
  constructor
  · rintro (hf | ⟨q, hq, hf⟩)
    · obtain ⟨i, hi⟩ := List.mem_iff_getElem?.mp hf
      exact ⟨.plain i, hi⟩
    · obtain ⟨o, ho⟩ := List.mem_iff_getElem?.mp hq
      obtain ⟨i, hi⟩ := List.mem_iff_getElem?.mp hf
      exact ⟨.member o i, Option.bind_eq_some_iff.mpr ⟨q, ho, hi⟩⟩
  · rintro ⟨k, hk⟩
    cases k with
    | plain i => exact .inl (List.mem_of_getElem? hk)
    | member o i =>
      obtain ⟨q, hq, hf⟩ := Option.bind_eq_some_iff.mp hk
      exact .inr ⟨q, List.mem_of_getElem? hq, List.mem_of_getElem? hf⟩

theorem fieldAt?_mapFields (change : FieldPlace → FieldDoc → FieldDoc) (m : MessageDoc)
    (k : FieldPlace) : (m.mapFields change).fieldAt? k = (m.fieldAt? k).map (change k) := by
  cases k with
  | plain i => exact List.getElem?_mapIdx
  | member o i =>
    simp only [fieldAt?, mapFields, List.getElem?_mapIdx]
    cases m.oneofs[o]? with
    | none => rfl
    | some q => exact List.getElem?_mapIdx

theorem mapFields_mapFields (change before : FieldPlace → FieldDoc → FieldDoc) (m : MessageDoc) :
    (m.mapFields before).mapFields change = m.mapFields fun k f ↦ change k (before k f) := by
  simp only [mapFields, List.mapIdx_mapIdx, Function.comp_def]

-- Only what a change does to the fields that are there counts.
theorem mapFields_congr {change change' : FieldPlace → FieldDoc → FieldDoc} {m : MessageDoc}
    (h : ∀ k f, m.fieldAt? k = some f → change k f = change' k f) :
    m.mapFields change = m.mapFields change' := by
  have hfields : m.fields.mapIdx (fun i ↦ change (.plain i)) =
      m.fields.mapIdx fun i ↦ change' (.plain i) := by
    apply List.ext_getElem?
    intro i
    rw [List.getElem?_mapIdx, List.getElem?_mapIdx]
    exact Option.map_congr fun f hf ↦ h (.plain i) f hf
  have honeofs : m.oneofs.mapIdx (fun o q ↦
        { q with fields := q.fields.mapIdx fun i ↦ change (.member o i) }) =
      m.oneofs.mapIdx fun o q ↦
        { q with fields := q.fields.mapIdx fun i ↦ change' (.member o i) } := by
    apply List.ext_getElem?
    intro o
    rw [List.getElem?_mapIdx, List.getElem?_mapIdx]
    apply Option.map_congr
    intro q hq
    congr 1
    apply List.ext_getElem?
    intro i
    rw [List.getElem?_mapIdx, List.getElem?_mapIdx]
    exact Option.map_congr fun f hf ↦
      h (.member o i) f (Option.bind_eq_some_iff.mpr ⟨q, hq, hf⟩)
  rw [mapFields, hfields, honeofs, mapFields]

theorem mapFields_const (change : FieldDoc → FieldDoc) (m : MessageDoc) :
    m.mapFields (fun _ ↦ change) =
      { m with
        fields := m.fields.map change
        oneofs := m.oneofs.map fun q ↦ { q with fields := q.fields.map change } } := by
  have hmap : ∀ {α β : Type} (g : α → β) (l : List α), l.mapIdx (fun _ ↦ g) = l.map g := by
    intro α β g l
    apply List.ext_getElem?
    intro i
    rw [List.getElem?_mapIdx, List.getElem?_map]
  simp only [mapFields, hmap]

end MessageDoc
end ProtoCatalog
