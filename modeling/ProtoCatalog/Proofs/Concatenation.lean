import ProtoCatalog.Loading.DescriptorSet
import ProtoCatalog.Proofs.Records
import ProtoCatalog.Schema.Annotations

/-!
# Bytes one behind the other

The bytes of two messages of one type, one behind the other, are read as the second onto the
first.  For descriptor sets that means their files one behind the other, since each file is read
from its own bytes alone.
-/

namespace ProtoCatalog
namespace Wire

/-! ## Scanning -/

namespace Grouping

/-- A grouping of what follows fields found, and groups left out, before. -/
def behind (g : Grouping) (fields : List Field) (leftOut : Bool) : Grouping :=
  { g with fields := g.fields ++ fields, leftOut := leftOut || g.leftOut }

/-- What was found before only stands behind what comes. -/
theorem step_behind (limit : Nat) (g : Grouping) (fields : List Field) (leftOut : Bool)
    (t : Token) :
    step limit (g.behind fields leftOut) t = (step limit g t).behind fields leftOut := by
  obtain ⟨found, opened, left, sound⟩ := g
  cases sound with
  | false => rfl
  | true =>
    cases t with
    | field f =>
      -- Both sides ask the same of what is open.
      by_cases hstray : f.number = 0 ∧ opened = []
      · simp [step, behind, isStray, hstray]
      · by_cases hopened : opened = []
        · have hnumber : f.number ≠ 0 := fun h ↦ hstray ⟨h, hopened⟩
          simp [step, behind, isStray, hnumber, hopened]
        · simp [step, behind, isStray, hopened]
    | groupStart n =>
      by_cases hstray : n = 0 ∧ opened = []
      · simp [step, behind, isStray, hstray]
      · by_cases hdepth : opened.length < limit <;> simp [step, behind, isStray, hstray, hdepth]
    | groupEnd n =>
      cases opened with
      | nil => rfl
      | cons m rest =>
        by_cases hnumber : m = n <;> simp [step, behind, hnumber]

/-- The same over any number of tokens. -/
theorem foldl_step_behind (limit : Nat) (g : Grouping) (fields : List Field) (leftOut : Bool)
    (tokens : List Token) :
    tokens.foldl (step limit) (g.behind fields leftOut) =
      (tokens.foldl (step limit) g).behind fields leftOut := by
  induction tokens generalizing g with
  | nil => rfl
  | cons t rest ih => rw [List.foldl_cons, List.foldl_cons, step_behind, ih]

-- Where no group is open, the next field is as good as the first.
theorem eq_start_behind {g : Grouping} (hsound : g.sound = true) (hopened : g.opened = []) :
    g = start.behind g.fields g.leftOut := by
  obtain ⟨found, opened, left, sound⟩ := g
  subst hsound hopened
  simp [start, behind]

end Grouping

/-- Behind a whole message the scan starts anew. -/
theorem Scan.ofBytes_append {limit : Nat} {a : List UInt8}
    (h : (Scan.ofBytes limit a).sound = true) (b : List UInt8) :
    Scan.ofBytes limit (a ++ b) =
      ⟨(Scan.ofBytes limit a).fields ++ (Scan.ofBytes limit b).fields,
        (Scan.ofBytes limit a).leftOut || (Scan.ofBytes limit b).leftOut,
        (Scan.ofBytes limit b).sound⟩ := by
  simp only [ofBytes, Bool.and_eq_true, decide_eq_true_eq, List.isEmpty_iff] at h
  obtain ⟨⟨hsound, hopened⟩, hphase⟩ := h
  simp only [ofBytes, Lexer.run_append hphase, List.reverse_append, List.foldl_append]
  rw [Grouping.eq_start_behind hsound hopened, Grouping.foldl_step_behind]
  simp [Grouping.behind, Grouping.start]

/-! ## Reading onto what is there -/

variable [DescriptorPool] {inner : Reading} {levels : Nat} {t : MessageType} {r r' : Record}

theorem decodeLayer_append {a : List UInt8} (h : decodeLayer inner levels t r a = .ok r')
    (b : List UInt8) :
    decodeLayer inner levels t r (a ++ b) = decodeLayer inner levels t r' b := by
  obtain ⟨hfields, hsound⟩ := decodeLayer_eq_ok.mp h
  unfold decodeLayer
  simp only [Scan.ofBytes_append hsound, List.foldlM_append, hfields]
  rfl

/-- Bytes that follow a whole message are read onto it, whatever its type. -/
theorem decodeInto_append {a : List UInt8} (h : decodeInto levels t r a = .ok r')
    (b : List UInt8) : decodeInto levels t r (a ++ b) = decodeInto levels t r' b := by
  cases levels with
  | zero => exact decodeLayer_append h b
  | succ levels => exact decodeLayer_append h b

/-! ## What is refused -/

/-- What is wrong with bytes does not hang on what they are read onto. -/
def Reading.RefusesAlike (inner : Reading) : Prop :=
  ∀ t r r' bytes e, inner t r bytes = .error e → inner t r' bytes = .error e

theorem store_eq_error (hinner : inner.RefusesAlike) {field : Field} {e : Fault}
    (h : store inner t r field = .error e) (r' : Record) :
    store inner t r' field = .error e := by
  -- A message is at fault as its bytes are, whatever is made of it.
  have hmessage : ∀ (m : MessageType) (bytes : List UInt8) (s s' : Record) (k k' : Record → Record),
      (inner m s bytes >>= fun x ↦ pure (k x)) = .error e →
        (inner m s' bytes >>= fun x ↦ pure (k' x)) = .error e := by
    intro m bytes s s' k k' h
    rcases bind_eq_error.mp h with h | ⟨_, _, h⟩
    · exact bind_eq_error.mpr (.inl (hinner _ _ _ _ _ h))
    · cases h
  cases hf : t.field? field.number with
  | none =>
    simp only [store, hf] at h
    cases h
  | some f =>
    simp only [store, hf] at h ⊢
    split at h
    · exact hmessage _ _ _ _ _ _ h
    · exact hmessage _ _ _ _ _ _ h
    · exact hmessage _ _ _ _ _ _ h
    · cases h
    · -- Values that are cut off are so wherever they would go.
      split at h
      · split at h
        · cases h
        · cases h
        · exact h
        · cases h
      · cases h
    · cases h

theorem foldlM_store_eq_error (hinner : inner.RefusesAlike) {fields : List Field} {e : Fault}
    (h : fields.foldlM (store inner t) r = .error e) (r' : Record) :
    fields.foldlM (store inner t) r' = .error e := by
  induction fields generalizing r r' with
  | nil => cases h
  | cons field rest ih =>
    rw [List.foldlM_cons] at h ⊢
    rcases bind_eq_error.mp h with h | ⟨r₁, hr₁, h⟩
    · exact bind_eq_error.mpr (.inl (store_eq_error hinner h r'))
    · obtain ⟨r₂, hr₂⟩ := exists_eq_ok hr₁ fun _ he ↦ store_eq_error hinner he r
      exact bind_eq_error.mpr (.inr ⟨r₂, hr₂, ih h r₂⟩)

theorem refusesAlike_decodeInto (levels : Nat) : (decodeInto levels).RefusesAlike := by
  apply decodeInto_keeps fun _ _ _ _ _ _ h ↦ h
  intro inner levels hinner t r r' bytes e h
  rcases bind_eq_error.mp h with h | ⟨r₁, hr₁, h⟩
  · exact bind_eq_error.mpr (.inl (foldlM_store_eq_error hinner h r'))
  · -- The fields are no fault of either, so it is in what follows them.
    split at h
    · cases h
    · rename_i hsound
      obtain ⟨r₂, hr₂⟩ := exists_eq_ok hr₁ fun _ he ↦ foldlM_store_eq_error hinner he r
      refine bind_eq_error.mpr (.inr ⟨r₂, hr₂, ?_⟩)
      rw [if_neg hsound]
      exact h

/-! ## The files of a set -/

/-- A field with another number than the files leaves the files of a set as they are. -/
theorem Stored.items_files {field : Field}
    (hs : Stored inner .fileDescriptorSet r field r') (hnumber : field.number ≠ 1) :
    r'.items 1 = r.items 1 := by
  have hrivals : ∀ f, Record.rivals .fileDescriptorSet f 1 = false := by
    intro f
    rw [Record.rivals]
    split
    · rfl
    · exact Bool.and_false _
  rw [Record.items, Record.items, hs.find?_of_ne hnumber.symm hrivals]

/-- The files of a field stand behind those that are there. -/
theorem items_store (hinner : inner.RefusesAlike) (r : Record) (field : Field) :
    (store inner .fileDescriptorSet r field).map (Record.items · 1) =
      ((store inner .fileDescriptorSet [] field).map (Record.items · 1)).map (r.items 1 ++ ·) := by
  by_cases hnumber : field.number = 1
  · obtain ⟨number, payload⟩ := field
    cases hnumber
    cases payload with
    | bytes b =>
      show ((inner .fileDescriptor [] b >>= fun file ↦
          .ok (r.set 1 (.list (r.items 1 ++ [.record file])))).map (Record.items · 1)) =
        ((inner .fileDescriptor [] b >>= fun file ↦
          .ok (Record.set [] 1 (.list [.record file]))).map (Record.items · 1)).map _
      cases inner .fileDescriptor [] b with
      | error e => rfl
      | ok file => exact congrArg Except.ok (Record.items_set_self ..)
    | _ => exact congrArg Except.ok (List.append_nil _).symm
  · cases hr : store inner .fileDescriptorSet r field with
    | error e =>
      rw [store_eq_error hinner hr]
      rfl
    | ok r' =>
      obtain ⟨s, hs⟩ := exists_eq_ok hr fun _ he ↦ store_eq_error hinner he r
      rw [hs]
      show Except.ok (r'.items 1) = .ok (r.items 1 ++ s.items 1)
      rw [(stored_of_store hr).items_files hnumber, (stored_of_store hs).items_files hnumber]
      exact congrArg Except.ok (List.append_nil _).symm

theorem items_foldlM_store (hinner : inner.RefusesAlike) (fields : List Field) (r : Record) :
    (fields.foldlM (store inner .fileDescriptorSet) r).map (Record.items · 1) =
      ((fields.foldlM (store inner .fileDescriptorSet) []).map (Record.items · 1)).map
        (r.items 1 ++ ·) := by
  induction fields generalizing r with
  | nil => exact congrArg Except.ok (List.append_nil _).symm
  | cons field rest ih =>
    have hfield := items_store hinner r field
    rw [List.foldlM_cons, List.foldlM_cons]
    cases hr : store inner .fileDescriptorSet r field with
    | error e =>
      rw [store_eq_error hinner hr]
      rfl
    | ok r₁ =>
      obtain ⟨s₁, hs⟩ := exists_eq_ok hr fun _ he ↦ store_eq_error hinner he r
      rw [hr, hs] at hfield
      have hitems : r₁.items 1 = r.items 1 ++ s₁.items 1 := Except.ok.inj hfield
      rw [hs]
      show (rest.foldlM (store inner .fileDescriptorSet) r₁).map _ =
        ((rest.foldlM (store inner .fileDescriptorSet) s₁).map _).map _
      rw [ih r₁, ih s₁, hitems]
      cases (rest.foldlM (store inner .fileDescriptorSet) []).map (Record.items · 1) with
      | error e => rfl
      | ok files => exact congrArg Except.ok (List.append_assoc ..)

/-- The files in the bytes are read alike whatever files are there, and stand behind them. -/
theorem items_decodeLayer (hinner : inner.RefusesAlike) (levels : Nat) (r : Record)
    (bytes : List UInt8) :
    (decodeLayer inner levels .fileDescriptorSet r bytes).map (Record.items · 1) =
      ((decodeLayer inner levels .fileDescriptorSet [] bytes).map (Record.items · 1)).map
        (r.items 1 ++ ·) := by
  have h := items_foldlM_store hinner (Scan.ofBytes levels bytes).fields r
  have hlayer : ∀ r, (decodeLayer inner levels .fileDescriptorSet r bytes).map (Record.items · 1) =
      (((Scan.ofBytes levels bytes).fields.foldlM (store inner .fileDescriptorSet) r).map
        (Record.items · 1)) >>= fun files ↦
          if (Scan.ofBytes levels bytes).sound then .ok files else .error .corrupt := by
    intro r
    simp only [decodeLayer]
    cases (Scan.ofBytes levels bytes).fields.foldlM (store inner .fileDescriptorSet) r with
    | error e => rfl
    | ok s => cases (Scan.ofBytes levels bytes).sound <;> rfl
  rw [hlayer, hlayer, h]
  cases (((Scan.ofBytes levels bytes).fields.foldlM (store inner .fileDescriptorSet) []).map
    (Record.items · 1)) with
  | error e => rfl
  | ok files => cases (Scan.ofBytes levels bytes).sound <;> rfl

/-- Of two sets one behind the other, each file is read as in the set that it comes from. -/
theorem items_decode_append {a : List UInt8} {sa : Record}
    (ha : decode .fileDescriptorSet a = .ok sa) (b : List UInt8) :
    (decode .fileDescriptorSet (a ++ b)).map (Record.items · 1) =
      ((decode .fileDescriptorSet b).map (Record.items · 1)).map (sa.items 1 ++ ·) := by
  rw [decode, decodeInto_append ha]
  exact items_decodeLayer (refusesAlike_decodeInto 99) 100 sa b

end Wire

namespace DescriptorSet

section Bytes

variable [DescriptorPool]

/-- The files of whole bytes stand in front of what the bytes behind them give. -/
theorem files_decode_append {a : List UInt8} {sa : Record}
    (ha : Wire.decode .fileDescriptorSet a = .ok sa) (b : List UInt8) :
    (Wire.decode .fileDescriptorSet (a ++ b)).map files =
      ((Wire.decode .fileDescriptorSet b).map files).map (files sa ++ ·) := by
  have hfiles : ∀ x : Except Wire.Fault Record,
      x.map files = (x.map (Record.items · 1)).map (·.map fun d ↦ FileDecl.ofRecord d.fields) := by
    intro x
    cases x with
    | error why => rfl
    | ok set => exact congrArg Except.ok (List.map_map ..)
  rw [hfiles, Wire.items_decode_append ha, hfiles]
  cases (Wire.decode .fileDescriptorSet b).map (Record.items · 1) with
  | error why => rfl
  | ok items =>
    have hsa : files sa = (sa.items 1).map fun d ↦ FileDecl.ofRecord d.fields := List.map_map ..
    show Except.ok ((sa.items 1 ++ items).map _) = .ok (files sa ++ items.map _)
    rw [List.map_append, hsa]

theorem load_some (path : String) (bytes : List UInt8) :
    load path (some bytes) =
      ((Wire.decode .fileDescriptorSet bytes).map files).mapError (.malformed path) := by
  simp only [load]
  cases Wire.decode .fileDescriptorSet bytes <;> rfl

theorem load_eq_ok {path : String} {bytes : List UInt8} {fs : List FileDecl} :
    load path (some bytes) = .ok fs ↔
      ∃ set, Wire.decode .fileDescriptorSet bytes = .ok set ∧ files set = fs := by
  rw [load_some, mapError_eq_ok]
  cases Wire.decode .fileDescriptorSet bytes <;> simp [Except.map]

/-- The bytes at a path give files or a complaint about the bytes, and nothing else.  Bytes that
give files do so whatever is behind them: their files stay as they are, in front, and the bytes
behind them give their own files or their own fault. -/
theorem load_concatenates (path : String) :
    (∀ bytes, (∃ fs, load path (some bytes) = .ok fs) ∨
      ∃ why, load path (some bytes) = .error (.malformed path why) ∧ ∃ detail,
        (LoadFault.malformed path why).message =
          "Malformed descriptor set " ++ path ++ ": " ++ detail) ∧
    ∀ (p q : String) (a b : List UInt8) (fa : List FileDecl), load p (some a) = .ok fa →
      (∀ fb, load q (some b) = .ok fb → load path (some (a ++ b)) = .ok (fa ++ fb)) ∧
      ∀ why, load q (some b) = .error (.malformed q why) →
        load path (some (a ++ b)) = .error (.malformed path why) := by
  constructor
  · intro bytes
    rw [load_some]
    cases (Wire.decode .fileDescriptorSet bytes).map files with
    | ok fs => exact .inl ⟨fs, rfl⟩
    | error why => exact .inr ⟨why, rfl, _, rfl⟩
  · intro p q a b fa ha
    obtain ⟨sa, hsa, rfl⟩ := load_eq_ok.mp ha
    have hab := files_decode_append hsa b
    constructor
    · intro fb hb
      rw [load_some, mapError_eq_ok] at hb
      rw [load_some, hab, hb]
      rfl
    · intro why hb
      rw [load_some] at hb
      obtain ⟨_, hb, hwhy⟩ := mapError_eq_error.mp hb
      cases hwhy
      rw [load_some, hab, hb]
      rfl

end Bytes

attribute [local instance] Annotations.pool

/-- Two sets of one file each: behind one another they give both files. -/
theorem load_concatenates_two :
    ∃ fa fb, load "a.pb" (some [10, 3, 10, 1, 97]) = .ok fa ∧
      load "b.pb" (some [10, 3, 10, 1, 98]) = .ok fb ∧
      fa.map (·.name) = ["a"] ∧ fb.map (·.name) = ["b"] ∧
      load "ab.pb" (some [10, 3, 10, 1, 97, 10, 3, 10, 1, 98]) = .ok (fa ++ fb) := by
  obtain ⟨fa, ha, hna⟩ : ∃ fa, load "a.pb" (some [10, 3, 10, 1, 97]) = .ok fa ∧
      fa.map (·.name) = ["a"] := exists_ok (by decide +kernel)
  obtain ⟨fb, hb, hnb⟩ : ∃ fb, load "b.pb" (some [10, 3, 10, 1, 98]) = .ok fb ∧
      fb.map (·.name) = ["b"] := exists_ok (by decide +kernel)
  exact ⟨fa, fb, ha, hb, hna, hnb, ((load_concatenates "ab.pb").2 _ _ _ _ fa ha).1 fb hb⟩

end DescriptorSet
end ProtoCatalog
