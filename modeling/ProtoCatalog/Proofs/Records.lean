import ProtoCatalog.Proofs.Storing

/-!
# The order of set fields

The fields of a message stand by ascending number, each once.  Setting and unsetting a field keeps
that order, and leaves the other fields as they are.
-/

namespace ProtoCatalog

namespace Record

/-- The numbers of the fields ascend. -/
def Ordered (r : Record) : Prop := r.Pairwise fun a b ↦ a.1 < b.1

instance (r : Record) : Decidable r.Ordered := by unfold Ordered; infer_instance

theorem Ordered.unset {r : Record} (h : r.Ordered) (p : Nat → Bool) : (r.unset p).Ordered :=
  List.Pairwise.filter _ h

theorem eq_or_mem_of_mem_set {r : Record} {number : Nat} {d : Datum} {e : Nat × Datum}
    (h : e ∈ r.set number d) : e = (number, d) ∨ e ∈ r := by
  induction r with
  | nil => exact .inl (List.mem_singleton.mp h)
  | cons first rest ih =>
    obtain ⟨n, x⟩ := first
    rw [set] at h
    split at h
    · rcases List.mem_cons.mp h with rfl | h
      · exact .inr List.mem_cons_self
      · exact (ih h).imp_right (List.mem_cons_of_mem _)
    · split at h
      · rcases List.mem_cons.mp h with rfl | h
        · exact .inl rfl
        · exact .inr (List.mem_cons_of_mem _ h)
      · exact List.mem_cons.mp h

-- What holds of the fields that are set goes on to hold of them.
theorem forall_mem_unset {P : Nat × Datum → Prop} {r : Record} (h : ∀ e ∈ r, P e)
    (p : Nat → Bool) : ∀ e ∈ r.unset p, P e := fun e he ↦ h e (List.mem_filter.mp he).1

theorem forall_mem_set {P : Nat × Datum → Prop} {r : Record} (h : ∀ e ∈ r, P e) {number : Nat}
    {d : Datum} (hd : P (number, d)) : ∀ e ∈ r.set number d, P e := by
  intro e he
  rcases eq_or_mem_of_mem_set he with rfl | he
  · exact hd
  · exact h e he

theorem forall_mem_assign [DescriptorPool] {P : Nat × Datum → Prop} {r : Record}
    (h : ∀ e ∈ r, P e) (t : MessageType) {f : FieldSpec} {d : Datum} (hd : P (f.number, d)) :
    ∀ e ∈ r.assign t f d, P e := by
  unfold assign
  simp only
  split
  · exact forall_mem_unset (forall_mem_unset h _) _
  · exact forall_mem_set (forall_mem_unset h _) hd

theorem Ordered.set {r : Record} (h : r.Ordered) (number : Nat) (d : Datum) :
    (r.set number d).Ordered := by
  induction r with
  | nil => exact List.pairwise_singleton _ _
  | cons first rest ih =>
    obtain ⟨n, x⟩ := first
    obtain ⟨hfirst, hrest⟩ := List.pairwise_cons.mp h
    rw [Record.set]
    split
    · -- It goes behind the first, whose number is less than any in the rest.
      rename_i hlt
      apply List.pairwise_cons.mpr ⟨?_, ih hrest⟩
      intro e he
      rcases eq_or_mem_of_mem_set he with rfl | he
      · exact hlt
      · exact hfirst e he
    · split
      · -- It takes the place of the first.
        rename_i heq
        subst heq
        exact List.pairwise_cons.mpr ⟨hfirst, hrest⟩
      · -- It goes in front of all.
        apply List.pairwise_cons.mpr ⟨?_, h⟩
        intro e he
        rcases List.mem_cons.mp he with rfl | he
        · show number < n
          omega
        · have hn : n < e.1 := hfirst e he
          show number < e.1
          omega

theorem mem_of_find? {r : Record} {number : Nat} {d : Datum} (h : r.find? number = some d) :
    (number, d) ∈ r := by
  obtain ⟨e, he, rfl⟩ := Option.map_eq_some_iff.mp h
  have hnumber := List.find?_some he
  rw [← beq_iff_eq.mp hnumber]
  exact List.mem_of_find?_eq_some he

theorem find?_set_self (r : Record) (number : Nat) (d : Datum) :
    (r.set number d).find? number = some d := by
  induction r with
  | nil => simp [set, find?]
  | cons first rest ih =>
    obtain ⟨n, e⟩ := first
    rw [set]
    split
    · rename_i hlt
      -- The search passes over the first, as the setting does.
      have hne : (n == number) = false := beq_eq_false_iff_ne.mpr (Nat.ne_of_lt hlt)
      rw [find?, List.find?_cons_of_neg (by simp [hne])]
      exact ih
    · split <;> simp [find?]

theorem find?_cons (k : Nat) (d : Datum) (r : Record) (n : Nat) :
    find? ((k, d) :: r) n = if k = n then some d else r.find? n := by
  by_cases h : k = n <;> simp [find?, h]

theorem find?_set_of_ne (r : Record) {number n : Nat} (d : Datum) (hne : n ≠ number) :
    (r.set number d).find? n = r.find? n := by
  induction r with
  | nil => rw [set, find?_cons, if_neg hne.symm]
  | cons first rest ih =>
    obtain ⟨k, e⟩ := first
    rw [set]
    split
    · rw [find?_cons, find?_cons, ih]
    · split
      · rename_i heq
        rw [find?_cons, find?_cons, if_neg hne.symm, if_neg (heq.trans_ne hne.symm)]
      · rw [find?_cons, if_neg hne.symm]

theorem find?_unset (r : Record) {p : Nat → Bool} {n : Nat} (h : p n = false) :
    (r.unset p).find? n = r.find? n := by
  rw [find?, find?, unset, List.find?_filter]
  congr 2
  funext e
  cases he : e.1 == n with
  | false => simp
  | true => simp [beq_iff_eq.mp he, h]

-- What is not in the way of a member stays when it is set.
theorem find?_assign [DescriptorPool] (r : Record) {t : MessageType} {f : FieldSpec} (d : Datum)
    {n : Nat} (hne : n ≠ f.number) (hrivals : rivals t f n = false) :
    (r.assign t f d).find? n = r.find? n := by
  unfold assign
  simp only
  split
  · rw [find?_unset _ (p := (· == f.number)) (beq_eq_false_iff_ne.mpr hne), find?_unset _ hrivals]
  · rw [find?_set_of_ne _ _ hne, find?_unset _ hrivals]

theorem items_set_self (r : Record) (number : Nat) (items : List Datum) :
    (r.set number (.list items)).items number = items := by
  rw [Record.items, find?_set_self]

-- Putting an entry among others keeps what all of them are.
theorem forall_mem_insertEntry {p : Datum → Prop} {entry : Record} (he : p (.record entry))
    {items : List Datum} (h : ∀ d ∈ items, p d) : ∀ d ∈ insertEntry entry items, p d := by
  induction items with
  | nil => exact List.forall_mem_singleton.mpr he
  | cons first rest ih =>
    obtain ⟨hfirst, hrest⟩ := List.forall_mem_cons.mp h
    unfold insertEntry
    split
    · exact List.forall_mem_cons.mpr ⟨he, hrest⟩
    · exact List.forall_mem_cons.mpr ⟨hfirst, ih hrest⟩

end Record

namespace Wire

variable [DescriptorPool] {inner : Reading} {t : MessageType} {r r' : Record} {field : Field}

/-- Storing a field leaves every other alone that is in no oneof with it. -/
theorem Stored.find?_of_ne (hs : Stored inner t r field r') {n : Nat} (hne : n ≠ field.number)
    (hrivals : ∀ f, Record.rivals t f n = false) : r'.find? n = r.find? n := by
  have hfield : ∀ {f}, t.field? field.number = some f → n ≠ f.number := by
    intro f hf heq
    rw [(MessageType.field?_eq_some hf).2] at heq
    exact hne heq
  cases hs with
  | ignored => rfl
  | part hf => exact r.find?_assign _ (hfield hf) (hrivals _)
  | item hf => exact r.find?_set_of_ne _ (hfield hf)
  | entry hf => exact r.find?_set_of_ne _ (hfield hf)
  | value hf => exact r.find?_assign _ (hfield hf) (hrivals _)
  | values hf => exact r.find?_set_of_ne _ (hfield hf)

end Wire
end ProtoCatalog
