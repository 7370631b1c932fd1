import Mathlib.Data.List.Induction
import Mathlib.Data.List.Nodup

/-!
# Members by their keys

Lists whose members are told apart by a key, and lists grouped by a key: the groups together hold
what the list holds.
-/

namespace ProtoCatalog.Keys

variable {α κ : Type} [BEq κ] [LawfulBEq κ]

-- Where all keys differ, one member has the key of a given member.
theorem filter_eq_singleton {key : α → κ} {l : List α} {a : α} (hd : (l.map key).Nodup)
    (h : a ∈ l) : l.filter (key · == key a) = [a] := by
  induction l with
  | nil => exact absurd h List.not_mem_nil
  | cons b rest ih =>
    obtain ⟨hb, hrest⟩ := List.nodup_cons.mp hd
    rcases List.mem_cons.mp h with rfl | h
    · have hnone : rest.filter (key · == key a) = [] := by
        apply List.filter_eq_nil_iff.mpr
        intro c hc hk
        exact hb (List.mem_map.mpr ⟨c, hc, beq_iff_eq.mp hk⟩)
      rw [List.filter_cons, if_pos (beq_iff_eq.mpr rfl), hnone]
    · -- The first has another key, as it is not the one that is looked for.
      have hne : key b ≠ key a := fun he ↦ hb (he ▸ List.mem_map_of_mem h)
      rw [List.filter_cons, if_neg (by simpa using hne), ih hrest h]

-- A member that is alone with its key stays so in any order.
theorem filter_eq_singleton_of_perm {key : α → κ} {l l' : List α} {a : α}
    (hd : (l.map key).Nodup) (h : a ∈ l) (hp : l'.Perm l) : l'.filter (key · == key a) = [a] :=
  filter_eq_singleton ((hp.map key).symm.nodup hd) (hp.mem_iff.mpr h)

-- Where all keys differ, a member is found by its key.
theorem find?_of_nodup {key : α → κ} {l : List α} {a : α} (hd : (l.map key).Nodup) (h : a ∈ l) :
    l.find? (key · == key a) = some a := by
  rw [← List.head?_filter, filter_eq_singleton hd h]
  rfl

-- Else some member is found that has the key.
theorem exists_find?_of_mem (key : α → κ) {l : List α} {a : α} (h : a ∈ l) :
    ∃ b ∈ l, l.find? (key · == key a) = some b ∧ key b = key a := by
  cases hb : l.find? (key · == key a) with
  | none =>
    have hnone := List.find?_eq_none.mp hb a h
    exact absurd (beq_iff_eq.mpr rfl) hnone
  | some b =>
    have hkey := List.find?_some hb
    exact ⟨b, List.mem_of_find?_eq_some hb, rfl, beq_iff_eq.mp hkey⟩

/-! ## Groups -/

theorem nodup_eraseDups (l : List κ) : l.eraseDups.Nodup := by
  cases l with
  | nil => exact List.nodup_nil
  | cons a rest =>
    rw [List.eraseDups_cons, List.nodup_cons, List.mem_eraseDups]
    exact ⟨by simp, nodup_eraseDups _⟩
termination_by l.length
decreasing_by exact Nat.lt_succ_of_le (List.length_filter_le _ _)

theorem eraseDups_eq_nil_iff {l : List κ} : l.eraseDups = [] ↔ l = [] := by
  simp only [List.eq_nil_iff_forall_not_mem, List.mem_eraseDups]

theorem eraseDups_of_nodup {l : List κ} (h : l.Nodup) : l.eraseDups = l := by
  induction l with
  | nil => rfl
  | cons a rest ih =>
    obtain ⟨ha, hrest⟩ := List.nodup_cons.mp h
    have hother : rest.filter (fun b ↦ !b == a) = rest := by
      apply List.filter_eq_self.mpr
      intro b hb
      simpa using fun he : b = a ↦ ha (he ▸ hb)
    rw [List.eraseDups_cons, hother, ih hrest]

-- Behind keys that are all different stay those that are new.
theorem eraseDups_append_of_nodup {front back : List κ} (hf : front.Nodup) (hb : back.Nodup) :
    (front ++ back).eraseDups = front ++ back.filter fun k ↦ !front.contains k := by
  have hnew : (back.filter fun k ↦ !front.contains k).Nodup := hb.filter _
  rw [List.eraseDups_append, eraseDups_of_nodup hf]
  exact congrArg (front ++ ·) (eraseDups_of_nodup hnew)

-- What comes twice in the front can be erased at once or at the end.
theorem eraseDups_eraseDups_append (front back : List κ) :
    (front.eraseDups ++ back).eraseDups = (front ++ back).eraseDups := by
  have hback : back.removeAll front.eraseDups = back.removeAll front := by
    apply List.filter_congr
    intro a _
    rw [Bool.eq_iff_iff]
    simp
  rw [List.eraseDups_append, List.eraseDups_append, eraseDups_of_nodup (nodup_eraseDups front),
    hback]

theorem eraseDups_concat (l : List κ) (k : κ) :
    (l ++ [k]).eraseDups = if k ∈ l then l.eraseDups else l.eraseDups ++ [k] := by
  rw [List.eraseDups_append]
  by_cases hk : k ∈ l
  · rw [if_pos hk]
    simp [List.removeAll, hk]
  · rw [if_neg hk]
    simp [List.removeAll, hk, List.eraseDups_cons]

-- Nor does it matter whether what comes twice in the back is erased before.
theorem eraseDups_append_eraseDups (front back : List κ) :
    (front ++ back.eraseDups).eraseDups = (front ++ back).eraseDups := by
  -- From the front: a key at the end is new to both lists, or to none.
  induction back using List.reverseRecOn with
  | nil => rfl
  | append_singleton back k ih =>
    rw [eraseDups_concat, ← List.append_assoc]
    split
    · rename_i hk
      rw [ih, eraseDups_concat, if_pos (List.mem_append_right front hk)]
    · rw [← List.append_assoc, eraseDups_concat, eraseDups_concat, ih]
      simp only [List.mem_append, List.mem_eraseDups]

/-- Keys without repetitions come in the order of the first member that has each. -/
theorem pairwise_findIdx_eraseDups (key : α → Option κ) (l : List α) :
    (l.filterMap key).eraseDups.Pairwise fun j k ↦
      l.findIdx (key · == some j) < l.findIdx (key · == some k) := by
  -- From the front: a key that comes up at the end is new, or changes nothing.
  induction l using List.reverseRecOn with
  | nil => exact List.Pairwise.nil
  | append_singleton l a ih =>
    have hfirst : ∀ j ∈ (l.filterMap key).eraseDups,
        l.findIdx (key · == some j) < l.length ∧
          (l ++ [a]).findIdx (key · == some j) = l.findIdx (key · == some j) := by
      intro j hj
      obtain ⟨b, hb, hbj⟩ := List.mem_filterMap.mp (List.mem_eraseDups.mp hj)
      have hlt : l.findIdx (key · == some j) < l.length :=
        List.findIdx_lt_length.mpr ⟨b, hb, by simp [hbj]⟩
      exact ⟨hlt, by rw [List.findIdx_append, if_pos hlt]⟩
    have hkept : (l.filterMap key).eraseDups.Pairwise fun j k ↦
        (l ++ [a]).findIdx (key · == some j) < (l ++ [a]).findIdx (key · == some k) := by
      apply ih.imp_of_mem
      intro j k hj hk hjk
      rwa [(hfirst j hj).2, (hfirst k hk).2]
    rw [List.filterMap_append]
    cases ha : key a with
    | none => simpa [ha] using hkept
    | some k =>
      rw [List.filterMap_cons_some ha, List.filterMap_nil, eraseDups_concat]
      split
      · exact hkept
      · rename_i hnew
        refine List.pairwise_append.mpr ⟨hkept, List.pairwise_singleton _ _, ?_⟩
        intro j hj k' hk'
        obtain rfl := List.mem_singleton.mp hk'
        have hnone : l.findIdx (key · == some k') = l.length := by
          apply List.findIdx_eq_length.mpr
          intro b hb
          rw [beq_eq_false_iff_ne]
          intro hbk
          exact hnew (List.mem_filterMap.mpr ⟨b, hb, hbk⟩)
        rw [(hfirst j hj).2, List.findIdx_append, hnone, if_neg (Nat.lt_irrefl _)]
        exact Nat.lt_add_left _ (hfirst j hj).1

-- Groups by keys that are all different, and among which is every key, hold every member.
theorem flatMap_filter_perm {keys : List κ} {key : α → κ} {l : List α} (hd : keys.Nodup)
    (h : ∀ a ∈ l, key a ∈ keys) : (keys.flatMap fun k ↦ l.filter (key · == k)).Perm l := by
  induction keys generalizing l with
  | nil =>
    cases l with
    | nil => exact List.Perm.refl _
    | cons a rest => exact absurd (h a List.mem_cons_self) List.not_mem_nil
  | cons k rest ih =>
    obtain ⟨hk, hrest⟩ := List.nodup_cons.mp hd
    -- The members without the first key are those that the other groups share.
    let others := l.filter (fun a ↦ !(key a == k))
    have hin : ∀ a ∈ others, key a ∈ rest := by
      intro a ha
      obtain ⟨hal, hne⟩ := List.mem_filter.mp ha
      rcases List.mem_cons.mp (h a hal) with he | hr
      · simp [he] at hne
      · exact hr
    have hsame : (rest.flatMap fun j ↦ l.filter (key · == j)) =
        rest.flatMap fun j ↦ others.filter (key · == j) := by
      apply List.flatMap_congr
      intro j hj
      have hjk : j ≠ k := fun he ↦ hk (he ▸ hj)
      rw [List.filter_filter]
      apply List.filter_congr
      intro a _
      by_cases ha : key a = j
      · simp [ha, hjk]
      · simp [ha]
    rw [List.flatMap_cons, hsame]
    exact ((ih hrest hin).append_left _).trans (List.filter_append_perm (key · == k) l)

end ProtoCatalog.Keys
