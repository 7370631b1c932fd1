import Mathlib.Data.List.Nodup
import ProtoCatalog.Proofs.Naming
import ProtoCatalog.Proofs.Site

/-!
# The walk reaches every declaration once

The agenda reaches the messages on it and whatever is inside a message that it reaches, and
nothing else: the messages of a file are those at its sites.  They come in the order of their
addresses, and no two of them have one address.
-/

namespace ProtoCatalog

theorem Placed.mem_inCollection {α : Type} {name : α → String} {address : Address}
    {scope : String} {collection : Collection} {decls : List α} {p : Placed α} :
    p ∈ inCollection name address scope collection decls ↔
      ∃ (i : Nat) (d : α), decls[i]? = some d ∧
        p = ⟨address.child collection i, inScope scope (name d), d⟩ := by
  rw [inCollection, List.mem_mapIdx]
  constructor
  · rintro ⟨i, hi, rfl⟩
    exact ⟨i, decls[i], List.getElem?_eq_getElem hi, rfl⟩
  · rintro ⟨i, d, hd, rfl⟩
    obtain ⟨hi, rfl⟩ := List.getElem?_eq_some_iff.mp hd
    exact ⟨i, hi, rfl⟩

namespace MessageDecl

/-! ## What an agenda reaches -/

theorem mem_visit_of_mem {agenda : List (Placed MessageDecl)} {m : Placed MessageDecl}
    (h : m ∈ agenda) : m ∈ visit agenda := by
  induction agenda using visit.induct with
  | case1 => exact absurd h List.not_mem_nil
  | case2 first rest ih =>
    rw [visit]
    -- What waits behind the first waits on behind what is inside the first.
    rcases List.mem_cons.mp h with rfl | h
    · exact List.mem_cons_self
    · exact List.mem_cons_of_mem _ (ih (List.mem_append_right _ h))

theorem mem_visit_of_mem_inside {agenda : List (Placed MessageDecl)} {m n : Placed MessageDecl}
    (hm : m ∈ visit agenda) (hn : n ∈ inside m) : n ∈ visit agenda := by
  induction agenda using visit.induct with
  | case1 => simp [visit] at hm
  | case2 first rest ih =>
    rw [visit] at hm ⊢
    rcases List.mem_cons.mp hm with rfl | hm
    · exact List.mem_cons_of_mem _ (mem_visit_of_mem (List.mem_append_left _ hn))
    · exact List.mem_cons_of_mem _ (ih hm)

/-- What holds of an agenda, and goes from a message to those inside it, holds of all. -/
theorem visit_induction {P : Placed MessageDecl → Prop} {agenda : List (Placed MessageDecl)}
    (start : ∀ m ∈ agenda, P m) (inward : ∀ m, P m → ∀ n ∈ inside m, P n) :
    ∀ m ∈ visit agenda, P m := by
  induction agenda using visit.induct with
  | case1 => simp [visit]
  | case2 first rest ih =>
    have hfirst : P first := start first List.mem_cons_self
    have hrest : ∀ m ∈ inside first ++ rest, P m := by
      intro m hm
      rcases List.mem_append.mp hm with hm | hm
      · exact inward first hfirst m hm
      · exact start m (List.mem_cons_of_mem _ hm)
    intro m hm
    rw [visit] at hm
    rcases List.mem_cons.mp hm with rfl | hm
    · exact hfirst
    · exact ih hrest m hm

/-! ## The order of what is reached -/

/-- Two addresses part at some step, and there the first has the smaller number. -/
def Ahead (a b : Address) : Prop :=
  ∃ (stem front back : Address) (i j : Int),
    i < j ∧ a = stem ++ i :: front ∧ b = stem ++ j :: back

-- What is inside the first is ahead of what is inside the second.
theorem Ahead.append {a b : Address} (h : Ahead a b) (x y : Address) :
    Ahead (a ++ x) (b ++ y) := by
  obtain ⟨stem, front, back, i, j, hij, rfl, rfl⟩ := h
  exact ⟨stem, front ++ x, back ++ y, i, j, hij, by simp, by simp⟩

theorem Ahead.lt {a b : Address} (h : Ahead a b) : a < b := by
  obtain ⟨stem, front, back, i, j, hij, rfl, rfl⟩ := h
  exact List.append_left_lt (List.cons_lt_cons_iff.mpr (.inl hij))

theorem lt_append_cons (a : Address) (i : Int) (rest : Address) : a < a ++ i :: rest := by
  have h : a ++ [] < a ++ i :: rest := List.append_left_lt (List.nil_lt_cons i rest)
  rwa [List.append_nil] at h

theorem address_of_mem_inside {m n : Placed MessageDecl} (h : n ∈ inside m) :
    ∃ j : Nat, n.address = m.address ++ [3, (j : Int)] := by
  obtain ⟨j, d, -, rfl⟩ := Placed.mem_inCollection.mp h
  exact ⟨j, rfl⟩

/-- A message that is reached stands at or inside one of the agenda. -/
theorem exists_prefix_of_mem_visit {agenda : List (Placed MessageDecl)} :
    ∀ m ∈ visit agenda, ∃ a ∈ agenda, a.address <+: m.address := by
  apply visit_induction
  · intro m hm
    exact ⟨m, hm, List.prefix_rfl⟩
  · intro m ⟨a, ha, hp⟩ n hn
    obtain ⟨j, he⟩ := address_of_mem_inside hn
    exact ⟨a, ha, he ▸ hp.trans (List.prefix_append _ _)⟩

theorem pairwise_ahead_inCollection {α : Type} (name : α → String) (address : Address)
    (scope : String) (collection : Collection) (decls : List α) :
    (Placed.inCollection name address scope collection decls).Pairwise
      fun p q ↦ Ahead p.address q.address := by
  rw [Placed.inCollection, List.pairwise_iff_getElem]
  intro i j hi hj hij
  simp only [List.getElem_mapIdx]
  -- The addresses of siblings part at the last step, which is the index.
  exact ⟨address ++ [collection.number], [], [], i, j, Int.ofNat_lt.mpr hij,
    by simp [Address.child], by simp [Address.child]⟩

theorem nodup_address_inCollection {α : Type} (name : α → String) (address : Address)
    (scope : String) (collection : Collection) (decls : List α) :
    ((Placed.inCollection name address scope collection decls).map (·.address)).Nodup := by
  apply List.pairwise_map.mpr
  apply (pairwise_ahead_inCollection name address scope collection decls).imp
  intro p q hpq he
  exact List.lt_irrefl _ (he ▸ hpq.lt)

/-- The messages of an agenda that stand in order are reached in order, each before those inside
it, and these before its siblings. -/
theorem pairwise_address_visit {agenda : List (Placed MessageDecl)}
    (h : agenda.Pairwise fun m n ↦ Ahead m.address n.address) :
    (visit agenda).Pairwise fun m n ↦ m.address < n.address := by
  induction agenda using visit.induct with
  | case1 => simp [visit]
  | case2 first rest ih =>
    obtain ⟨hfirst, hrest⟩ := List.pairwise_cons.mp h
    rw [visit, List.pairwise_cons]
    constructor
    · -- Whatever comes later is inside the first, or at or inside one that the first is ahead of.
      intro m hm
      obtain ⟨a, ha, back, hback⟩ := exists_prefix_of_mem_visit m hm
      rw [← hback]
      rcases List.mem_append.mp ha with ha | ha
      · obtain ⟨j, hj⟩ := address_of_mem_inside ha
        rw [hj, List.append_assoc]
        exact lt_append_cons _ _ _
      · have hahead := (hfirst a ha).append [] back
        rw [List.append_nil] at hahead
        exact hahead.lt
    · -- The messages inside the first are in order, and ahead of the rest as it is.
      apply ih
      rw [List.pairwise_append]
      refine ⟨pairwise_ahead_inCollection _ _ _ _ _, hrest, ?_⟩
      intro n hn a ha
      obtain ⟨j, hj⟩ := address_of_mem_inside hn
      have hahead := (hfirst a ha).append [3, (j : Int)] []
      rwa [List.append_nil, ← hj] at hahead

end MessageDecl

namespace FileDecl

/-! ## The declarations of a file -/

theorem mem_topMessages {f : FileDecl} {m : Placed MessageDecl} :
    m ∈ f.topMessages ↔ ∃ i, f.messageAt? (.top i) = some m := by
  rw [topMessages, Placed.mem_inCollection]
  constructor
  · rintro ⟨i, d, hd, rfl⟩
    exact ⟨i, Option.map_eq_some_iff.mpr ⟨d, hd, by rw [inScope_empty]; rfl⟩⟩
  · rintro ⟨i, hi⟩
    obtain ⟨d, hd, rfl⟩ := Option.map_eq_some_iff.mp hi
    exact ⟨i, d, hd, by rw [inScope_empty]; rfl⟩

theorem mem_inside {f : FileDecl} {s : MessageSite} {m n : Placed MessageDecl}
    (hs : f.messageAt? s = some m) :
    n ∈ MessageDecl.inside m ↔ ∃ j, f.messageAt? (.nested s j) = some n := by
  have hnested : ∀ j, f.messageAt? (.nested s j) = m.decl.nested[j]?.map fun d ↦
      ⟨s.address ++ [3, (j : Int)], inScope m.longName d.name, d⟩ := fun j ↦ by
    rw [messageAt?, hs]
    rfl
  rw [MessageDecl.inside, Placed.mem_inCollection, messageAt?_address hs]
  simp only [hnested, Option.map_eq_some_iff]
  constructor
  · rintro ⟨j, d, hd, rfl⟩
    exact ⟨j, d, hd, rfl⟩
  · rintro ⟨j, d, hd, rfl⟩
    exact ⟨j, d, hd, rfl⟩

/-- The messages of a file are those at its sites. -/
theorem mem_allMessages {f : FileDecl} {m : Placed MessageDecl} :
    m ∈ f.allMessages ↔ ∃ s, f.messageAt? s = some m := by
  constructor
  · intro hm
    refine MessageDecl.visit_induction (P := fun m ↦ ∃ s, f.messageAt? s = some m) ?_ ?_ m hm
    · intro m hm
      obtain ⟨i, hi⟩ := mem_topMessages.mp hm
      exact ⟨.top i, hi⟩
    · intro m ⟨s, hs⟩ n hn
      obtain ⟨j, hj⟩ := (mem_inside hs).mp hn
      exact ⟨.nested s j, hj⟩
  · -- Over the site: a nested message is reached since the message around it is.
    rintro ⟨s, hs⟩
    induction s generalizing m with
    | top i => exact MessageDecl.mem_visit_of_mem (mem_topMessages.mpr ⟨i, hs⟩)
    | nested outer j ih =>
      obtain ⟨o, ho, -⟩ := Option.bind_eq_some_iff.mp hs
      exact MessageDecl.mem_visit_of_mem_inside (ih ho) ((mem_inside ho).mpr ⟨j, hs⟩)

/-- The enumerations of a file are those at its sites. -/
theorem mem_allEnums {f : FileDecl} {e : Placed EnumDecl} :
    e ∈ f.allEnums ↔ ∃ s, f.enumAt? s = some e := by
  rw [allEnums, List.mem_append, List.mem_flatMap, topEnums, Placed.mem_inCollection]
  constructor
  · rintro (⟨i, d, hd, rfl⟩ | ⟨m, hm, he⟩)
    · exact ⟨.top i, Option.map_eq_some_iff.mpr ⟨d, hd, by rw [inScope_empty]; rfl⟩⟩
    · obtain ⟨s, hs⟩ := mem_allMessages.mp hm
      obtain ⟨j, d, hd, rfl⟩ := Placed.mem_inCollection.mp he
      refine ⟨.nested s j, ?_⟩
      rw [enumAt?, hs, Option.bind_some, hd, messageAt?_address hs]
      rfl
  · rintro ⟨s, hs⟩
    cases s with
    | top i =>
      obtain ⟨d, hd, rfl⟩ := Option.map_eq_some_iff.mp hs
      exact .inl ⟨i, d, hd, by rw [inScope_empty]; rfl⟩
    | nested outer j =>
      obtain ⟨m, hm, he⟩ := Option.bind_eq_some_iff.mp hs
      obtain ⟨d, hd, rfl⟩ := Option.map_eq_some_iff.mp he
      refine .inr ⟨m, mem_allMessages.mpr ⟨outer, hm⟩, Placed.mem_inCollection.mpr ⟨j, d, hd, ?_⟩⟩
      rw [messageAt?_address hm]
      rfl

/-! ## Long names -/

/-- The names of a file's messages, those inside messages included, are segments. -/
def SegmentNames (f : FileDecl) : Prop :=
  ∀ s m, f.messageAt? s = some m → IsSegment m.decl.name

theorem segmentNames_iff {f : FileDecl} :
    f.SegmentNames ↔ ∀ m ∈ f.allMessages, IsSegment m.decl.name := by
  constructor
  · intro h m hm
    obtain ⟨s, hs⟩ := mem_allMessages.mp hm
    exact h s m hs
  · intro h s m hs
    exact h m (mem_allMessages.mpr ⟨s, hs⟩)

instance (f : FileDecl) : Decidable f.SegmentNames := decidable_of_iff' _ segmentNames_iff

theorem longName_top {f : FileDecl} {i : Nat} {m : Placed MessageDecl}
    (h : f.messageAt? (.top i) = some m) : m.longName = m.decl.name := by
  obtain ⟨_, _, rfl⟩ := Option.map_eq_some_iff.mp h
  rfl

theorem longName_nested {f : FileDecl} {s : MessageSite} {j : Nat} {m n : Placed MessageDecl}
    (hm : f.messageAt? s = some m) (hn : f.messageAt? (.nested s j) = some n) :
    n.longName = inScope m.longName n.decl.name := by
  rw [messageAt?, hm] at hn
  obtain ⟨_, _, rfl⟩ := Option.map_eq_some_iff.mp hn
  rfl

-- Long names are made of segments: they are not empty and start with no dot.
theorem longName_start {f : FileDecl} (hf : f.SegmentNames) {s : MessageSite}
    {m : Placed MessageDecl} (hm : f.messageAt? s = some m) :
    m.longName ≠ "" ∧ m.longName.toList.head? ≠ some '.' := by
  induction s generalizing m with
  | top i =>
    have hname := hf _ _ hm
    rw [longName_top hm]
    exact ⟨hname.ne_empty, hname.head?_ne_dot⟩
  | nested outer j ih =>
    obtain ⟨o, ho, -⟩ := Option.bind_eq_some_iff.mp hm
    obtain ⟨hne, hdot⟩ := ih ho
    rw [longName_nested ho hm, head?_inScope _ hne]
    exact ⟨inScope_ne_empty (hf _ _ hm).ne_empty, hdot⟩

/-- The messages of a file come in the order of their addresses. -/
theorem pairwise_address_allMessages (f : FileDecl) :
    f.allMessages.Pairwise fun m n ↦ m.address < n.address :=
  MessageDecl.pairwise_address_visit (MessageDecl.pairwise_ahead_inCollection _ _ _ _ _)

/-- No two messages of a file have one address. -/
theorem nodup_address_allMessages (f : FileDecl) : (f.allMessages.map (·.address)).Nodup := by
  apply List.pairwise_map.mpr
  apply f.pairwise_address_allMessages.imp
  intro m n hmn he
  exact List.lt_irrefl _ (he ▸ hmn)

/-- No two enumerations of a file have one address. -/
theorem nodup_address_allEnums (f : FileDecl) : (f.allEnums.map (·.address)).Nodup := by
  rw [allEnums, List.map_append, List.map_flatMap, List.nodup_append, List.nodup_flatMap]
  refine ⟨MessageDecl.nodup_address_inCollection _ _ _ _ _,
    ⟨fun m _ ↦ MessageDecl.nodup_address_inCollection _ _ _ _ _, ?_⟩, ?_⟩
  · -- The address of a nested enumeration tells that of its message.
    apply (List.pairwise_map.mp f.nodup_address_allMessages).imp
    intro m n hne a ham han
    obtain ⟨p, hp, rfl⟩ := List.mem_map.mp ham
    obtain ⟨q, hq, he⟩ := List.mem_map.mp han
    obtain ⟨i, d, -, rfl⟩ := Placed.mem_inCollection.mp hp
    obtain ⟨j, e, -, rfl⟩ := Placed.mem_inCollection.mp hq
    exact hne (List.append_inj' he rfl).1.symm
  · -- One of the file itself and one inside a message: the sites would be the same.
    intro a ha b hb he
    obtain ⟨p, hp, rfl⟩ := List.mem_map.mp ha
    obtain ⟨i, d, -, rfl⟩ := Placed.mem_inCollection.mp hp
    obtain ⟨m, hm, hb⟩ := List.mem_flatMap.mp hb
    obtain ⟨q, hq, rfl⟩ := List.mem_map.mp hb
    obtain ⟨j, e, -, rfl⟩ := Placed.mem_inCollection.mp hq
    obtain ⟨s, hs⟩ := mem_allMessages.mp hm
    rw [messageAt?_address hs] at he
    have hsite : Site.enumeration (.top i) = .enumeration (.nested s j) := Site.address_inj.mp he
    cases hsite

end FileDecl
end ProtoCatalog
