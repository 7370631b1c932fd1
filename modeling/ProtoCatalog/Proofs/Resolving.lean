import ProtoCatalog.Proofs.Settling

/-!
# What settling does to every message

Full names may repeat.  The last message of a name, file by file and in the order of each file's
listing, is the one that map fields find, and only it can be marked.  Everything else about a
message stays as it is documented.
-/

namespace ProtoCatalog
namespace Catalog

/-! ## The last message of a name -/

/-- The messages of documented files: file by file, and in each in the order of its listing. -/
def nodes (files : List FileDoc) : List MessageDoc := files.flatMap (·.messages)

/-- A message, told by its position, is the last with a full name. -/
def LastNamed (ms : List MessageDoc) (name : String) (p : Nat) : Prop :=
  (fullNames ms)[p]? = some name ∧ ∀ q, p < q → (fullNames ms)[q]? ≠ some name

/-- The position of the last message of each full name. -/
def positions (ms : List MessageDoc) : Table Nat :=
  Table.ofList (ms.zipIdx.map fun m ↦ (m.1.names.full, m.2))

theorem LastNamed.unique {ms : List MessageDoc} {name : String} {p q : Nat}
    (hp : LastNamed ms name p) (hq : LastNamed ms name q) : p = q := by
  rcases Nat.lt_trichotomy p q with h | h | h
  · exact absurd hq.1 (hp.2 q h)
  · exact h
  · exact absurd hp.1 (hq.2 p h)

theorem getElem?_fullNames (ms : List MessageDoc) (p : Nat) :
    (fullNames ms)[p]? = ms[p]?.map (·.names.full) := List.getElem?_map

theorem mem_position_entries {ms : List MessageDoc} {name : String} {p : Nat} :
    (name, p) ∈ ms.zipIdx.map (fun m ↦ (m.1.names.full, m.2)) ↔ (fullNames ms)[p]? = some name := by
  rw [getElem?_fullNames, Option.map_eq_some_iff, List.mem_map]
  constructor
  · rintro ⟨⟨m, q⟩, hm, he⟩
    cases he
    exact ⟨m, List.mem_zipIdx_iff_getElem?.mp hm, rfl⟩
  · rintro ⟨m, hm, rfl⟩
    exact ⟨(m, p), List.mem_zipIdx_iff_getElem?.mpr hm, rfl⟩

-- The entries come in the order of the messages.
theorem pairwise_position_entries (ms : List MessageDoc) :
    (ms.zipIdx.map fun m ↦ (m.1.names.full, m.2)).Pairwise fun a b ↦ a.2 < b.2 := by
  have hrange : (ms.zipIdx.map Prod.snd).Pairwise (· < ·) := by
    rw [List.zipIdx_map_snd]
    exact List.pairwise_lt_range'
  exact List.pairwise_map.mpr (List.pairwise_map.mp hrange)

/-- The table of positions has the last message of each name. -/
theorem find?_positions {ms : List MessageDoc} {name : String} {p : Nat} :
    (positions ms).find? name = some p ↔ LastNamed ms name p := by
  have hlast : ∀ {q}, (positions ms).find? name = some q → LastNamed ms name q := by
    intro q hq
    obtain ⟨hin, hless⟩ := Table.find?_ofList_of_pairwise (pairwise_position_entries ms) hq
    refine ⟨mem_position_entries.mp hin, fun r hqr hr ↦ ?_⟩
    rcases hless (name, r) (mem_position_entries.mpr hr) rfl with he | hlt
    · exact absurd (congrArg Prod.snd he) (Nat.ne_of_gt hqr)
    · exact absurd hlt (Nat.not_lt_of_gt hqr)
  constructor
  · exact hlast
  · intro hp
    -- The name is in the table, and no other message is the last of it.
    have hkey : name ∈ (positions ms).keys := Table.mem_keys_ofList.mpr
      (List.mem_map_of_mem (f := Prod.fst) (mem_position_entries.mpr hp.1))
    obtain ⟨q, hq⟩ := Table.mem_keys_iff.mp hkey
    rw [hq, hp.unique (hlast hq)]

theorem messageTable_eq (files : List FileDoc) :
    messageTable files = Table.ofList ((nodes files).map fun m ↦ (m.names.full, m)) := by
  rw [messageTable, nodes, List.map_flatMap]

/-- What the table of messages has for a name is its last message. -/
theorem find?_messageTable_eq (files : List FileDoc) (name : String) :
    (messageTable files).find? name =
      ((positions (nodes files)).find? name).bind ((nodes files)[·]?) := by
  have hzip : (nodes files).map (fun m ↦ (m.names.full, m)) =
      (nodes files).zipIdx.map fun m ↦ (m.1.names.full, m.1) := by
    conv_lhs => rw [← List.zipIdx_map_fst 0 (nodes files), List.map_map]
    rfl
  rw [messageTable_eq, hzip, positions, Table.find?_ofList_map, Table.find?_ofList_map]
  cases hlast : ((nodes files).zipIdx.filter (·.1.names.full == name)).getLast? with
  | none => rfl
  | some m =>
    have hm := (List.mem_filter.mp (List.mem_of_getLast? hlast)).1
    exact (List.mem_zipIdx_iff_getElem?.mp hm).symm

theorem find?_messageTable_iff {files : List FileDoc} {name : String} {m : MessageDoc} :
    (messageTable files).find? name = some m ↔
      ∃ p, LastNamed (nodes files) name p ∧ (nodes files)[p]? = some m := by
  rw [find?_messageTable_eq, Option.bind_eq_some_iff]
  simp only [find?_positions]

/-! ## Marks -/

theorem lastNamed_iff_drop {ms : List MessageDoc} {m : MessageDoc} {p : Nat}
    (hm : ms[p]? = some m) :
    LastNamed ms m.names.full p ↔ m.names.full ∉ fullNames (ms.drop (p + 1)) := by
  have hdrop : m.names.full ∈ fullNames (ms.drop (p + 1)) ↔
      ∃ i, (fullNames ms)[p + 1 + i]? = some m.names.full := by
    rw [List.mem_iff_getElem?]
    simp only [getElem?_fullNames, List.getElem?_drop]
  rw [hdrop, LastNamed, getElem?_fullNames, hm]
  constructor
  · rintro ⟨-, hlater⟩ ⟨i, hi⟩
    exact hlater (p + 1 + i) (by omega) hi
  · intro hlater
    refine ⟨rfl, fun q hq hqn ↦ hlater ⟨q - (p + 1), ?_⟩⟩
    rwa [Nat.add_sub_cancel' hq]

theorem getElem?_markInternal (entries later : List String) (ms : List MessageDoc) (p : Nat) :
    (markInternal entries later ms)[p]? = ms[p]?.map fun m ↦
      { m with internal := entries.contains m.names.full &&
          !(fullNames (ms.drop (p + 1))).contains m.names.full &&
          !later.contains m.names.full } := by
  induction ms generalizing p with
  | nil => rfl
  | cons m rest ih =>
    cases p with
    | zero => rfl
    | succ p => exact ih p

/-- Marking goes from message to message, with the names that come later. -/
theorem markInternal_append (entries later : List String) (xs ys : List MessageDoc) :
    markInternal entries later (xs ++ ys) =
      markInternal entries (fullNames ys ++ later) xs ++ markInternal entries later ys := by
  induction xs with
  | nil => rfl
  | cons m rest ih =>
    have hnames : fullNames (rest ++ ys) = fullNames rest ++ fullNames ys := List.map_append
    simp only [List.cons_append, markInternal, ih, hnames, List.contains_append, Bool.not_or,
      Bool.and_assoc]

theorem fullNames_map_resolve (table : Table MessageDoc) (ms : List MessageDoc) :
    fullNames (ms.map (resolveMessage table)) = fullNames ms := by
  rw [fullNames, List.map_map]
  rfl

theorem fullNames_nodes (files : List FileDoc) : fullNames (nodes files) = allNames files :=
  List.map_flatMap

/-- Settling file by file marks the messages of all files one after another. -/
theorem nodes_settleFiles (table : Table MessageDoc) (entries : List String)
    (files : List FileDoc) :
    nodes (settleFiles table entries files) =
      markInternal entries [] ((nodes files).map (resolveMessage table)) := by
  induction files with
  | nil => rfl
  | cons f rest ih =>
    have hcons : ∀ (g : FileDoc) gs, nodes (g :: gs) = g.messages ++ nodes gs := fun _ _ ↦ rfl
    rw [settleFiles, hcons, hcons, ih, List.map_append, markInternal_append, fullNames_map_resolve,
      fullNames_nodes, List.append_nil]
    rfl

/-- What settling makes of each message: it is resolved through the table of all messages, and
marked if it is the last of its name and some map field has that name as its type. -/
theorem getElem?_nodes_settle (files : List FileDoc) (p : Nat) :
    (nodes (settle files))[p]? = (nodes files)[p]?.map fun m ↦
      { resolveMessage (messageTable files) m with
        internal := (mapTypes files).contains m.names.full &&
          (positions (nodes files)).find? m.names.full == some p } := by
  rw [settle, nodes_settleFiles, getElem?_markInternal, List.getElem?_map, Option.map_map]
  apply Option.map_congr
  intro m hm
  have hlast : ((positions (nodes files)).find? m.names.full == some p) =
      !(fullNames ((nodes files).drop (p + 1))).contains m.names.full := by
    rw [Bool.eq_iff_iff, beq_iff_eq, find?_positions, lastNamed_iff_drop hm]
    simp
  rw [← List.map_drop, fullNames_map_resolve, hlast]
  simp only [List.contains_nil, Bool.not_false, Bool.and_true]
  rfl

/-! ## What becomes of each message -/

/-- A field and the same field resolved among some messages: a map field whose entries are known
has the types of the last message of their name, and every other field has none. -/
structure ResolvedField (ms : List MessageDoc) (f g : FieldDoc) : Prop where
  kept : g = { f with mapKey := g.mapKey, mapValue := g.mapValue }
  known : ∀ p e, f.isMap = true → LastNamed ms f.type.full p → ms[p]? = some e →
    g.mapKey = entryType e keyName ∧ g.mapValue = entryType e valueName
  unknown : f.isMap = false ∨ f.type.full ∉ fullNames ms → g.mapKey = "" ∧ g.mapValue = ""

/-- A message and the same message resolved: all but its fields and its mark is the same. -/
structure ResolvedMessage (ms : List MessageDoc) (m x : MessageDoc) : Prop where
  kept : x = { m with fields := x.fields, oneofs := x.oneofs, internal := x.internal }
  fields : List.Forall₂ (ResolvedField ms) m.fields x.fields
  oneofs : List.Forall₂ (fun o q ↦ q = { o with fields := q.fields } ∧
    List.Forall₂ (ResolvedField ms) o.fields q.fields) m.oneofs x.oneofs

/-- What a message that is declared becomes: its documentation, with its map fields resolved among
some messages. -/
def ComesFrom [DescriptorPool] (registry : Option Registry) (f : FileDecl) (m : Placed MessageDecl)
    (x : MessageDoc) : Prop :=
  ∃ d ms, MessageDecl.document ⟨f, registry⟩ m = .ok d ∧ ResolvedMessage ms d x

/-- Documented files and the same files settled: their messages are resolved, and a message is
internal just if it is the last of its name and some map field has that name as its type. -/
structure Settlement (docs settled : List FileDoc) : Prop where
  files : List.Forall₂ (fun d s ↦ s = { d with messages := s.messages } ∧
    List.Forall₂ (ResolvedMessage (nodes docs)) d.messages s.messages) docs settled
  internal : ∀ p x, (nodes settled)[p]? = some x → (x.internal = true ↔
    LastNamed (nodes docs) x.names.full p ∧
      ∃ m ∈ nodes docs, ∃ f ∈ m.allFields, f.isMap = true ∧ f.type.full = x.names.full)

/-- A message as it is documented: not marked, and without key and value types. -/
structure Fresh (m : MessageDoc) : Prop where
  unmarked : m.internal = false
  untyped : ∀ f ∈ m.allFields, f.mapKey = "" ∧ f.mapValue = ""

theorem fresh_document [DescriptorPool] {ctx : DocContext} {m : Placed MessageDecl} {d : MessageDoc}
    (h : MessageDecl.document ctx m = .ok d) : Fresh d := by
  constructor
  · obtain ⟨_, _, _, _, _, _, rfl⟩ := MessageDecl.document_eq_ok h
    rfl
  · intro f hf
    obtain ⟨fields, hfields, hp⟩ := MessageDecl.allFields_perm h
    obtain ⟨i, decl, -, hdoc⟩ := mem_documentAll hfields (hp.mem_iff.mp hf)
    obtain ⟨_, _, _, _, rfl⟩ := FieldDecl.document_eq_ok hdoc
    exact ⟨rfl, rfl⟩

theorem resolvedField_resolveField {docs : List FileDoc} {f : FieldDoc}
    (h : f.mapKey = "" ∧ f.mapValue = "") :
    ResolvedField (nodes docs) f (resolveField (messageTable docs) f) := by
  constructor
  · unfold resolveField
    split
    · split <;> rfl
    · rfl
  · intro p e hmap hlast he
    rw [resolveField, if_pos hmap, find?_messageTable_iff.mpr ⟨p, hlast, he⟩]
    exact ⟨rfl, rfl⟩
  · intro hnone
    unfold resolveField
    split
    · rename_i hmap
      split
      · -- What the table has is some message of the name.
        rename_i e he
        obtain ⟨p, hlast, -⟩ := find?_messageTable_iff.mp he
        rcases hnone with hno | hno
        · exact absurd hmap (by simp [hno])
        · exact absurd (List.mem_of_getElem? hlast.1) hno
      · exact h
    · exact h

theorem resolvedMessage_resolveMessage {docs : List FileDoc} {m : MessageDoc} (h : Fresh m)
    (internal : Bool) : ResolvedMessage (nodes docs) m
      { resolveMessage (messageTable docs) m with internal := internal } := by
  have hfields : ∀ fs : List FieldDoc, (∀ f ∈ fs, f ∈ m.allFields) →
      List.Forall₂ (ResolvedField (nodes docs)) fs (fs.map (resolveField (messageTable docs))) := by
    intro fs hfs
    rw [List.forall₂_map_right_iff, List.forall₂_same]
    exact fun f hf ↦ resolvedField_resolveField (h.untyped f (hfs f hf))
  constructor
  · rfl
  · exact hfields m.fields fun f hf ↦ List.mem_append_left _ hf
  · show List.Forall₂ _ m.oneofs (m.oneofs.map _)
    rw [List.forall₂_map_right_iff, List.forall₂_same]
    exact fun o ho ↦ ⟨rfl, hfields o.fields fun f hf ↦
      List.mem_append_right _ (List.mem_flatMap.mpr ⟨o, ho, hf⟩)⟩

theorem mem_mapTypes_nodes {files : List FileDoc} {name : String} :
    name ∈ mapTypes files ↔
      ∃ m ∈ nodes files, ∃ f ∈ m.allFields, f.isMap = true ∧ f.type.full = name := by
  simp only [mapTypes, nodes, List.mem_flatMap, List.mem_map, List.mem_filter, and_assoc]
  constructor
  · rintro ⟨d, hd, m, hm, f, hf, hmap, hname⟩
    exact ⟨m, ⟨d, hd, hm⟩, f, hf, hmap, hname⟩
  · rintro ⟨m, ⟨d, hd, hm⟩, f, hf, hmap, hname⟩
    exact ⟨d, hd, m, hm, f, hf, hmap, hname⟩

theorem forall₂_markInternal {docs : List FileDoc} (entries later : List String)
    {ms : List MessageDoc} (h : ∀ m ∈ ms, Fresh m) :
    List.Forall₂ (ResolvedMessage (nodes docs)) ms
      (markInternal entries later (ms.map (resolveMessage (messageTable docs)))) := by
  induction ms with
  | nil => exact .nil
  | cons m rest ih =>
    obtain ⟨hm, hrest⟩ := List.forall_mem_cons.mp h
    exact .cons (resolvedMessage_resolveMessage hm _) (ih hrest)

theorem forall₂_settleFiles {docs : List FileDoc} (entries : List String) {files : List FileDoc}
    (h : ∀ m ∈ nodes files, Fresh m) :
    List.Forall₂ (fun d s ↦ s = { d with messages := s.messages } ∧
      List.Forall₂ (ResolvedMessage (nodes docs)) d.messages s.messages) files
      (settleFiles (messageTable docs) entries files) := by
  induction files with
  | nil => exact .nil
  | cons f rest ih =>
    refine .cons ⟨rfl, forall₂_markInternal entries _ fun m hm ↦ ?_⟩ (ih fun m hm ↦ ?_)
    · exact h m (List.mem_append_left _ hm)
    · exact h m (List.mem_append_right _ hm)

/-- What settling makes of files whose messages are as they are documented. -/
theorem settlement_settle {docs : List FileDoc} (h : ∀ m ∈ nodes docs, Fresh m) :
    Settlement docs (settle docs) := by
  refine ⟨forall₂_settleFiles (mapTypes docs) h, fun p x hx ↦ ?_⟩
  rw [getElem?_nodes_settle] at hx
  obtain ⟨m, -, rfl⟩ := Option.map_eq_some_iff.mp hx
  show ((mapTypes docs).contains m.names.full &&
      (positions (nodes docs)).find? m.names.full == some p) = true ↔
    LastNamed (nodes docs) m.names.full p ∧
      ∃ n ∈ nodes docs, ∃ f ∈ n.allFields, f.isMap = true ∧ f.type.full = m.names.full
  rw [Bool.and_eq_true, List.contains_iff_mem, beq_iff_eq, find?_positions, mem_mapTypes_nodes,
    and_comm]

/-- What a build makes of its files: they are documented, settled and put together. -/
theorem exists_settlement [DescriptorPool] {registry : Option Registry} {files : List FileDecl}
    {c : Catalog} (h : build registry files = .ok c) :
    ∃ docs, List.Forall₂ (fun f d ↦ f.document registry = .ok d) files docs ∧
      (∀ m ∈ nodes docs, Fresh m) ∧ Settlement docs (settle docs) ∧
      c = assemble (settle docs) := by
  obtain ⟨docs, hdocs, rfl⟩ := build_eq_ok.mp h
  have hfresh : ∀ m ∈ nodes docs, Fresh m := by
    intro m hm
    obtain ⟨d, hd, hmd⟩ := List.mem_flatMap.mp hm
    obtain ⟨f, -, hdoc⟩ := exists_of_mem_right hdocs hd
    obtain ⟨decl, -, hdecl⟩ := FileDecl.exists_decl_of_mem hdoc hmd
    exact fresh_document hdecl
  exact ⟨docs, hdocs, hfresh, settlement_settle hfresh, rfl⟩

end Catalog
end ProtoCatalog
