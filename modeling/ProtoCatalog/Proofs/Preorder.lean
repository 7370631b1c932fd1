import Mathlib.Logic.Function.Iterate
import ProtoCatalog.Proofs.Walk

/-!
# The walk is the recursive preorder

The declarations of a file are listed in three ways: by the agenda, by a recursion over the tree
of messages, and by a loop over a stack that holds each waiting message with its address and the
scope it is in.  The three agree, and the loop ends after as many rounds as there are messages.
Each listed declaration is the one that its address leads to from the file.
-/

namespace ProtoCatalog

namespace MessageDecl

/-! ## The recursive preorder -/

mutual

/-- A message at an address in a scope, followed by those inside it. -/
def preorder (address : Address) (scope : String) : MessageDecl → List (Placed MessageDecl)
  | m@{ name, nested, .. } =>
    ⟨address, inScope scope name, m⟩ ::
      preorderAll address .nestedMessages (inScope scope name) 0 nested

/-- The messages of a collection from an index on, each followed by those inside it. -/
def preorderAll (address : Address) (collection : Collection) (scope : String) (index : Nat) :
    List MessageDecl → List (Placed MessageDecl)
  | [] => []
  | m :: rest =>
    m.preorder (address.child collection index) scope ++
      preorderAll address collection scope (index + 1) rest

end

/-- A message that has its place, followed by those inside it. -/
def preorderAt (m : Placed MessageDecl) : List (Placed MessageDecl) :=
  m :: preorderAll m.address .nestedMessages m.longName 0 m.decl.nested

theorem preorder_eq (address : Address) (scope : String) (m : MessageDecl) :
    m.preorder address scope = preorderAt ⟨address, inScope scope m.name, m⟩ := by
  cases m; simp [preorder, preorderAt]

theorem preorderAll_eq_flatMap (address : Address) (collection : Collection) (scope : String)
    (index : Nat) (ms : List MessageDecl) :
    preorderAll address collection scope index ms = (ms.zipIdx index).flatMap fun p ↦
      p.1.preorder (address.child collection p.2) scope := by
  induction ms generalizing index with
  | nil => simp [preorderAll]
  | cons m rest ih => simp [preorderAll, ih]

theorem flatMap_preorderAt_inCollection (address : Address) (collection : Collection)
    (scope : String) (ms : List MessageDecl) :
    (Placed.inCollection (·.name) address scope collection ms).flatMap preorderAt =
      preorderAll address collection scope 0 ms := by
  rw [preorderAll_eq_flatMap, Placed.inCollection, List.mapIdx_eq_zipIdx_map, List.flatMap_map]
  congr 1
  funext p
  exact (preorder_eq _ _ p.1).symm

/-- An agenda is visited as the preorders of what is on it, one after the other. -/
theorem visit_eq_flatMap (agenda : List (Placed MessageDecl)) :
    visit agenda = agenda.flatMap preorderAt := by
  induction agenda using visit.induct with
  | case1 => rw [visit, List.flatMap_nil]
  | case2 m rest ih =>
    rw [visit, ih, List.flatMap_append, List.flatMap_cons, inside,
      flatMap_preorderAt_inCollection, preorderAt, List.cons_append]

theorem countAll_eq_zero {ms : List MessageDecl} : countAll ms = 0 ↔ ms = [] := by
  cases ms with
  | nil => simp [countAll]
  | cons m rest => simp [countAll, count_eq]

end MessageDecl

/-- The messages of a file in preorder. -/
def FileDecl.preorder (f : FileDecl) : List (Placed MessageDecl) :=
  MessageDecl.preorderAll Address.file .fileMessages "" 0 f.messages

theorem FileDecl.allMessages_eq_preorder (f : FileDecl) : f.allMessages = f.preorder := by
  rw [allMessages, MessageDecl.visit_eq_flatMap, topMessages,
    MessageDecl.flatMap_preorderAt_inCollection, preorder]

/-! ## The loop over a stack -/

/-- A message that waits for its turn, with its address and the scope it is declared in. -/
structure Waiting where
  address : Address
  scope : String
  decl : MessageDecl

namespace Waiting

def placed (w : Waiting) : Placed MessageDecl :=
  ⟨w.address, inScope w.scope w.decl.name, w.decl⟩

/-- The messages of a collection, in their order. -/
def ofCollection (address : Address) (scope : String) (collection : Collection)
    (ms : List MessageDecl) : List Waiting :=
  ms.mapIdx fun i m => ⟨address.child collection i, scope, m⟩

theorem map_decl_ofCollection (address : Address) (scope : String) (collection : Collection)
    (ms : List MessageDecl) :
    (ofCollection address scope collection ms).map (·.decl) = ms := by
  simp [ofCollection, List.mapIdx_eq_zipIdx_map, Function.comp_def, List.zipIdx_map_fst]

theorem map_placed_ofCollection (address : Address) (scope : String) (collection : Collection)
    (ms : List MessageDecl) :
    (ofCollection address scope collection ms).map placed =
      Placed.inCollection (·.name) address scope collection ms := by
  simp [ofCollection, Placed.inCollection, List.mapIdx_eq_zipIdx_map, Function.comp_def, placed]

end Waiting

/-- The state of the loop: the stack with its top in front, and what has been listed. -/
@[ext]
structure Walker where
  stack : List Waiting
  messages : List (Placed MessageDecl)
  enums : List (Placed EnumDecl)

namespace Walker

/-- A stack after some pushes, the last of which is on top. -/
def push (stack pushed : List Waiting) : List Waiting :=
  pushed.foldl (fun s w => w :: s) stack

/-- Before the first round, the enumerations of the file itself are listed, and its messages wait.
The last is pushed first. -/
def start (f : FileDecl) : Walker where
  stack := push [] (Waiting.ofCollection Address.file "" .fileMessages f.messages).reverse
  messages := []
  enums := f.topEnums

/-- One round takes the top off the stack, lists it and its enumerations, and pushes the messages
inside it, the last one first. -/
def round (w : Walker) : Walker :=
  match w.stack with
  | [] => w
  | top :: rest =>
    let m := top.placed
    { stack := push rest
        (Waiting.ofCollection m.address m.longName .nestedMessages m.decl.nested).reverse
      messages := w.messages ++ [m]
      enums := w.enums ++ MessageDecl.enumsInside m }

/-- What the stack still holds, in preorder. -/
def rest (w : Walker) : List (Placed MessageDecl) :=
  w.stack.flatMap fun t => t.decl.preorder t.address t.scope

/-- The messages that are listed and those that are left. -/
def allMessages (w : Walker) : List (Placed MessageDecl) := w.messages ++ w.rest

def allEnums (w : Walker) : List (Placed EnumDecl) :=
  w.enums ++ w.rest.flatMap MessageDecl.enumsInside

def size (w : Walker) : Nat := MessageDecl.countAll (w.stack.map (·.decl))

theorem push_reverse (stack pushed : List Waiting) :
    push stack pushed.reverse = pushed ++ stack := by
  rw [push, List.foldl_reverse, List.foldr_cons_eq_append, List.map_id']

theorem flatMap_preorder (stack : List Waiting) :
    (stack.flatMap fun t ↦ t.decl.preorder t.address t.scope) =
      (stack.map Waiting.placed).flatMap MessageDecl.preorderAt := by
  simp only [List.flatMap_map, MessageDecl.preorder_eq, Waiting.placed]

theorem size_start (f : FileDecl) : (start f).size = MessageDecl.countAll f.messages := by
  rw [size, start, push_reverse, List.append_nil, Waiting.map_decl_ofCollection]

theorem rest_start (f : FileDecl) : (start f).rest = f.preorder := by
  rw [rest, start, push_reverse, List.append_nil, flatMap_preorder,
    Waiting.map_placed_ofCollection, MessageDecl.flatMap_preorderAt_inCollection, FileDecl.preorder]

theorem stack_eq_nil_iff {w : Walker} : w.stack = [] ↔ w.size = 0 := by
  rw [size, MessageDecl.countAll_eq_zero, List.map_eq_nil_iff]

/-! ### One round -/

theorem round_of_nil {w : Walker} (h : w.stack = []) : w.round = w := by
  rw [round, h]

-- The pushes undo the reversal: what is inside the top lies in its order on what was below it.
theorem round_of_cons {w : Walker} {top : Waiting} {stack : List Waiting}
    (h : w.stack = top :: stack) :
    w.round =
      { stack := Waiting.ofCollection top.placed.address top.placed.longName .nestedMessages
          top.decl.nested ++ stack
        messages := w.messages ++ [top.placed]
        enums := w.enums ++ MessageDecl.enumsInside top.placed } := by
  rw [round, h]
  simp only [push_reverse]
  rfl

theorem size_round (w : Walker) : w.round.size = w.size - 1 := by
  cases h : w.stack with
  | nil => rw [round_of_nil h, stack_eq_nil_iff.mp h]
  | cons top stack =>
    rw [round_of_cons h, size, size, h, List.map_append, Waiting.map_decl_ofCollection,
      MessageDecl.countAll_append, List.map_cons, MessageDecl.countAll, MessageDecl.count_eq]
    omega

/-- A round lists just the first of what is left. -/
theorem rest_of_cons {w : Walker} {top : Waiting} {stack : List Waiting}
    (h : w.stack = top :: stack) : w.rest = top.placed :: w.round.rest := by
  rw [round_of_cons h, rest, rest, h, flatMap_preorder, flatMap_preorder, List.map_cons,
    List.flatMap_cons, List.map_append, List.flatMap_append, Waiting.map_placed_ofCollection,
    MessageDecl.flatMap_preorderAt_inCollection, MessageDecl.preorderAt, List.cons_append]
  rfl

/-- What is listed and what is left make up one list, before a round and after it. -/
theorem allMessages_round (w : Walker) : w.round.allMessages = w.allMessages := by
  cases h : w.stack with
  | nil => rw [round_of_nil h]
  | cons top stack =>
    rw [allMessages, allMessages, rest_of_cons h, round_of_cons h, List.append_assoc,
      List.singleton_append]

theorem allEnums_round (w : Walker) : w.round.allEnums = w.allEnums := by
  cases h : w.stack with
  | nil => rw [round_of_nil h]
  | cons top stack =>
    rw [allEnums, allEnums, rest_of_cons h, round_of_cons h, List.append_assoc, List.flatMap_cons]

/-! ### All rounds -/

theorem size_rounds (n : Nat) (w : Walker) : (round^[n] w).size = w.size - n := by
  induction n with
  | zero => rfl
  | succ n ih => rw [Function.iterate_succ_apply', size_round, ih, Nat.sub_sub]

-- What no round changes, no number of rounds does.
theorem rounds_eq {α : Type} {g : Walker → α} (h : ∀ w, g w.round = g w) (n : Nat) (w : Walker) :
    g (round^[n] w) = g w := by
  induction n with
  | zero => rfl
  | succ n ih => rw [Function.iterate_succ_apply', h, ih]

/-- The stack is empty from a certain round on, and not before. -/
theorem stack_rounds_eq_nil_iff (f : FileDecl) (n : Nat) :
    (round^[n] (start f)).stack = [] ↔ MessageDecl.countAll f.messages ≤ n := by
  rw [stack_eq_nil_iff, size_rounds, size_start, Nat.sub_eq_zero_iff_le]

/-- Once its stack is empty, the loop has listed what the agenda lists. -/
theorem rounds_eq_of_stack {f : FileDecl} {n : Nat} (h : (round^[n] (start f)).stack = []) :
    round^[n] (start f) = ⟨[], f.allMessages, f.allEnums⟩ := by
  have hrest : (round^[n] (start f)).rest = [] := by rw [rest, h, List.flatMap_nil]
  have hmessages := rounds_eq allMessages_round n (start f)
  have henums := rounds_eq allEnums_round n (start f)
  rw [allMessages, allMessages, hrest, rest_start, ← f.allMessages_eq_preorder,
    List.append_nil] at hmessages
  rw [allEnums, allEnums, hrest, rest_start, ← f.allMessages_eq_preorder, List.flatMap_nil,
    List.append_nil] at henums
  exact Walker.ext h hmessages henums

end Walker

/-! ## Following an address -/

/-- A message or an enumeration. -/
inductive Target where
  | message (m : MessageDecl)
  | enumeration (e : EnumDecl)

/-- What an address leads to, and the names that are met on the way to it, its own included. -/
structure Trail where
  names : List String
  target : Target

/-- The declaration with an index in a collection. -/
def declaredAt {α : Type} (decls : List α) (index : Int) : Option α :=
  index.toNat?.bind fun i => decls[i]?

/-- Where the rest of an address leads from a message, after the names of those around it. -/
def MessageDecl.follow? (names : List String) (m : MessageDecl) : Address → Option Trail
  | [] => some ⟨names ++ [m.name], .message m⟩
  | [4, j] => (declaredAt m.enums j).map fun e => ⟨names ++ [m.name, e.name], .enumeration e⟩
  | 3 :: j :: rest => (declaredAt m.nested j).bind fun n => n.follow? (names ++ [m.name]) rest
  | _ => none

namespace FileDecl

/-- Where an address leads from the file. -/
def follow? (f : FileDecl) : Address → Option Trail
  | 4 :: i :: rest => (declaredAt f.messages i).bind fun m => m.follow? [] rest
  | [5, i] => (declaredAt f.enums i).map fun e => ⟨[e.name], .enumeration e⟩
  | _ => none

/-- The messages of a file, then its enumerations. -/
def declarations (f : FileDecl) : List (Placed Target) :=
  f.allMessages.map (fun m => ⟨m.address, m.longName, .message m.decl⟩) ++
    f.allEnums.map fun e => ⟨e.address, e.longName, .enumeration e.decl⟩

theorem mem_declarations {f : FileDecl} {p : Placed Target} :
    p ∈ f.declarations ↔
      (∃ s m, f.messageAt? s = some m ∧ p = ⟨m.address, m.longName, .message m.decl⟩) ∨
      ∃ s e, f.enumAt? s = some e ∧ p = ⟨e.address, e.longName, .enumeration e.decl⟩ := by
  rw [declarations, List.mem_append, List.mem_map, List.mem_map]
  constructor
  · rintro (⟨m, hm, rfl⟩ | ⟨e, he, rfl⟩)
    · obtain ⟨s, hs⟩ := mem_allMessages.mp hm
      exact .inl ⟨s, m, hs, rfl⟩
    · obtain ⟨s, hs⟩ := mem_allEnums.mp he
      exact .inr ⟨s, e, hs, rfl⟩
  · rintro (⟨s, m, hs, rfl⟩ | ⟨s, e, hs, rfl⟩)
    · exact .inl ⟨m, mem_allMessages.mpr ⟨s, hs⟩, rfl⟩
    · exact .inr ⟨e, mem_allEnums.mpr ⟨s, hs⟩, rfl⟩

end FileDecl

theorem declaredAt_eq_some_iff {α : Type} {decls : List α} {index : Int} {d : α} :
    declaredAt decls index = some d ↔ ∃ i : Nat, index = i ∧ decls[i]? = some d := by
  simp only [declaredAt, Option.bind_eq_some_iff, ← Int.mem_toNat?]

theorem declaredAt_natCast {α : Type} (decls : List α) (i : Nat) :
    declaredAt decls i = decls[i]? := by
  rw [declaredAt, Int.mem_toNat?.mpr rfl, Option.bind_some]

namespace FileDecl

/-- The address of a message leads to it, and what is left of a longer one is followed from there.
The names on the way make up its long name. -/
theorem follow?_append {f : FileDecl} {s : MessageSite} {m : Placed MessageDecl}
    (h : f.messageAt? s = some m) :
    ∃ names, m.longName = (names ++ [m.decl.name]).foldl inScope "" ∧
      ∀ rest, f.follow? (m.address ++ rest) = m.decl.follow? names rest := by
  rw [messageAt?_address h]
  induction s generalizing m with
  | top i =>
    obtain ⟨d, hd, rfl⟩ := Option.map_eq_some_iff.mp h
    refine ⟨[], (inScope_empty _).symm, fun rest ↦ ?_⟩
    simp [MessageSite.address, follow?, declaredAt_natCast, hd]
  | nested outer j ih =>
    obtain ⟨o, ho, hn⟩ := Option.bind_eq_some_iff.mp h
    obtain ⟨d, hd, rfl⟩ := Option.map_eq_some_iff.mp hn
    obtain ⟨names, hlong, hfollow⟩ := ih ho
    refine ⟨names ++ [o.decl.name], ?_, fun rest ↦ ?_⟩
    · rw [List.foldl_append, ← hlong]
      rfl
    · rw [MessageSite.address, List.append_assoc, hfollow]
      simp [MessageDecl.follow?, declaredAt_natCast, hd]

/-- The address of a declaration leads to it, and the names on the way make up its long name. -/
theorem follow?_of_mem {f : FileDecl} {p : Placed Target} (h : p ∈ f.declarations) :
    ∃ names, f.follow? p.address = some ⟨names, p.decl⟩ ∧
      p.longName = names.foldl inScope "" := by
  rcases mem_declarations.mp h with ⟨s, m, hm, rfl⟩ | ⟨s, e, he, rfl⟩
  · obtain ⟨names, hlong, hfollow⟩ := follow?_append hm
    refine ⟨names ++ [m.decl.name], ?_, hlong⟩
    have hself := hfollow []
    rwa [List.append_nil] at hself
  · cases s with
    | top i =>
      obtain ⟨d, hd, rfl⟩ := Option.map_eq_some_iff.mp he
      refine ⟨[d.name], ?_, (inScope_empty _).symm⟩
      simp [follow?, declaredAt_natCast, hd]
    | nested outer j =>
      obtain ⟨m, hm, hj⟩ := Option.bind_eq_some_iff.mp he
      obtain ⟨d, hd, rfl⟩ := Option.map_eq_some_iff.mp hj
      obtain ⟨names, hlong, hfollow⟩ := follow?_append hm
      refine ⟨names ++ [m.decl.name] ++ [d.name], ?_, ?_⟩
      · show f.follow? (outer.address ++ [4, (j : Int)]) = _
        rw [← messageAt?_address hm, hfollow]
        simp [MessageDecl.follow?, declaredAt_natCast, hd]
      · rw [List.foldl_append, ← hlong]
        rfl

/-- What an address leads to from a message of the file is listed with that address. -/
theorem exists_mem_of_follow?_message {f : FileDecl} {s : MessageSite} {long : String}
    {m : MessageDecl} (hs : f.messageAt? s = some ⟨s.address, long, m⟩) {names : List String}
    {rest : Address} {trail : Trail} (h : m.follow? names rest = some trail) :
    ∃ p ∈ f.declarations, p.address = s.address ++ rest ∧ p.decl = trail.target := by
  -- Over the rest of the address: a step into a message leaves one that is shorter.
  fun_induction MessageDecl.follow? names m rest generalizing s long with
  | case1 names m =>
    obtain rfl := Option.some.inj h
    exact ⟨_, mem_declarations.mpr (.inl ⟨s, _, hs, rfl⟩), (List.append_nil _).symm, rfl⟩
  | case2 names m j =>
    obtain ⟨e, he, rfl⟩ := Option.map_eq_some_iff.mp h
    obtain ⟨i, rfl, hi⟩ := declaredAt_eq_some_iff.mp he
    have hsite : f.enumAt? (.nested s i) =
        some ⟨s.address ++ [4, (i : Int)], inScope long e.name, e⟩ := by
      rw [enumAt?, hs, Option.bind_some, hi, Option.map_some]
    exact ⟨_, mem_declarations.mpr (.inr ⟨_, _, hsite, rfl⟩), rfl, rfl⟩
  | case3 names m j rest ih =>
    obtain ⟨n, hn, hrest⟩ := Option.bind_eq_some_iff.mp h
    obtain ⟨i, rfl, hi⟩ := declaredAt_eq_some_iff.mp hn
    have hsite : f.messageAt? (.nested s i) =
        some ⟨s.address ++ [3, (i : Int)], inScope long n.name, n⟩ := by
      rw [messageAt?, hs, Option.bind_some, hi, Option.map_some]
    obtain ⟨p, hp, haddress, hdecl⟩ := ih n hsite hrest
    refine ⟨p, hp, ?_, hdecl⟩
    rw [haddress, MessageSite.address, List.append_assoc]
    rfl
  | case4 => cases h

/-- What an address leads to is listed with that address. -/
theorem exists_mem_of_follow? {f : FileDecl} {a : Address} {trail : Trail}
    (h : f.follow? a = some trail) :
    ∃ p ∈ f.declarations, p.address = a ∧ p.decl = trail.target := by
  unfold follow? at h
  split at h
  case h_1 i rest =>
    obtain ⟨m, hm, hrest⟩ := Option.bind_eq_some_iff.mp h
    obtain ⟨i, rfl, hi⟩ := declaredAt_eq_some_iff.mp hm
    have hsite : f.messageAt? (.top i) = some ⟨[4, (i : Int)], m.name, m⟩ := by
      rw [messageAt?, hi, Option.map_some]
    exact exists_mem_of_follow?_message hsite hrest
  case h_2 i =>
    obtain ⟨e, he, rfl⟩ := Option.map_eq_some_iff.mp h
    obtain ⟨i, rfl, hi⟩ := declaredAt_eq_some_iff.mp he
    have hsite : f.enumAt? (.top i) = some ⟨[5, (i : Int)], e.name, e⟩ := by
      rw [enumAt?, hi, Option.map_some]
    exact ⟨_, mem_declarations.mpr (.inr ⟨_, _, hsite, rfl⟩), rfl, rfl⟩
  case h_3 => cases h

/-- A file lists at an address what the address leads to, with the names on the way, and nothing
else. -/
theorem mem_declarations_iff_follow? {f : FileDecl} {p : Placed Target} :
    p ∈ f.declarations ↔
      ∃ names, f.follow? p.address = some ⟨names, p.decl⟩ ∧
        p.longName = names.foldl inScope "" := by
  constructor
  · exact follow?_of_mem
  · rintro ⟨names, hfollow, hlong⟩
    obtain ⟨q, hq, haddress, hdecl⟩ := exists_mem_of_follow? hfollow
    obtain ⟨names', hfollow', hlong'⟩ := follow?_of_mem hq
    rw [haddress, hfollow] at hfollow'
    obtain ⟨rfl, -⟩ := Trail.mk.inj (Option.some.inj hfollow')
    -- One address leads to one declaration by one way.
    have hpq : p = q := by
      cases p; cases q
      simp_all
    rwa [hpq]

/-! ## The whole walk -/

/-- No two declarations of a file, messages and enumerations together, have one address. -/
theorem nodup_address_declarations (f : FileDecl) : (f.declarations.map (·.address)).Nodup := by
  rw [declarations, List.map_append, List.map_map, List.map_map, List.nodup_append]
  refine ⟨f.nodup_address_allMessages, f.nodup_address_allEnums, ?_⟩
  intro a ha b hb hab
  obtain ⟨m, hm, rfl⟩ := List.mem_map.mp ha
  obtain ⟨e, he, rfl⟩ := List.mem_map.mp hb
  -- The address would lead to a message and to an enumeration.
  obtain ⟨_, hmessage, -⟩ := follow?_of_mem (List.mem_append_left _ (List.mem_map_of_mem hm))
  obtain ⟨_, henum, -⟩ := follow?_of_mem (List.mem_append_right _ (List.mem_map_of_mem he))
  change m.address = e.address at hab
  rw [hab, henum] at hmessage
  cases hmessage

theorem not_prefix_of_lt {a b : Address} (h : a < b) : ¬b <+: a := by
  rintro ⟨rest, rfl⟩
  cases rest with
  | nil => exact List.lt_irrefl _ (List.append_nil b ▸ h)
  | cons i rest => exact List.lt_asymm h (MessageDecl.lt_append_cons b i rest)

/-- What a file's walk lists, and how its loop gets there.  The stack is empty once there were as
many rounds as messages, and what is listed then is the recursive preorder, each declaration once,
at the address that leads to it and with the long name of the way. -/
structure InPreorder (f : FileDecl) : Prop where
  ends : ∀ n, (Walker.round^[n] (.start f)).stack = [] ↔ MessageDecl.countAll f.messages ≤ n
  lists : ∀ n, (Walker.round^[n] (.start f)).stack = [] →
    Walker.round^[n] (.start f) = ⟨[], f.allMessages, f.allEnums⟩
  messages : f.allMessages = f.preorder
  enums : f.allEnums = f.topEnums ++ f.preorder.flatMap MessageDecl.enumsInside
  once : (f.declarations.map (·.address)).Nodup
  leads : ∀ p, p ∈ f.declarations ↔
    ∃ names, f.follow? p.address = some ⟨names, p.decl⟩ ∧ p.longName = names.foldl inScope ""
  ordered : f.allMessages.Pairwise fun m n => m.address < n.address ∧ ¬n.address <+: m.address

/-- Every file is walked in preorder. -/
theorem declarations_inPreorder (f : FileDecl) : f.InPreorder where
  ends := Walker.stack_rounds_eq_nil_iff f
  lists _ := Walker.rounds_eq_of_stack
  messages := f.allMessages_eq_preorder
  enums := by rw [allEnums, f.allMessages_eq_preorder]
  once := f.nodup_address_declarations
  leads _ := mem_declarations_iff_follow?
  ordered := f.pairwise_address_allMessages.imp fun h ↦ ⟨h, not_prefix_of_lt h⟩

end FileDecl
end ProtoCatalog
