import ProtoCatalog.Declaration.Walk

/-!
# Sites of declarations

Where a declaration can stand in a file, said by the structure of files and not by numbers, and
the address that each site has.  A site can be read back from its address.
-/

namespace ProtoCatalog

/-- Where a message stands: directly in its file, or inside another message. -/
inductive MessageSite where
  | top (index : Nat)
  | nested (outer : MessageSite) (index : Nat)
deriving DecidableEq, Repr

/-- Where an enumeration stands: directly in its file, or inside a message. -/
inductive EnumSite where
  | top (index : Nat)
  | nested (outer : MessageSite) (index : Nat)
deriving DecidableEq, Repr

/-- Where a declaration stands.  A oneof has the index that its members give. -/
inductive Site where
  | file
  | message (m : MessageSite)
  | field (m : MessageSite) (index : Nat)
  | messageExtension (m : MessageSite) (index : Nat)
  | oneof (m : MessageSite) (index : Int)
  | enumeration (e : EnumSite)
  | enumValue (e : EnumSite) (index : Nat)
  | service (index : Nat)
  | method (service index : Nat)
  | fileExtension (index : Nat)
deriving DecidableEq, Repr

/-- The address of a message. -/
def MessageSite.address : MessageSite → Address
  | .top i => [4, i]
  | .nested outer j => outer.address ++ [3, (j : Int)]

/-- The address of an enumeration. -/
def EnumSite.address : EnumSite → Address
  | .top i => [5, i]
  | .nested outer j => outer.address ++ [4, (j : Int)]

namespace Site

/-- The address of a declaration.  That of the file is its syntax statement's. -/
def address : Site → Address
  | .file => [12]
  | .message m => m.address
  | .field m j => m.address ++ [2, (j : Int)]
  | .messageExtension m j => m.address ++ [6, (j : Int)]
  | .oneof m k => m.address ++ [8, k]
  | .enumeration e => e.address
  | .enumValue e j => e.address ++ [2, (j : Int)]
  | .service i => [6, i]
  | .method i j => [6, i, 2, j]
  | .fileExtension i => [7, i]

/-- The declaration whose documentation holds that of another: values are in their enumeration,
methods in their service, and fields, extensions and oneofs in their message. -/
def owner : Site → Site
  | .field m _ => .message m
  | .messageExtension m _ => .message m
  | .oneof m _ => .message m
  | .enumValue e _ => .enumeration e
  | .method i _ => .service i
  | s => s

/-- The collection of a file's documentation that lists a declaration or its owner. -/
def collection : Site → Collection
  | .file => .fileSyntax
  | .message _ => .fileMessages
  | .field _ _ => .fileMessages
  | .messageExtension _ _ => .fileMessages
  | .oneof _ _ => .fileMessages
  | .enumeration _ => .fileEnums
  | .enumValue _ _ => .fileEnums
  | .service _ => .fileServices
  | .method _ _ => .fileServices
  | .fileExtension _ => .fileExtensions

theorem collection_owner (s : Site) : s.owner.collection = s.collection := by
  cases s <;> rfl

/-! ## Reading addresses -/

/-- The site that the rest of an address leads to from a message. -/
def inMessage (m : MessageSite) : List Int → Option Site
  | [] => some (.message m)
  | [2, j] => some (.field m j.toNat)
  | 3 :: j :: rest => inMessage (.nested m j.toNat) rest
  | [4, j] => some (.enumeration (.nested m j.toNat))
  | [4, j, 2, k] => some (.enumValue (.nested m j.toNat) k.toNat)
  | [6, j] => some (.messageExtension m j.toNat)
  | [8, k] => some (.oneof m k)
  | _ => none

/-- The site with an address. -/
def ofAddress? : Address → Option Site
  | [12] => some .file
  | 4 :: i :: rest => inMessage (.top i.toNat) rest
  | [5, i] => some (.enumeration (.top i.toNat))
  | [5, i, 2, j] => some (.enumValue (.top i.toNat) j.toNat)
  | [6, i] => some (.service i.toNat)
  | [6, i, 2, j] => some (.method i.toNat j.toNat)
  | [7, i] => some (.fileExtension i.toNat)
  | _ => none

-- The steps to a message lead back to it, and the rest is read from there.
theorem ofAddress?_append (m : MessageSite) (rest : List Int) :
    ofAddress? (m.address ++ rest) = inMessage m rest := by
  -- Over the outer messages: the last step of each joins the rest, so the rest is any.
  induction m generalizing rest with
  | top i => simp [MessageSite.address, ofAddress?]
  | nested outer j ih =>
    rw [MessageSite.address, List.append_assoc, ih]
    simp [inMessage]

theorem ofAddress?_address (s : Site) : ofAddress? s.address = some s := by
  cases s with
  | file => rfl
  | message m =>
    have h := ofAddress?_append m []
    rwa [List.append_nil] at h
  | field m j => simp [address, ofAddress?_append, inMessage]
  | messageExtension m j => simp [address, ofAddress?_append, inMessage]
  | oneof m k => simp [address, ofAddress?_append, inMessage]
  | enumeration e =>
    cases e with
    | top i => simp [address, EnumSite.address, ofAddress?]
    | nested m j => simp [address, EnumSite.address, ofAddress?_append, inMessage]
  | enumValue e j =>
    cases e with
    | top i => simp [address, EnumSite.address, ofAddress?]
    | nested m k => simp [address, EnumSite.address, ofAddress?_append, inMessage]
  | service i => simp [address, ofAddress?]
  | method i j => simp [address, ofAddress?]
  | fileExtension i => simp [address, ofAddress?]

/-- Different declarations have different addresses, however deep they are. -/
theorem address_inj {s t : Site} : s.address = t.address ↔ s = t := by
  constructor
  · intro h
    have hs := ofAddress?_address s
    rw [h, ofAddress?_address] at hs
    exact (Option.some.inj hs).symm
  · intro h
    rw [h]

end Site

/-! ## What stands at a site -/

namespace FileDecl

/-- The message at a site, with its address and its long name. -/
def messageAt? (f : FileDecl) : MessageSite → Option (Placed MessageDecl)
  | .top i => f.messages[i]?.map fun m => ⟨[4, i], m.name, m⟩
  | .nested outer j =>
    (f.messageAt? outer).bind fun m => m.decl.nested[j]?.map fun n =>
      ⟨outer.address ++ [3, (j : Int)], inScope m.longName n.name, n⟩

/-- The enumeration at a site, with its address and its long name. -/
def enumAt? (f : FileDecl) : EnumSite → Option (Placed EnumDecl)
  | .top i => f.enums[i]?.map fun e => ⟨[5, i], e.name, e⟩
  | .nested outer j =>
    (f.messageAt? outer).bind fun m => m.decl.enums[j]?.map fun e =>
      ⟨outer.address ++ [4, (j : Int)], inScope m.longName e.name, e⟩

theorem messageAt?_address {f : FileDecl} {s : MessageSite} {m : Placed MessageDecl}
    (h : f.messageAt? s = some m) : m.address = s.address := by
  cases s with
  | top i =>
    obtain ⟨_, _, rfl⟩ := Option.map_eq_some_iff.mp h
    rfl
  | nested outer j =>
    obtain ⟨_, _, hn⟩ := Option.bind_eq_some_iff.mp h
    obtain ⟨_, _, rfl⟩ := Option.map_eq_some_iff.mp hn
    rfl

theorem enumAt?_address {f : FileDecl} {s : EnumSite} {e : Placed EnumDecl}
    (h : f.enumAt? s = some e) : e.address = s.address := by
  cases s with
  | top i =>
    obtain ⟨_, _, rfl⟩ := Option.map_eq_some_iff.mp h
    rfl
  | nested outer j =>
    obtain ⟨_, _, hn⟩ := Option.bind_eq_some_iff.mp h
    obtain ⟨_, _, rfl⟩ := Option.map_eq_some_iff.mp hn
    rfl

end FileDecl
end ProtoCatalog
