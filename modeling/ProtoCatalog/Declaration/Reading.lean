import ProtoCatalog.Declaration

/-!
# Declarations from descriptors

The declarations that descriptor messages describe.  What a descriptor leaves out has its
default: the empty text, zero, an optional label and the type of double-precision numbers.
-/

namespace ProtoCatalog

def Location.ofRecord (r : Record) : Location :=
  ⟨r.ints 1, r.ints 2, r.text 3, r.text 4⟩

/-- The field or extension that a descriptor describes. -/
def FieldDecl.ofRecord (r : Record) : FieldDecl where
  name := r.text 1
  extendee := r.text 2
  number := (r.int? 3).getD 0
  label := ((r.int? 4).bind Label.ofNumber?).getD .optional
  type := ((r.int? 5).bind FieldType.ofNumber?).getD (.scalar .double)
  typeName := r.text 6
  defaultValue := r.text 7
  options := r.record 8
  oneofIndex := r.int? 9
  proto3Optional := r.flag 17

def OneofDecl.ofRecord (r : Record) : OneofDecl := ⟨r.text 1⟩

def EnumValueDecl.ofRecord (r : Record) : EnumValueDecl :=
  ⟨r.text 1, (r.int? 2).getD 0, r.record 3⟩

def EnumDecl.ofRecord (r : Record) : EnumDecl :=
  ⟨r.text 1, (r.records 2).map EnumValueDecl.ofRecord, r.record 3⟩

namespace MessageDecl

mutual

/-- The message that a descriptor describes. -/
def ofDatum : Datum → MessageDecl
  | .record r =>
    { name := Record.text r 1
      fields := (Record.records r 2).map FieldDecl.ofRecord
      nested := nestedIn r
      enums := (Record.records r 4).map EnumDecl.ofRecord
      extensions := (Record.records r 6).map FieldDecl.ofRecord
      options := Record.record r 7
      oneofs := (Record.records r 8).map OneofDecl.ofRecord }
  | _ => default

def ofItems : Datum → List MessageDecl
  | .list items => ofData items
  | _ => []

def ofData : List Datum → List MessageDecl
  | [] => []
  | d :: rest => ofDatum d :: ofData rest

/-- The messages that the descriptors inside another describe. -/
def nestedIn : List (Nat × Datum) → List MessageDecl
  | [] => []
  | (number, d) :: rest => if number = 3 then ofItems d else nestedIn rest

end

end MessageDecl

def MethodDecl.ofRecord (r : Record) : MethodDecl :=
  ⟨r.text 1, r.text 2, r.text 3, r.flag 5, r.flag 6, r.record 4⟩

def ServiceDecl.ofRecord (r : Record) : ServiceDecl :=
  ⟨r.text 1, (r.records 2).map MethodDecl.ofRecord, r.record 3⟩

def FileDecl.ofRecord (r : Record) : FileDecl where
  name := r.text 1
  package := r.text 2
  messages := MessageDecl.ofData (r.items 4)
  enums := (r.records 5).map EnumDecl.ofRecord
  services := (r.records 6).map ServiceDecl.ofRecord
  extensions := (r.records 7).map FieldDecl.ofRecord
  options := r.record 8
  locations := ((r.record 9).records 1).map Location.ofRecord
  syntaxName := r.text 12

end ProtoCatalog
