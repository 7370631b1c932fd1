import ProtoCatalog.Declaration.Reading
import ProtoCatalog.Fault
import ProtoCatalog.Text.Quoted

/-!
# Descriptor sets

Files as they come from a compiler: read from a serialized set, picked from it by name, or named
in a request to a code generator.
-/

namespace ProtoCatalog

/-- Why files cannot be had. -/
inductive LoadFault where
  /-- There is nothing to compile. -/
  | noFiles
  /-- There is no compiler of this name. -/
  | noCompiler (program : String)
  /-- The compiler gave up, saying why. -/
  | compilerFailed (complaint : String)
  /-- There is no file at a path. -/
  | notFound (path : String)
  /-- A path is longer than any file's can be. -/
  | tooLong (path : String)
  /-- A path holds the character that ends paths. -/
  | nulInPath
  /-- The bytes of the file at a path are no descriptor set. -/
  | malformed (path : String) (fault : Wire.Fault)
  /-- A set has no file of a name, but these. -/
  | notInSet (name : String) (found : List String)
deriving DecidableEq, Repr

namespace LoadFault

/-- A fault in words. -/
def message : LoadFault → String
  | .noFiles => "No .proto files given"
  | .noCompiler program =>
    "'" ++ program ++ "' not found. Please install the Protocol Buffers compiler and ensure it " ++
      "is in PATH."
  | .compilerFailed complaint => "protoc failed: " ++ complaint
  | .notFound path =>
    "Cannot read descriptor set " ++ path ++ ": [Errno 2] No such file or directory: " ++
      Text.Quoted.quote path
  | .tooLong path =>
    "Cannot read descriptor set " ++ path ++ ": [Errno 36] File name too long: " ++
      Text.Quoted.quote path
  | .nulInPath => "embedded null byte"
  | .malformed path fault =>
    "Malformed descriptor set " ++ path ++ ": " ++ undecodableMessage .fileDescriptorSet fault
  | .notInSet name found =>
    "Could not locate '" ++ name ++ "' in descriptor set. Found: " ++ ", ".intercalate found

end LoadFault

namespace DescriptorSet

def files (set : Record) : List FileDecl := (set.records 1).map FileDecl.ofRecord

/-- The number of bytes that a path must stay below. -/
def pathLimit : Nat := 4096

/-- Why there is nothing to read at a path. -/
def absence (path : String) : LoadFault :=
  if path.toList.contains '\x00' then .nulInPath
  else if pathLimit ≤ path.utf8ByteSize then .tooLong path
  else .notFound path

/-- The files of the serialized descriptor set at a path; there may be no bytes to read. -/
def load [DescriptorPool] (path : String) (contents : Option (List UInt8)) :
    Except LoadFault (List FileDecl) :=
  match contents with
  | none => .error (absence path)
  | some bytes =>
    match Wire.decode .fileDescriptorSet bytes with
    | .ok set => .ok (files set)
    | .error fault => .error (.malformed path fault)

/-- Whether a file's name is a given one, or ends with it behind a slash. -/
def isNamed (name : String) (f : FileDecl) : Bool :=
  f.name == name || hasEnd ("/" ++ name) f.name

def pick (set : List FileDecl) (name : String) : Except LoadFault FileDecl :=
  match set.find? (isNamed name) with
  | some f => .ok f
  | none => .error (.notInSet name (set.map (·.name)))

/-- The files that some names fit, in the order of the names. -/
def select (set : List FileDecl) (names : List String) : Except LoadFault (List FileDecl) :=
  names.mapM (pick set)

end DescriptorSet

/-- A request to a code generator: all files there are, and the names of those to work on. -/
structure GenerationRequest where
  files : List FileDecl
  toGenerate : List String
deriving Repr

namespace GenerationRequest

def ofRecord (r : Record) : GenerationRequest where
  files := (r.records 15).map FileDecl.ofRecord
  toGenerate := r.texts 1

/-- The files to work on, in the order of the request.  Of several files with one name the last
counts, and names of no file are passed over. -/
def chosen (r : GenerationRequest) : List FileDecl :=
  r.toGenerate.filterMap fun name => r.files.reverse.find? (·.name == name)

end GenerationRequest
end ProtoCatalog
