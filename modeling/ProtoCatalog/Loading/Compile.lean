import ProtoCatalog.Loading.DescriptorSet
import ProtoCatalog.Loading.Path
import ProtoCatalog.Schema.Annotations

/-!
# Compiling interface files

The command that compiles interface files to a descriptor set, and what becomes of its outcome.
-/

namespace ProtoCatalog

variable [DescriptorPool]

/-- Files to compile, the directories that imports are looked up in, and the compiler. -/
structure Compilation where
  paths : List String
  includeDirs : List String
  program : String
deriving DecidableEq, Repr

/-- How a run of the compiler ends. -/
inductive CompilerOutcome where
  /-- There is no such program. -/
  | noProgram
  /-- The program fails and complains. -/
  | failed (complaint : List UInt8)
  /-- The program writes its output. -/
  | wrote (output : List UInt8)
deriving DecidableEq, Repr

namespace Compilation

/-- The name of the compiler where none is given. -/
def standardProgram : String := "protoc"

/-- The directories that imports are looked up in: without any given, those of the files. -/
def searchDirs (c : Compilation) : List String :=
  let dirs := if c.includeDirs.isEmpty then c.paths.map Path.directoryOf else c.includeDirs
  (dirs.filter (· ≠ "")).eraseDups

/-- The command line, with the descriptor set written to a given path.  Without files there is
no command. -/
def command (c : Compilation) (output : String) : Except LoadFault (List String) :=
  if c.paths.isEmpty then .error .noFiles
  else .ok ([c.program, "--include_imports", "--include_source_info",
    "--descriptor_set_out=" ++ output] ++ c.searchDirs.flatMap (fun dir => ["-I", dir]) ++ c.paths)

/-- The files that come of a run of the compiler.  Of a complaint, bytes that are no text are
left out. -/
def result (c : Compilation) (output : String) :
    CompilerOutcome → Except LoadFault (List FileDecl)
  | .noProgram => .error (.noCompiler c.program)
  | .failed complaint => .error (.compilerFailed (Text.Utf8.decode complaint))
  | .wrote bytes => DescriptorSet.load output (some bytes)

/-- The files that come of a compilation whose run has a given outcome. -/
def run (c : Compilation) (output : String) (outcome : CompilerOutcome) :
    Except LoadFault (List FileDecl) := do
  let _ ← c.command output
  c.result output outcome

end Compilation

-- The program is run with the annotations.
attribute [instance] Annotations.pool

end ProtoCatalog
