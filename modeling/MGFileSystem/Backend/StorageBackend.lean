import MGFileSystem.Machine.CStrings
import MGFileSystem.Machine.Vectors

/-! The interface `storage_backend` behind every FUSE callback, and what a call sees of
its process. Methods keep the object's state when they fail, as an aborted process does. -/
namespace MGFileSystem

/-- How a call can end other than by returning. -/
inductive Fault where
  /-- A failing `assert`. -/
  | assertion
  /-- `std::out_of_range` from `at`. -/
  | outOfRange
  /-- `std::bad_alloc` from `new char[n]`. -/
  | badAlloc
  /-- `std::length_error` from a string that would outgrow `max_size()`. -/
  | lengthError
  /-- A read or write through a null pointer, or one that designates no object. -/
  | badPointer
  /-- `back()` of an empty string, which is undefined. -/
  | emptyBack
  /-- The model's bound on the rounds of a loop was reached. -/
  | outOfRounds
  deriving DecidableEq, Repr

/-- A member function of an object with state `σ`. -/
abbrev Method (σ α : Type) := EStateM Fault σ α

/-- The answer of a call, apart from the state it leaves. -/
def Method.answer {σ α : Type} (x : Method σ α) (s : σ) : Except Fault α :=
  match x.run s with
  | .ok a _ => .ok a
  | .error e _ => .error e

/-- The state a call leaves, whether it returns or fails. -/
def Method.left {σ α : Type} (x : Method σ α) (s : σ) : σ :=
  match x.run s with
  | .ok _ s' => s'
  | .error _ s' => s'

@[simp] theorem Method.run_map {σ α β : Type} (f : α → β) (x : Method σ α) (s : σ) :
    (f <$> x).run s = match x.run s with
      | .ok a s' => .ok (f a) s'
      | .error e s' => .error e s' := by
  rw [← bind_pure_comp, EStateM.run_bind]
  cases x.run s <;> rfl

/-- `assert(index >= 0)` for a search that reports a missing entry as -1. -/
def assertFound {σ : Type} : Option Nat → Method σ Nat
  | some i => pure i
  | none => throw .assertion

/-- The fields of `struct stat` that the callbacks fill in. -/
structure Stat where
  mode : UInt32
  nlink : Nat
  size : Nat
  uid : UInt32
  gid : UInt32
  atime : Int
  mtime : Int
  deriving DecidableEq, Repr

structure Timespec where
  sec : Int
  nsec : Int
  deriving DecidableEq, Repr

/-- What one call sees of its process besides its arguments. Every call may see
other values. -/
structure CallContext where
  /-- `time(NULL)`, at each time that the call asks for it. -/
  time : Nat → Int
  /-- `getuid()` and `getgid()`. -/
  uid : UInt32
  gid : UInt32
  /-- `fuse_get_context()`. -/
  callerUid : UInt32
  callerGid : UInt32
  growth : GrowthPolicy
  /-- What lies in the block `the_content` of `read_file_content` before it is written. -/
  freshMemory : Memory
  /-- What lies after that block when it is read. -/
  afterContent : Memory
  /-- What lies after the block that `read_file_content` returns. -/
  afterBuffer : Memory

/-- A process of the superuser at the epoch, whose memory is all NULs. -/
def CallContext.plain : CallContext :=
  { time := fun _ => 0, uid := 0, gid := 0, callerUid := 0, callerGid := 0, growth := .tight
    freshMemory := [], afterContent := [], afterBuffer := [] }

/-- The same process, whose vectors start with room to spare. -/
def CallContext.roomy : CallContext := { CallContext.plain with growth := .roomy }

structure StorageBackend (σ : Type) where
  /-- The names passed to `filler`, in order. -/
  listFilesInDir (path : CString) : Method σ (List Bytes)
  /-- The memory from the returned pointer on. -/
  readFileContent (path : CString) (offset readSize : Nat) : Method σ Memory
  getAttributes (path : CString) (st : Stat) : Method σ Stat
  fileExists (path : CString) : Method σ Bool
  directoryExists (path : CString) : Method σ Bool
  setFileMode (path : CString) (newMode : UInt32) : Method σ Unit
  writeFileContent (path : CString) (data : Memory) (size offset : Nat) : Method σ Unit
  renameFile (path newPath : CString) : Method σ Unit
  createDirectory (path : CString) (newMode : UInt32) : Method σ Unit
  removeDirectory (path : CString) : Method σ Unit
  removeFile (path : CString) : Method σ Unit
  createFile (path : CString) (newMode : UInt32) : Method σ Unit
  setAccessAndModificationTimes (path : CString) (access modification : Timespec) : Method σ Unit
  truncateFile (path : CString) (newLength : Nat) : Method σ Unit
  changeOwnership (path : CString) (newUser newGroup : UInt32) : Method σ Unit

end MGFileSystem
