import MGFileSystem.Ram.StateChanges
import MGFileSystem.Foundations.GuardedSystem

/-! The calls that change the namespace, under the checks that the kernel's virtual file
system makes before it calls FUSE. -/
namespace MGFileSystem

inductive Operation where
  | create (p : AbsPath) (mode : UInt32)
  | mkdir (p : AbsPath) (mode : UInt32)
  | unlink (p : AbsPath)
  | rename (p q : AbsPath)
  | write (p : AbsPath) (buffer : Memory) (size offset : Nat)
  | truncate (p : AbsPath) (length : Nat)
  | chmod (p : AbsPath) (mode : UInt32)
  | chown (p : AbsPath) (user group : UInt32)
  | utimens (p : AbsPath) (access modification : Timespec)

structure Call where
  ctx : CallContext
  operation : Operation

namespace Operation

/-- The path arguments. -/
def paths : Operation → List AbsPath
  | create p _ | mkdir p _ | unlink p | write p _ _ _ | truncate p _ | chmod p _ | chown p _ _
  | utimens p _ _ => [p]
  | rename p q => [p, q]

def perform (ctx : CallContext) : Operation → Method FilesystemData Int
  | create p mode => mgCreate (filesystemData ctx) p.toCString mode
  | mkdir p mode => mgMkdir (filesystemData ctx) p.toCString mode
  | unlink p => mgUnlink (filesystemData ctx) p.toCString
  | rename p q => mgRename (filesystemData ctx) p.toCString q.toCString
  | write p buffer size offset => mgWrite (filesystemData ctx) p.toCString buffer size offset
  | truncate p length => mgTruncate (filesystemData ctx) p.toCString length
  | chmod p mode => mgChmod (filesystemData ctx) p.toCString mode
  | chown p user group => mgChown (filesystemData ctx) p.toCString user group
  | utimens p access modification => mgUtimens (filesystemData ctx) p.toCString access modification

/-- The assignment that an operation makes to the fields of one file. -/
def edit : Operation → Option (AbsPath × (SimpleFile → SimpleFile))
  | write p buffer size offset =>
    some (p, fun f => { f with content := FilesystemData.writtenContent f.content buffer size offset })
  | truncate p length => some (p, fun f => { f with content := f.content.take length })
  | chmod p mode => some (p, fun f => { f with mode := mode })
  | chown p user group => some (p, fun f => { f with user := user, group := group })
  | utimens p access modification =>
    some (p, fun f => { f with lastAccessTime := access.sec, lastModificationTime := modification.sec })
  | _ => none

end Operation

namespace FilesystemData
variable {s : FilesystemData}

def FileAt (s : FilesystemData) (p : AbsPath) : Prop := (fileExists p.toCString).answer s = .ok true

def DirectoryAt (s : FilesystemData) (p : AbsPath) : Prop :=
  (directoryExists p.toCString).answer s = .ok true

/-- `mg_getattr` answers `-ENOENT`. -/
def Absent (ctx : CallContext) (s : FilesystemData) (p : AbsPath) : Prop :=
  ∀ st, (Prod.fst <$> mgGetattr (filesystemData ctx) ctx p.toCString st).answer s = .ok (-ENOENT)

end FilesystemData

open FilesystemData

/-- What the kernel checks before it passes an operation on. -/
def Operation.Guard (ctx : CallContext) (s : FilesystemData) : Operation → Prop
  | create p _ | mkdir p _ => Absent ctx s p ∧ DirectoryAt s p.parent
  | rename p q => FileAt s p ∧ p ≠ q ∧ ¬ DirectoryAt s q ∧ DirectoryAt s q.parent
  | unlink p | write p _ _ _ | truncate p _ | chmod p _ | chown p _ _ | utimens p _ _ => FileAt s p

/-- The in-memory backend under its callbacks, from the state that the constructor makes. -/
def ramSystem : GuardedSystem FilesystemData Call where
  initial s := ∃ ctx, s = init ctx
  guard s c := c.operation.Guard c.ctx s
  step c s := match (c.operation.perform c.ctx).run s with
    | .ok _ s' => some s'
    | .error _ _ => none

namespace FilesystemData
variable {s : FilesystemData}

theorem fileAt_iff_isSome {p : AbsPath} : FileAt s p ↔ (s.fileIndex p.bytes).isSome := by
  simp only [FileAt, Method.answer, run_fileExists, Except.ok.injEq]

/-- An existing file has a slot in the vector of files. -/
theorem FileAt.exists_slot {p : AbsPath} (h : FileAt s p) : ∃ i, s.fileIndex p.bytes = some i :=
  Option.isSome_iff_exists.mp (fileAt_iff_isSome.mp h)

theorem directoryAt_iff_isSome {p : AbsPath} : DirectoryAt s p ↔ (s.dirIndex p.bytes).isSome := by
  simp only [DirectoryAt, Method.answer, run_directoryExists p.ne_nil, stripSlash_absPath, p.cStr_bytes,
    Except.ok.injEq]

theorem DirectoryAt.exists_slot {p : AbsPath} (h : DirectoryAt s p) : ∃ i, s.dirIndex p.bytes = some i :=
  Option.isSome_iff_exists.mp (directoryAt_iff_isSome.mp h)

/-- The kind of object at a path: `some true` is a directory, `some false` a file. -/
def kindOf (A : ObjectMap) (p : AbsPath) : Option Bool := (A p).map Object.isDirectory

namespace WellFormed
variable (h : s.WellFormed)
include h

theorem fileAt_iff {p : AbsPath} : FileAt s p ↔ p.bytes ∈ s.filePaths := by
  rw [fileAt_iff_isSome, h.fileIndex_isSome]

theorem directoryAt_iff {p : AbsPath} : DirectoryAt s p ↔ p.bytes ∈ s.dirPaths := by
  rw [directoryAt_iff_isSome, h.dirIndex_isSome]

theorem kindOf_objects (p : AbsPath) :
    kindOf s.objects p =
      if p.bytes ∈ s.filePaths then some false else if p.bytes ∈ s.dirPaths then some true else none := by
  rw [kindOf, objects_eq_objectsOf, objectsOf]
  split
  next hf =>
    obtain ⟨i, hi⟩ := Option.isSome_iff_exists.mp (h.fileIndex_isSome.mpr hf)
    obtain ⟨f, _, hl⟩ := KeyedList.getElem?_position hi
    rw [hl]
    rfl
  next hf =>
    rw [lookup_files_eq_none h hf]
    split
    next hd =>
      obtain ⟨r, hr⟩ : ∃ r, KeyedList.lookup SimpleFile.key s.dirRecords p.bytes = some r := by
        rw [← Option.isSome_iff_exists, KeyedList.isSome_lookup, KeyedList.position_isSome, h.record_keys]
        exact hd
      rw [hr]
      rfl
    next hd =>
      rw [lookup_dirRecords_eq_none h hd]
      rfl

theorem fileAt_iff_kind {p : AbsPath} : FileAt s p ↔ kindOf s.objects p = some false := by
  rw [h.fileAt_iff, h.kindOf_objects]
  split <;> simp_all

theorem directoryAt_iff_kind {p : AbsPath} : DirectoryAt s p ↔ kindOf s.objects p = some true := by
  rw [h.directoryAt_iff, h.kindOf_objects]
  split
  next hf => simpa using h.disjoint hf
  next => split <;> simp_all

theorem absent_iff_kind {ctx : CallContext} {p : AbsPath} : Absent ctx s p ↔ kindOf s.objects p = none := by
  have hrun : ∀ st, (Prod.fst <$> mgGetattr (filesystemData ctx) ctx p.toCString st).answer s =
      .ok (getattrAnswer ctx st p.bytes (s.objects p)).1 := by
    intro st
    simp only [Method.answer, Method.run_map, run_mgGetattr p.ne_nil, objects_eq_ptrAt]
  simp only [Absent, hrun, Except.ok.injEq, getattrAnswer_code, kindOf, Option.map_eq_none_iff]
  constructor
  · exact fun ha => (ha ⟨0, 0, 0, 0, 0, 0, 0⟩).2
  · intro ho st
    refine ⟨fun he => ?_, ho⟩
    obtain rfl : p = .root := AbsPath.ext he
    have hk := h.kindOf_objects .root
    rw [kindOf, ho, if_pos h.root] at hk
    split at hk <;> cases hk

theorem absent_iff {ctx : CallContext} {p : AbsPath} :
    Absent ctx s p ↔ p.bytes ∉ s.filePaths ++ s.dirPaths := by
  rw [h.absent_iff_kind, h.kindOf_objects, List.mem_append]
  split
  next hf => simp [hf]
  next hf => split <;> simp_all

end WellFormed
end FilesystemData
end MGFileSystem
