import MGFileSystem.Ram.StoredPaths
import Mathlib.Logic.Function.Basic

/-! The map from paths to objects that a state stands for. Attributes are a function
of the object found, whatever slots the vectors keep it in. -/
namespace MGFileSystem

/-- A file or directory without the names under which the vectors store it. -/
structure Object where
  isDirectory : Bool
  mode : UInt32
  content : Bytes
  lastAccessTime : Int
  lastModificationTime : Int
  user : UInt32
  group : UInt32
  deriving DecidableEq, Repr

def SimpleFile.object (isDirectory : Bool) (f : SimpleFile) : Object :=
  ⟨isDirectory, f.mode, f.content, f.lastAccessTime, f.lastModificationTime, f.user, f.group⟩

def FilePtr.object : FilePtr → Object
  | .file f => f.object false
  | .directory f => f.object true

def Object.stat (o : Object) : Stat :=
  { mode := o.mode, nlink := 1, size := o.content.length, uid := o.user, gid := o.group
    atime := o.lastAccessTime, mtime := o.lastModificationTime }

/-- What each path names. -/
abbrev ObjectMap := AbsPath → Option Object

/-- The objects of a map of files and a map of directory records, files first. -/
def objectsOf (files directories : Bytes → Option SimpleFile) : ObjectMap := fun p =>
  ((files p.bytes).map (SimpleFile.object false)).or ((directories p.bytes).map (SimpleFile.object true))

theorem objectsOf_update_file {files directories : Bytes → Option SimpleFile} {p : AbsPath}
    (h : directories p.bytes = none) (v : Option SimpleFile) :
    objectsOf (Function.update files p.bytes v) directories =
      Function.update (objectsOf files directories) p (v.map (SimpleFile.object false)) := by
  funext q
  rcases eq_or_ne q p with rfl | hq
  · simp [objectsOf, h]
  · rw [Function.update_of_ne hq, objectsOf, objectsOf,
      Function.update_of_ne (mt AbsPath.bytes_injective.mp hq)]

theorem objectsOf_update_directory {files directories : Bytes → Option SimpleFile} {p : AbsPath}
    (h : files p.bytes = none) (v : Option SimpleFile) :
    objectsOf files (Function.update directories p.bytes v) =
      Function.update (objectsOf files directories) p (v.map (SimpleFile.object true)) := by
  funext q
  rcases eq_or_ne q p with rfl | hq
  · simp [objectsOf, h]
  · rw [Function.update_of_ne hq, objectsOf, objectsOf,
      Function.update_of_ne (mt AbsPath.bytes_injective.mp hq)]

theorem FilePtr.target_stat (p : FilePtr) :
    ({ mode := p.target.mode, nlink := 1, size := p.target.content.length, uid := p.target.user
       gid := p.target.group, atime := p.target.lastAccessTime
       mtime := p.target.lastModificationTime } : Stat) = p.object.stat := by
  cases p <;> rfl

namespace FilesystemData
variable {s : FilesystemData}

/-- The object that `get_fileptr_for_filename` finds for each path. -/
def objects (s : FilesystemData) : ObjectMap := fun p =>
  match (getFileptrForFilename p.bytes).answer s with
  | .ok found => found.map FilePtr.object
  | .error _ => none

/-- The content found at a path. -/
def contentAt (s : FilesystemData) (p : AbsPath) : Option Bytes := (s.objects p).map Object.content

theorem objects_eq_ptrAt (s : FilesystemData) (p : AbsPath) :
    s.objects p = (s.ptrAt p.bytes).map FilePtr.object := by
  simp only [objects, Method.answer, run_getFileptrForFilename p.ne_nil]

theorem map_object_ptrAt (s : FilesystemData) (b : Bytes) :
    (s.ptrAt b).map FilePtr.object =
      ((KeyedList.lookup SimpleFile.key s.theFiles.elems b).map (SimpleFile.object false)).or
        ((KeyedList.lookup SimpleFile.key s.dirRecords (cStr (stripSlash b))).map (SimpleFile.object true)) := by
  rw [ptrAt]
  cases KeyedList.lookup SimpleFile.key s.theFiles.elems b with
  | some f => rfl
  | none => cases KeyedList.lookup SimpleFile.key s.dirRecords (cStr (stripSlash b)) <;> rfl

theorem objects_eq_objectsOf (s : FilesystemData) :
    s.objects = objectsOf (KeyedList.lookup SimpleFile.key s.theFiles.elems)
      (KeyedList.lookup SimpleFile.key s.dirRecords) := by
  funext p
  rw [objects_eq_ptrAt, map_object_ptrAt, stripSlash_absPath, p.cStr_bytes, objectsOf]

/-- The code and attributes that `mg_getattr` answers for an object or its absence. -/
def getattrAnswer (ctx : CallContext) (st : Stat) (path : Bytes) (found : Option Object) : Int × Stat :=
  let st := { st with uid := ctx.uid, gid := ctx.gid, atime := ctx.time 0, mtime := ctx.time 1 }
  if path = text "/" then (0, { st with mode := S_IFDIR ||| 0o755, nlink := 2 })
  else match found with
    | some o => (0, o.stat)
    | none => (-ENOENT, st)

theorem getattrAnswer_code {ctx : CallContext} {st : Stat} {path : Bytes} {found : Option Object} :
    (getattrAnswer ctx st path found).1 = -ENOENT ↔ path ≠ text "/" ∧ found = none := by
  have h0 : ¬ (0 : Int) = -ENOENT := by decide
  unfold getattrAnswer
  dsimp only
  split
  · simp [*]
  · cases found <;> simp [*]

theorem getattrAnswer_some {ctx : CallContext} {st : Stat} {path : Bytes} (h : path ≠ text "/") (o : Object) :
    getattrAnswer ctx st path (some o) = (0, o.stat) := if_neg h

theorem run_fileExists (p : CString) (s : FilesystemData) :
    (fileExists p).run s = .ok (s.fileIndex p.bytes).isSome s := by
  simp [fileExists, run_getIndexForFilename]

theorem run_directoryExists {p : CString} (h : p.bytes ≠ []) (s : FilesystemData) :
    (directoryExists p).run s = .ok (s.dirIndex (cStr (stripSlash p.bytes))).isSome s := by
  simp [directoryExists, run_getIndexForDirname h]

theorem run_getAttributes {p : CString} (h : p.bytes ≠ []) (st : Stat) (s : FilesystemData) :
    (getAttributes p st).run s = .ok (((s.ptrAt p.bytes).map (FilePtr.object · |>.stat)).getD st) s := by
  simp only [getAttributes, EStateM.run_bind, run_getFileptrForFilename h]
  cases s.ptrAt p.bytes with
  | none => rfl
  | some q => simp [FilePtr.target_stat]

theorem ptrAt_isSome (s : FilesystemData) (b : Bytes) :
    (s.ptrAt b).isSome = ((s.fileIndex b).isSome || (s.dirIndex (cStr (stripSlash b))).isSome) := by
  rw [ptrAt, lookup_dirRecords, Option.isSome_or, Option.isSome_map, Option.isSome_map,
    Option.isSome_map, KeyedList.isSome_lookup, KeyedList.isSome_lookup]
  rfl

/-- `mg_getattr` never fails on a non-empty path, and sees only the object found there. -/
theorem run_mgGetattr {p : CString} (h : p.bytes ≠ []) (ctx : CallContext) (st : Stat)
    (s : FilesystemData) :
    (mgGetattr (filesystemData ctx) ctx p st).run s =
      .ok (getattrAnswer ctx st p.bytes ((s.ptrAt p.bytes).map FilePtr.object)) s := by
  have hsome := s.ptrAt_isSome p.bytes
  simp only [mgGetattr, filesystemData, getattrAnswer]
  split
  · rfl
  · simp only [EStateM.run_bind, run_fileExists]
    cases hf : (s.fileIndex p.bytes).isSome with
    | true =>
      obtain ⟨q, hq⟩ := Option.isSome_iff_exists.mp (by rw [hsome, hf]; rfl)
      simp [run_getAttributes h, hq]
    | false =>
      simp only [Bool.false_eq_true, if_false, EStateM.run_bind, run_directoryExists h]
      cases hd : (s.dirIndex (cStr (stripSlash p.bytes))).isSome with
      | true =>
        obtain ⟨q, hq⟩ := Option.isSome_iff_exists.mp (by rw [hsome, hf, hd]; rfl)
        simp [run_getAttributes h, hq]
      | false =>
        have hq : s.ptrAt p.bytes = none := by
          rw [← Option.not_isSome_iff_eq_none, hsome, hf, hd]
          simp
        simp [hq]

theorem answer_mgGetattr (p : AbsPath) (ctx : CallContext) (st : Stat) (s : FilesystemData) :
    (mgGetattr (filesystemData ctx) ctx p.toCString st).answer s =
      .ok (getattrAnswer ctx st p.bytes (s.objects p)) := by
  simp only [Method.answer, run_mgGetattr p.ne_nil, objects_eq_ptrAt]

/-- Below the root `mg_getattr` succeeds exactly with the attributes of an object. -/
theorem answer_mgGetattr_zero {p : AbsPath} (hp : p ≠ .root) {ctx : CallContext} {st st' : Stat}
    {s : FilesystemData} :
    (mgGetattr (filesystemData ctx) ctx p.toCString st).answer s = .ok (0, st') ↔
      ∃ o, s.objects p = some o ∧ o.stat = st' := by
  have hne : p.bytes ≠ text "/" := AbsPath.bytes_ne_root hp
  rw [answer_mgGetattr, Except.ok.injEq]
  cases s.objects p with
  | none =>
    refine iff_of_false (fun hans => ?_) (fun ⟨o, ho, _⟩ => by cases ho)
    have hcode : (getattrAnswer ctx st p.bytes none).1 = -ENOENT := getattrAnswer_code.mpr ⟨hne, rfl⟩
    have hzero : (0 : Int) ≠ -ENOENT := by decide
    rw [hans] at hcode
    exact hzero hcode
  | some o =>
    rw [getattrAnswer_some hne]
    constructor
    · intro hans
      exact ⟨o, rfl, (Prod.mk.inj hans).2⟩
    · rintro ⟨_, ho, rfl⟩
      rw [Option.some.inj ho]

end FilesystemData
end MGFileSystem
