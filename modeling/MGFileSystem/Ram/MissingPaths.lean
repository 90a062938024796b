import MGFileSystem.Ram.Refinement

/-! Calls whose lookup finds nothing. Only `mg_read` asks before it acts; the others meet the index
-1 with an assertion, a bounds check or silence, and `rename_file` meets it too late. -/
namespace MGFileSystem
open FilesystemData

/-- A callback on one path, with its other arguments. -/
inductive PathCallback where
  | read (buffer : Bytes) (size offset : Nat)
  | readdir
  | write (buffer : Memory) (size offset : Nat)
  | truncate (length : Nat)
  | chmod (mode : UInt32)
  | chown (user group : UInt32)
  | utimens (access modification : Timespec)
  | unlink

namespace PathCallback

/-- The code that the callback returns. -/
def perform (ctx : CallContext) (p : AbsPath) : PathCallback → Method FilesystemData Int
  | read buffer size offset => Prod.fst <$> mgRead (filesystemData ctx) p.toCString buffer size offset
  | readdir => Prod.fst <$> mgReaddir (filesystemData ctx) p.toCString
  | write buffer size offset => mgWrite (filesystemData ctx) p.toCString buffer size offset
  | truncate length => mgTruncate (filesystemData ctx) p.toCString length
  | chmod mode => mgChmod (filesystemData ctx) p.toCString mode
  | chown user group => mgChown (filesystemData ctx) p.toCString user group
  | utimens access modification => mgUtimens (filesystemData ctx) p.toCString access modification
  | unlink => mgUnlink (filesystemData ctx) p.toCString

/-- No assertion fails and nothing is thrown: the code is `-ENOENT` and the state is as before. -/
def RefusedCleanly (ctx : CallContext) (s : FilesystemData) (p : AbsPath) (c : PathCallback) : Prop :=
  (c.perform ctx p).run s = .ok (-ENOENT) s

def IsRead : PathCallback → Prop
  | read .. => True
  | _ => False

/-- How each callback ends on a path that names neither a file nor a directory. -/
def missingOutcome (s : FilesystemData) : PathCallback → EStateM.Result Fault FilesystemData Int
  | read .. => .ok (-ENOENT) s
  | readdir => .error .outOfRange s
  | unlink => .ok 0 s
  | write .. | truncate .. | chmod .. | chown .. | utimens .. => .error .assertion s

theorem run_missing {s : FilesystemData} {p : AbsPath} (hf : s.fileIndex p.bytes = none)
    (hd : s.dirIndex p.bytes = none) (ctx : CallContext) (c : PathCallback) :
    (c.perform ctx p).run s = c.missingOutcome s := by
  have hassign := fun f => run_assignFile_missing (p := p.toCString) hf f
  cases c with
  | read buffer size offset =>
    simp [perform, mgRead, filesystemData, run_fileExists, hf, missingOutcome]
  | readdir =>
    simp only [perform, mgReaddir, filesystemData, Method.run_map, EStateM.run_bind, listFilesInDir,
      run_getIndexForDirname_absPath, hd]
    rfl
  | unlink =>
    simp only [perform, mgUnlink, filesystemData, EStateM.run_bind, run_removeFile, dropFile_missing hf]
    rfl
  | write | truncate | chmod | chown | utimens =>
    simp only [perform, mgWrite, mgTruncate, mgChmod, mgChown, mgUtimens, filesystemData, EStateM.run_bind,
      writeFileContent, truncateFile, setFileMode, changeOwnership, setAccessAndModificationTimes, hassign,
      missingOutcome]

end PathCallback

/-- On a path that `mg_getattr` reports as missing `mg_read` alone refuses cleanly. -/
theorem missing_path_refused_iff {s : FilesystemData} (h : ramSystem.Reachable s) {ctx : CallContext} {p : AbsPath}
    (hp : Absent ctx s p) (ctx' : CallContext) (c : PathCallback) : c.RefusedCleanly ctx' s p ↔ c.IsRead := by
  have hw := wellFormed_of_reachable h
  obtain ⟨hf, hd⟩ := not_or.mp (mt List.mem_append.mpr (hw.absent_iff.mp hp))
  have hfile : s.fileIndex p.bytes = none := by rwa [← Option.not_isSome_iff_eq_none, hw.fileIndex_isSome]
  have hdir : s.dirIndex p.bytes = none := by rwa [← Option.not_isSome_iff_eq_none, hw.dirIndex_isSome]
  rw [PathCallback.RefusedCleanly, PathCallback.run_missing hfile hdir]
  cases c with
  | read => exact iff_of_true rfl trivial
  | unlink =>
    refine iff_of_false (fun he => ?_) id
    have hcode : (0 : Int) = -ENOENT := by
      injection he
    exact absurd hcode (by decide)
  | readdir | write | truncate | chmod | chown | utimens => exact iff_of_false (fun he => nomatch he) id

theorem absent_notes : Absent .plain (init .plain) notes := guard_create_notes.1

theorem missing_path_refused_iff_read :
    (PathCallback.read [] 4096 0).RefusedCleanly .plain (init .plain) notes ↔ (PathCallback.read [] 4096 0).IsRead :=
  missing_path_refused_iff (.start ⟨.plain, rfl⟩) absent_notes .plain _

/-- The mode of a file that is not there ends the process, and its removal is reported as a success. -/
theorem mgChmod_aborts_on_missing :
    ramSystem.Reachable (init .plain) ∧ Absent .plain (init .plain) notes ∧
      (mgChmod (filesystemData .plain) notes.toCString 0o600).run (init .plain) = .error .assertion (init .plain) ∧
      (mgUnlink (filesystemData .plain) notes.toCString).run (init .plain) = .ok 0 (init .plain) ∧
      ¬ (PathCallback.chmod 0o600).RefusedCleanly .plain (init .plain) notes :=
  ⟨.start ⟨.plain, rfl⟩, absent_notes, rfl, rfl, fun h => nomatch h⟩

/-- A rename without a source, or onto the source itself, leaves every record as it was, and does not fail
where the source exists. -/
structure NothingMoved (s : FilesystemData) (src dst : AbsPath) : Prop where
  files : ((renameFile src.toCString dst.toCString).left s).theFiles.elems = s.theFiles.elems
  directories : ((renameFile src.toCString dst.toCString).left s).theDirectories.elems = s.theDirectories.elems
  onto_itself : src = dst → FileAt s src → (renameFile src.toCString dst.toCString).answer s = .ok ()

namespace FilesystemData
variable {s : FilesystemData}

theorem length_dropFile {b : Bytes} {i : Nat} (hi : s.fileIndex b = some i) :
    (s.dropFile b).theFiles.elems.length + 1 = s.theFiles.elems.length := by
  obtain ⟨front, a, back, he, rfl, _, _⟩ := KeyedList.position_split hi
  have hlt : front.length < s.theFiles.elems.length := by simp [he]
  rw [dropFile, hi]
  exact List.length_eraseIdx_add_one hlt

/-- However a rename ends, it leaves as many files as the removal of its destination. -/
theorem length_left_renameFile (src dst : CString) :
    ((renameFile src dst).left s).theFiles.elems.length = (s.dropFile dst.bytes).theFiles.elems.length := by
  cases hi : (s.dropFile dst.bytes).fileIndex src.bytes with
  | none => rw [Method.left, run_renameFile_missing hi]
  | some i =>
    rw [Method.left, run_renameFile hi]
    exact List.length_modify _ _ _

theorem fileIndex_eq_none {p : AbsPath} : s.fileIndex p.bytes = none ↔ ¬ FileAt s p := by
  rw [fileAt_iff_isSome, Option.not_isSome_iff_eq_none]

end FilesystemData

/-- `rename_file` removes its destination first, so with nothing to move it destroys nothing exactly when
the destination is no file. -/
theorem rename_nothing_iff {s : FilesystemData} {src dst : AbsPath} (h : ¬ FileAt s src ∨ src = dst) :
    NothingMoved s src dst ↔ ¬ FileAt s dst := by
  constructor
  · intro hn hd
    obtain ⟨i, hi⟩ := hd.exists_slot
    have hlen := congrArg List.length hn.files
    rw [length_left_renameFile] at hlen
    have hdrop := length_dropFile hi
    omega
  · intro hd
    have hsrc : ¬ FileAt s src := by
      rcases h with h | rfl
      · exact h
      · exact hd
    have hdrop : s.dropFile dst.bytes = s := dropFile_missing (fileIndex_eq_none.mpr hd)
    have hrun : (renameFile src.toCString dst.toCString).run s = .error .assertion s := by
      have hslot : (s.dropFile dst.bytes).fileIndex src.bytes = none := by
        rw [hdrop]
        exact fileIndex_eq_none.mpr hsrc
      rw [run_renameFile_missing hslot, hdrop]
    have hleft : (renameFile src.toCString dst.toCString).left s = s := by rw [Method.left, hrun]
    exact ⟨by rw [hleft], by rw [hleft], fun _ hf => absurd hf hsrc⟩

theorem rename_nothing_iff_notes :
    NothingMoved (init .plain) notes mgDir1 ↔ ¬ FileAt (init .plain) mgDir1 :=
  have hmissing : ¬ FileAt (init .plain) notes := fileIndex_eq_none.mp rfl
  rename_nothing_iff (.inl hmissing)

/-- A missing source costs the destination, and so does a rename of a file onto itself. -/
theorem rename_destroys_destination :
    ramSystem.Reachable (init .plain) ∧ FileAt (init .plain) mgFile1 ∧ ¬ FileAt (init .plain) notes ∧
      ((renameFile notes.toCString mgFile1.toCString).left (init .plain)).theFiles.elems = [] ∧
      ((renameFile mgFile1.toCString mgFile1.toCString).left (init .plain)).theFiles.elems = [] ∧
      (renameFile mgFile1.toCString mgFile1.toCString).answer (init .plain) = .error .assertion ∧
      ¬ NothingMoved (init .plain) notes mgFile1 ∧ ¬ NothingMoved (init .plain) mgFile1 mgFile1 :=
  have hmissing : ¬ FileAt (init .plain) notes := fileIndex_eq_none.mp rfl
  ⟨.start ⟨.plain, rfl⟩, rfl, hmissing, rfl, rfl, rfl, fun h => (nomatch h.files), fun h => (nomatch h.files)⟩

end MGFileSystem
