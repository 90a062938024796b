import MGFileSystem.Ram.ObjectMap

/-! The state changes that the member functions make, as functions of the state, and
what each does to the stored paths and to the object map. -/
namespace MGFileSystem

def SimpleDirectory.linkFile (p : ElementPtr) (d : SimpleDirectory) : SimpleDirectory :=
  { d with containedFiles := d.containedFiles ++ [p] }

def SimpleDirectory.linkDirectory (address : Nat) (d : SimpleDirectory) : SimpleDirectory :=
  { d with containedDirectories := d.containedDirectories ++ [address] }

theorem SimpleDirectory.directoryFile_linkFile (p : ElementPtr) (d : SimpleDirectory) :
    (d.linkFile p).directoryFile = d.directoryFile := rfl

theorem SimpleDirectory.directoryFile_linkDirectory (address : Nat) (d : SimpleDirectory) :
    (d.linkDirectory address).directoryFile = d.directoryFile := rfl

namespace FilesystemData
open SimpleDirectory
variable (s : FilesystemData) (ctx : CallContext)

/-- `create_file`, with the parent directory in slot `i`. -/
def addFile (p : AbsPath) (mode : UInt32) (i : Nat) : FilesystemData :=
  let theFiles := s.theFiles.pushBack ctx.growth (newFile ctx p.toCString mode)
  { s with
    theFiles := theFiles
    theDirectories := s.theDirectories.modify i (linkFile theFiles.backPtr) }

/-- `create_directory`, with the parent directory in slot `i`. -/
def addDirectory (p : AbsPath) (i : Nat) : FilesystemData :=
  let parent := s.theDirectories.ptr i
  let newDir := newDirectory ctx p.toCString (some parent)
  { s with
    heap := s.heap ++ [newDir]
    theDirectories := (s.theDirectories.pushBack ctx.growth newDir).modifyAt parent (linkDirectory s.heap.length) }

/-- `remove_file`. -/
def dropFile (b : Bytes) : FilesystemData :=
  match s.fileIndex b with
  | some i => { s with theFiles := s.theFiles.eraseIdx i }
  | none => s

/-- Assignment to fields of the file in slot `i`. -/
def assign (i : Nat) (f : SimpleFile → SimpleFile) : FilesystemData :=
  { s with theFiles := s.theFiles.modify i f }

/-- What `rename_file` assigns. -/
def moveTo (p : CString) (f : SimpleFile) : SimpleFile :=
  { f with path := p.bytes, name := p.bytes.drop 1 }

variable {s ctx}

/-- `std::string::insert`, whether or not the string is resized before it. -/
theorem writtenContent_eq_insert (content : Bytes) (data : Memory) (size offset : Nat) :
    writtenContent content data size offset = Overlay.insert 0 content offset ((cStr data).take size) := by
  dsimp only [writtenContent, Overlay.insert]
  split
  next ho =>
    have hlen : (content ++ List.replicate (offset - content.length) 0).length = offset := by
      rw [List.length_append, List.length_replicate]
      omega
    rw [Overlay.fit_of_ge 0 (Nat.le_of_lt ho), List.take_of_length_le (Nat.le_of_eq hlen),
      List.drop_of_length_le (Nat.le_of_eq hlen), List.drop_of_length_le (Nat.le_of_lt ho)]
  next ho => rw [Overlay.fit_of_le 0 (Nat.le_of_not_lt ho)]

theorem run_removeFile (p : CString) : (removeFile p).run s = .ok () (s.dropFile p.bytes) := by
  simp only [removeFile, EStateM.run_bind, run_getIndexForFilename, dropFile]
  cases s.fileIndex p.bytes <;> rfl

theorem run_assignFile {p : CString} {i : Nat} (h : s.fileIndex p.bytes = some i)
    (f : SimpleFile → SimpleFile) : (assignFile p f).run s = .ok () (s.assign i f) := by
  simp only [assignFile, EStateM.run_bind, run_getIndexForFilename, h]
  rfl

/-- Without the file the assertion fails before anything is assigned. -/
theorem run_assignFile_missing {p : CString} (h : s.fileIndex p.bytes = none) (f : SimpleFile → SimpleFile) :
    (assignFile p f).run s = .error .assertion s := by
  simp only [assignFile, EStateM.run_bind, run_getIndexForFilename, h]
  rfl

theorem dropFile_missing {b : Bytes} (h : s.fileIndex b = none) : s.dropFile b = s := by
  rw [dropFile, h]

theorem run_renameFile {p q : CString} {i : Nat} (h : (s.dropFile q.bytes).fileIndex p.bytes = some i) :
    (renameFile p q).run s = .ok () ((s.dropFile q.bytes).assign i (moveTo q)) := by
  simp only [renameFile, EStateM.run_bind, run_getIndexForFilename]
  cases hq : s.fileIndex q.bytes with
  | some j =>
    simp only [Option.isSome_some, if_true, EStateM.run_bind, run_removeFile, run_assignFile h]
    rfl
  | none =>
    rw [dropFile_missing hq] at h ⊢
    exact run_assignFile h _

/-- A rename that finds no source fails after the destination is gone. -/
theorem run_renameFile_missing {p q : CString} (h : (s.dropFile q.bytes).fileIndex p.bytes = none) :
    (renameFile p q).run s = .error .assertion (s.dropFile q.bytes) := by
  simp only [renameFile, EStateM.run_bind, run_getIndexForFilename]
  cases hq : s.fileIndex q.bytes with
  | some j =>
    simp only [Option.isSome_some, if_true, EStateM.run_bind, run_removeFile, run_assignFile_missing h]
  | none =>
    rw [dropFile_missing hq] at h ⊢
    exact run_assignFile_missing h _

theorem run_createFile {p : AbsPath} (hp : p ≠ .root) (mode : UInt32) {i : Nat}
    (h : s.dirIndex p.parent.bytes = some i) :
    (createFile ctx p.toCString mode).run s = .ok () (s.addFile ctx p mode i) := by
  simp only [createFile, EStateM.run_bind, EStateM.run_modify,
    run_getIndexForDirname_getDirFromPath hp, dirIndex, assertFound]
  rw [dirIndex] at h
  simp only [h, EStateM.run_pure, EStateM.run_get, dirIndex_lt h, if_true]
  rfl

theorem run_createDirectory {p : AbsPath} (hp : p ≠ .root) (mode : UInt32) {i : Nat}
    (h : s.dirIndex p.parent.bytes = some i) :
    (createDirectory ctx p.toCString mode).run s = .ok () (s.addDirectory ctx p i) := by
  simp only [createDirectory, EStateM.run_bind, run_getParentDirectoryFromPath hp, h, Option.map_some,
    EStateM.run_get, EStateM.run_modify]
  rfl

theorem dirRecords_addFile (p : AbsPath) (mode : UInt32) (i : Nat) :
    (s.addFile ctx p mode i).dirRecords = s.dirRecords :=
  StdVector.map_modify (directoryFile_linkFile _) _ _

theorem dirRecords_addDirectory (p : AbsPath) (i : Nat) :
    (s.addDirectory ctx p i).dirRecords =
      s.dirRecords ++ [(newDirectory ctx p.toCString none).directoryFile] := by
  rw [addDirectory, dirRecords, StdVector.map_modifyAt (directoryFile_linkDirectory _), StdVector.elems_pushBack,
    List.map_append]
  rfl

theorem mem_files_of_dropFile {b : Bytes} {f : SimpleFile} (hf : f ∈ (s.dropFile b).theFiles.elems) :
    f ∈ s.theFiles.elems := by
  unfold dropFile at hf
  split at hf
  · exact List.mem_of_mem_eraseIdx hf
  · exact hf

section Assign
variable {i j : Nat} {f : SimpleFile → SimpleFile} {a : SimpleFile}

theorem files_assign_same (ha : s.theFiles.elems[i]? = some a) : (s.assign i f).theFiles.elems[i]? = some (f a) := by
  rw [assign, StdVector.elems_modify, List.getElem?_modify_eq, ha]
  rfl

theorem files_assign_other (h : i ≠ j) : (s.assign i f).theFiles.elems[j]? = s.theFiles.elems[j]? := by
  rw [assign, StdVector.elems_modify, List.getElem?_modify_ne _ _ h]

/-- The assigned file, or one that was there before. -/
theorem mem_files_of_assign (ha : s.theFiles.elems[i]? = some a) {g : SimpleFile}
    (hg : g ∈ (s.assign i f).theFiles.elems) : g = f a ∨ g ∈ s.theFiles.elems := by
  rw [assign, StdVector.elems_modify] at hg
  exact (StdVector.slot_of_mem_modify ha hg).imp_right fun ⟨_, _, hj⟩ => List.mem_of_getElem? hj

end Assign

theorem directories_dropFile (b : Bytes) : (s.dropFile b).theDirectories = s.theDirectories := by
  unfold dropFile
  split <;> rfl

theorem dirRecords_dropFile (b : Bytes) : (s.dropFile b).dirRecords = s.dirRecords := by
  rw [dirRecords, directories_dropFile, dirRecords]

theorem dirPaths_dropFile (b : Bytes) : (s.dropFile b).dirPaths = s.dirPaths := by
  rw [dirPaths, dirRecords_dropFile, dirPaths]

theorem files_addFile (p : AbsPath) (mode : UInt32) (i : Nat) :
    (s.addFile ctx p mode i).theFiles.elems = s.theFiles.elems ++ [newFile ctx p.toCString mode] :=
  StdVector.elems_pushBack _ _ _

namespace WellFormed
variable (h : s.WellFormed)
include h

theorem addFile {p : AbsPath} (hp : p.bytes ∉ s.filePaths ++ s.dirPaths)
    (hd : p.parent.bytes ∈ s.dirPaths) (mode : UInt32) (i : Nat) :
    (s.addFile ctx p mode i).WellFormed := by
  apply (PathTree.addFile h hp hd).perm
  · rw [filePaths, files_addFile, List.map_append]
    exact List.perm_append_singleton _ _
  · rw [dirPaths, dirRecords_addFile]
    rfl

theorem addDirectory {p : AbsPath} (hp : p.bytes ∉ s.filePaths ++ s.dirPaths)
    (hd : p.parent.bytes ∈ s.dirPaths) (i : Nat) : (s.addDirectory ctx p i).WellFormed := by
  apply (PathTree.addDirectory h hp hd).perm (List.Perm.refl _)
  rw [dirPaths, dirRecords_addDirectory, List.map_append]
  exact List.perm_append_singleton _ _

/-- Removal forgets the path; where the path names no file nothing changes. -/
theorem filePaths_dropFile (b : Bytes) : (s.dropFile b).filePaths = s.filePaths.erase b := by
  unfold FilesystemData.dropFile
  split
  next i hi =>
    have hk : ∀ f ∈ s.theFiles.elems.eraseIdx i, f.key = f.path := fun f hf =>
      h.file_key (List.mem_of_mem_eraseIdx hf)
    rw [← h.file_keys, ← KeyedList.map_eraseIdx_position hi, filePaths]
    exact (List.map_congr_left hk).symm
  next hi =>
    rw [List.erase_of_not_mem]
    rw [← h.file_keys]
    exact KeyedList.position_eq_none.mp hi

theorem dropFile (b : Bytes) : (s.dropFile b).WellFormed := by
  rw [WellFormed, filePaths_dropFile h, dirPaths_dropFile]
  exact h.eraseFile b

theorem assign {f : SimpleFile → SimpleFile} (hf : ∀ a, (f a).path = a.path) (i : Nat) :
    (s.assign i f).WellFormed := by
  have hp : (s.assign i f).filePaths = s.filePaths := StdVector.map_modify hf _ _
  rw [WellFormed, hp]
  exact h

theorem moveTo {p q : AbsPath} {i : Nat} (hi : s.fileIndex p.bytes = some i)
    (hq : q.bytes ∉ s.filePaths ++ s.dirPaths) (hd : q.parent.bytes ∈ s.dirPaths) :
    (s.assign i (moveTo q.toCString)).WellFormed := by
  have hkey : ∀ a, (FilesystemData.moveTo q.toCString a).key = q.bytes := fun _ => q.cStr_bytes
  have hsub : q.bytes ∉ s.filePaths.erase p.bytes ++ s.dirPaths := by
    rw [List.mem_append] at hq ⊢
    exact fun hm => hq (hm.imp_left List.mem_of_mem_erase)
  refine ((h.eraseFile p.bytes).addFile hsub hd).perm ?_ (List.Perm.refl _)
  have hp := KeyedList.map_rekey_perm hi hkey
  rw [h.file_keys] at hp
  refine List.Perm.trans (List.Perm.of_eq ?_) hp
  refine (List.map_congr_left fun f hf => ?_).symm
  obtain ⟨front, a, back, he, _, _, hm⟩ := KeyedList.modify_position hi (FilesystemData.moveTo q.toCString)
  rw [FilesystemData.assign, StdVector.elems_modify, hm] at hf
  rcases List.mem_append.mp hf with hf | hf
  · exact h.file_key (he ▸ List.mem_append_left _ hf)
  · rcases List.mem_cons.mp hf with rfl | hf
    · exact hkey a
    · exact h.file_key (he ▸ List.mem_append_right _ (List.mem_cons_of_mem _ hf))

theorem lookup_files_eq_none {p : AbsPath} (hp : p.bytes ∉ s.filePaths) :
    KeyedList.lookup SimpleFile.key s.theFiles.elems p.bytes = none := by
  rwa [KeyedList.lookup_eq_none, h.file_keys]

theorem lookup_dirRecords_eq_none {p : AbsPath} (hp : p.bytes ∉ s.dirPaths) :
    KeyedList.lookup SimpleFile.key s.dirRecords p.bytes = none := by
  rwa [KeyedList.lookup_eq_none, h.record_keys]

theorem objects_addFile {p : AbsPath} (hp : p.bytes ∉ s.filePaths ++ s.dirPaths) (mode : UInt32) (i : Nat) :
    (s.addFile ctx p mode i).objects =
      Function.update s.objects p (some ((newFile ctx p.toCString mode).object false)) := by
  obtain ⟨hf, hd⟩ := not_or.mp (mt List.mem_append.mpr hp)
  have hk : (newFile ctx p.toCString mode).key = p.bytes := p.cStr_bytes
  have hfresh : (newFile ctx p.toCString mode).key ∉ s.theFiles.elems.map SimpleFile.key := by
    rwa [hk, h.file_keys]
  rw [objects_eq_objectsOf, objects_eq_objectsOf, dirRecords_addFile, files_addFile,
    KeyedList.lookup_append_fresh hfresh, hk, objectsOf_update_file (lookup_dirRecords_eq_none h hd)]
  rfl

theorem objects_addDirectory {p : AbsPath} (hp : p.bytes ∉ s.filePaths ++ s.dirPaths) (i : Nat) :
    (s.addDirectory ctx p i).objects =
      Function.update s.objects p (some ((newDirectory ctx p.toCString none).directoryFile.object true)) := by
  obtain ⟨hf, hd⟩ := not_or.mp (mt List.mem_append.mpr hp)
  have hk : (newDirectory ctx p.toCString none).directoryFile.key = p.bytes := p.cStr_bytes
  have hfresh : (newDirectory ctx p.toCString none).directoryFile.key ∉ s.dirRecords.map SimpleFile.key := by
    rwa [hk, h.record_keys]
  rw [objects_eq_objectsOf, objects_eq_objectsOf, dirRecords_addDirectory,
    KeyedList.lookup_append_fresh hfresh, hk]
  exact objectsOf_update_directory (lookup_files_eq_none h hf) _

theorem lookup_dropFile (b : Bytes) :
    KeyedList.lookup SimpleFile.key (s.dropFile b).theFiles.elems =
      Function.update (KeyedList.lookup SimpleFile.key s.theFiles.elems) b none := by
  unfold FilesystemData.dropFile
  split
  next i hi => exact KeyedList.lookup_eraseIdx hi (h.file_keys ▸ h.filePaths_nodup)
  next hi => rw [← KeyedList.lookup_of_position_none hi, Function.update_eq_self]

theorem objects_dropFile {p : AbsPath} (hd : p.bytes ∉ s.dirPaths) :
    (s.dropFile p.bytes).objects = Function.update s.objects p none := by
  rw [objects_eq_objectsOf, objects_eq_objectsOf, dirRecords_dropFile, lookup_dropFile h,
    objectsOf_update_file (lookup_dirRecords_eq_none h hd)]
  rfl

section Found
variable {p : AbsPath} {i : Nat} (hi : s.fileIndex p.bytes = some i)
include hi

omit h in
/-- The object of a path that names a file is the record of that file. -/
theorem objects_of_file :
    s.objects p = (KeyedList.lookup SimpleFile.key s.theFiles.elems p.bytes).map (SimpleFile.object false) := by
  obtain ⟨f, _, hl⟩ := KeyedList.getElem?_position hi
  rw [objects_eq_objectsOf, objectsOf, hl]
  rfl

theorem lookup_dirRecords_of_file : KeyedList.lookup SimpleFile.key s.dirRecords p.bytes = none :=
  lookup_dirRecords_eq_none h (h.disjoint (h.fileIndex_isSome.mp (by rw [hi]; rfl)))

/-- An assignment to fields of a file acts on the object of its path alone. -/
theorem objects_assign {f : SimpleFile → SimpleFile} (hf : ∀ a, (f a).path = a.path) {g : Object → Object}
    (hg : ∀ a, (f a).object false = g (a.object false)) :
    (s.assign i f).objects = Function.update s.objects p ((s.objects p).map g) := by
  have hkey : ∀ a, (f a).key = a.key := fun a => congrArg cStr (hf a)
  have hobj : ((KeyedList.lookup SimpleFile.key s.theFiles.elems p.bytes).map f).map (SimpleFile.object false) =
      (s.objects p).map g := by
    rw [objects_of_file hi, Option.map_map, Option.map_map]
    exact congrArg (Option.map · _) (funext hg)
  rw [objects_eq_objectsOf, ← hobj, objects_eq_objectsOf,
    ← objectsOf_update_file (lookup_dirRecords_of_file h hi), ← KeyedList.lookup_modify hi hkey]
  rfl

/-- Renaming to an unused path moves the object there. -/
theorem objects_moveTo {q : AbsPath} (hq : q.bytes ∉ s.filePaths ++ s.dirPaths) :
    (s.assign i (FilesystemData.moveTo q.toCString)).objects =
      Function.update (Function.update s.objects p none) q (s.objects p) := by
  obtain ⟨hqf, hqd⟩ := not_or.mp (mt List.mem_append.mpr hq)
  have hkey : ∀ a, (FilesystemData.moveTo q.toCString a).key = q.bytes := fun _ => q.cStr_bytes
  have hl := KeyedList.lookup_rekey hi hkey (h.file_keys ▸ h.filePaths_nodup) (by rwa [h.file_keys])
  have hsrc : Function.update s.objects p none =
      objectsOf (Function.update (KeyedList.lookup SimpleFile.key s.theFiles.elems) p.bytes none)
        (KeyedList.lookup SimpleFile.key s.dirRecords) := by
    rw [objects_eq_objectsOf, objectsOf_update_file (lookup_dirRecords_of_file h hi)]
    rfl
  have hobj : ((KeyedList.lookup SimpleFile.key s.theFiles.elems p.bytes).map
      (FilesystemData.moveTo q.toCString)).map (SimpleFile.object false) = s.objects p := by
    rw [objects_of_file hi, Option.map_map]
    rfl
  rw [hsrc, objects_eq_objectsOf, ← hobj, ← objectsOf_update_file (lookup_dirRecords_eq_none h hqd), ← hl]
  rfl

end Found
end WellFormed

end FilesystemData
end MGFileSystem
