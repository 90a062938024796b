import MGFileSystem.Ram.Allocation
import MGFileSystem.Ram.Listings

/-! Requests without the kernel's checks: any callback on any absolute path in any state, as long as it does nothing
undefined. What remains is a tree of directories that only grows, and the process ends exactly at the first call that
finds no entry, or makes a file too long. -/
namespace MGFileSystem
open FilesystemData

/-- `write_file_content` where a string holds at most `maxSize` bytes, as `std::string::max_size()` has it. `resize` and
`insert` throw past that. -/
def FilesystemData.writeFileContentWithin (maxSize : Nat) (path : CString) (newData : Memory) (size offset : Nat) :
    Method FilesystemData Unit := do
  let index ← assertFound (← getIndexForFilename path)
  let file ← fileAt index
  let stringForWriting := (cStr newData).take size
  if file.content.length < offset ∧ maxSize < offset then throw .lengthError
  let resized := file.content ++ List.replicate (offset - file.content.length) 0
  modify fun s => { s with theFiles := s.theFiles.modify index fun f => { f with content := resized } }
  if maxSize < resized.length + stringForWriting.length then throw .lengthError
  modify fun s => { s with
    theFiles := s.theFiles.modify index fun f =>
      { f with content := resized.take offset ++ stringForWriting ++ resized.drop offset } }

/-- `filesystem_data` with strings of bounded length. -/
def filesystemDataWithin (maxSize : Nat) (ctx : CallContext) : StorageBackend FilesystemData :=
  { filesystemData ctx with writeFileContent := writeFileContentWithin maxSize }

/-- What keeps a request from ending the process: the stored paths, and for a write the length that the file gets. -/
def FuseRequest.Survives (maxSize : Nat) (s : FilesystemData) : FuseRequest → Prop
  | readdir p => p.bytes ∈ s.dirPaths
  | write p buffer size offset => ∃ f, KeyedList.lookup SimpleFile.key s.theFiles.elems p.bytes = some f ∧
      (writtenContent f.content buffer size offset).length ≤ maxSize
  | truncate p _ | chmod p _ | chown p _ _ | utimens p _ _ => p.bytes ∈ s.filePaths
  | rename p q => p.bytes ∈ s.filePaths.erase q.bytes
  | create p _ | mkdir p _ => parentBytes p.bytes ∈ s.dirPaths
  | getattr .. | read .. | unlink _ | rmdir _ | stub _ => True

/-- How it ends otherwise. -/
def FuseRequest.fault (s : FilesystemData) : FuseRequest → Fault
  | readdir _ => .outOfRange
  | mkdir .. => .badPointer
  | write p .. => if (s.fileIndex p.bytes).isSome then .lengthError else .assertion
  | _ => .assertion

theorem mem_of_modify {α : Type} {l : List α} {i : Nat} {f : α → α} {x : α} (hx : x ∈ l.modify i f) :
    x ∈ l ∨ ∃ a ∈ l, x = f a := by
  obtain ⟨j, hj⟩ := List.mem_iff_getElem?.mp hx
  rw [List.getElem?_modify] at hj
  obtain ⟨a, ha, rfl⟩ := Option.map_eq_some_iff.mp hj
  split
  · exact .inr ⟨a, List.mem_of_getElem? ha, rfl⟩
  · exact .inl (List.mem_of_getElem? ha)

theorem mem_of_modifyAt {α : Type} {v : StdVector α} {p : ElementPtr} {f : α → α} {x : α}
    (hx : x ∈ (v.modifyAt p f).elems) : x ∈ v.elems ∨ ∃ a ∈ v.elems, x = f a := by
  unfold StdVector.modifyAt at hx
  split at hx
  · exact mem_of_modify hx
  · exact .inl hx

namespace FilesystemData
variable {s s' : FilesystemData} {ctx : CallContext}

/-- Every address that a directory contains is one of an object. -/
def Addressable (s : FilesystemData) : Prop :=
  ∀ d ∈ s.theDirectories.elems, ∀ a ∈ d.containedDirectories, a < s.heap.length

/-- A change to the pointers to files of one directory. -/
theorem Addressable.linkFile (h : s.Addressable) (i : Nat) (p : ElementPtr) :
    Addressable { s with theDirectories := s.theDirectories.modify i (SimpleDirectory.linkFile p) } := by
  intro d hd a ha
  rcases mem_of_modify hd with hd | ⟨d', hd', rfl⟩
  · exact h d hd a ha
  · exact h d' hd' a ha

/-- A new object at the end of the heap, and a directory without addresses. -/
theorem Addressable.push (h : s.Addressable) (g : GrowthPolicy) (newDir : SimpleDirectory)
    (hnew : newDir.containedDirectories = []) :
    Addressable { s with heap := s.heap ++ [newDir], theDirectories := s.theDirectories.pushBack g newDir } := by
  intro d hd a ha
  have hlength : (s.heap ++ [newDir]).length = s.heap.length + 1 := List.length_append
  rw [StdVector.elems_pushBack, List.mem_append, List.mem_singleton] at hd
  show a < (s.heap ++ [newDir]).length
  rw [hlength]
  rcases hd with hd | rfl
  · exact Nat.lt_succ_of_lt (h d hd a ha)
  · rw [hnew] at ha
    cases ha

/-- The address of an object, in some directory or in none. -/
theorem Addressable.linkDirectory (h : s.Addressable) {a : Nat} (ha : a < s.heap.length) (p : ElementPtr) :
    Addressable { s with theDirectories := s.theDirectories.modifyAt p (SimpleDirectory.linkDirectory a) } := by
  intro d hd b hb
  rcases mem_of_modifyAt hd with hd | ⟨d', hd', rfl⟩
  · exact h d hd b hb
  · rcases List.mem_append.mp hb with hb | hb
    · exact h d' hd' b hb
    · rwa [List.mem_singleton.mp hb]

theorem addressable_init (ctx : CallContext) : (init ctx).Addressable := by
  have hc := catalogued_init ctx
  exact fun d hd a ha => hc.lt_of_mem (List.mem_map_of_mem hd : d.entry ∈ (init ctx).entries) ha

/-- What is left of the tree of paths without the kernel's checks: files may share a path, lie where there is no
directory, or hide one. -/
structure Rooted (s : FilesystemData) : Prop where
  normalised : ∀ b ∈ s.filePaths ++ s.dirPaths, Normalised b ∧ 0 ∉ b
  root : AbsPath.root.bytes ∈ s.dirPaths
  parents : ∀ b ∈ s.dirPaths, parentBytes b ∈ s.dirPaths
  addressable : s.Addressable

/-- A step that keeps the tree and every directory in it. -/
def Grows (s s' : FilesystemData) : Prop := s'.Rooted ∧ s.dirPaths <+: s'.dirPaths

namespace Rooted
variable (h : s.Rooted)
include h

theorem file_keys : s.theFiles.elems.map SimpleFile.key = s.filePaths :=
  List.map_congr_left fun _ hf =>
    cStr_of_nul_free (h.normalised _ (List.mem_append_left _ (List.mem_map_of_mem hf))).2

theorem directory_keys : s.theDirectories.elems.map SimpleDirectory.key = s.dirPaths := by
  rw [dirPaths, dirRecords, List.map_map]
  refine List.map_congr_left fun d hd => cStr_of_nul_free (h.normalised d.directoryFile.path ?_).2
  exact List.mem_append_right _ (List.mem_map_of_mem (List.mem_map_of_mem hd))

theorem fileIndex_isSome {b : Bytes} : (s.fileIndex b).isSome ↔ b ∈ s.filePaths := by
  rw [fileIndex, KeyedList.position_isSome, h.file_keys]

theorem dirIndex_isSome {b : Bytes} : (s.dirIndex b).isSome ↔ b ∈ s.dirPaths := by
  rw [dirIndex, KeyedList.position_isSome, h.directory_keys]

theorem grows_self : s.Grows s := ⟨h, List.prefix_refl _⟩

/-- A change to the files alone. -/
theorem withFiles (hd : s'.theDirectories = s.theDirectories) (hh : s'.heap = s.heap)
    (hf : ∀ b ∈ s'.filePaths, b ∈ s.filePaths ∨ ∃ p : AbsPath, p.bytes = b) : s.Grows s' := by
  have hdirs : s'.dirPaths = s.dirPaths := by rw [dirPaths, dirRecords, hd, dirPaths, dirRecords]
  refine ⟨⟨fun b hb => ?_, hdirs ▸ h.root, hdirs ▸ h.parents, ?_⟩, hdirs ▸ List.prefix_refl _⟩
  · rw [hdirs] at hb
    rcases List.mem_append.mp hb with hb | hb
    · rcases hf b hb with hb | ⟨p, rfl⟩
      · exact h.normalised b (List.mem_append_left _ hb)
      · exact ⟨p.normalised, p.nul_free⟩
    · exact h.normalised b (List.mem_append_right _ hb)
  · intro d hmem a ha
    rw [hd] at hmem
    rw [hh]
    exact h.addressable d hmem a ha

theorem filePaths_dropFile (b : Bytes) : (s.dropFile b).filePaths = s.filePaths.erase b := by
  have hkeys : ∀ f ∈ s.theFiles.elems, f.key = f.path := by
    have hk := h.file_keys
    rw [filePaths] at hk
    exact List.map_inj_left.mp hk
  unfold FilesystemData.dropFile
  split
  next i hi =>
    rw [← h.file_keys, ← KeyedList.map_eraseIdx_position hi, filePaths]
    exact (List.map_congr_left fun f hf => hkeys f (List.mem_of_mem_eraseIdx hf)).symm
  next hi =>
    rw [List.erase_of_not_mem]
    rw [← h.file_keys]
    exact KeyedList.position_eq_none.mp hi

theorem dropFile (b : Bytes) : s.Grows (s.dropFile b) := by
  apply h.withFiles (directories_dropFile b) (entries_dropFile b).2
  intro c hc
  rw [h.filePaths_dropFile] at hc
  exact .inl (List.mem_of_mem_erase hc)

/-- An assignment that keeps the path of the file, or puts an absolute path there. -/
theorem assign (i : Nat) {f : SimpleFile → SimpleFile}
    (hf : ∀ a, (f a).path = a.path ∨ ∃ p : AbsPath, p.bytes = (f a).path) : s.Grows (s.assign i f) := by
  have hdirs : (s.assign i f).theDirectories = s.theDirectories := rfl
  apply h.withFiles hdirs rfl
  intro b hb
  obtain ⟨g, hg, rfl⟩ := List.mem_map.mp hb
  rcases mem_of_modify hg with hg | ⟨a, ha, rfl⟩
  · exact .inl (List.mem_map_of_mem hg)
  · rcases hf a with hpath | hpath
    · rw [hpath]
      exact .inl (List.mem_map_of_mem ha)
    · exact .inr hpath

theorem addFile (p : AbsPath) (mode : UInt32) (i : Nat) : s.Grows (s.addFile ctx p mode i) := by
  have hdirs : (s.addFile ctx p mode i).dirPaths = s.dirPaths := by rw [dirPaths, dirRecords_addFile, dirPaths]
  refine ⟨⟨fun b hb => ?_, hdirs ▸ h.root, hdirs ▸ h.parents, ?_⟩, hdirs ▸ List.prefix_refl _⟩
  · rw [hdirs, filePaths, files_addFile, List.map_append, List.append_assoc] at hb
    rcases List.mem_append.mp hb with hb | hb
    · exact h.normalised b (List.mem_append_left _ hb)
    · rcases List.mem_append.mp hb with hb | hb
      · obtain rfl := List.mem_singleton.mp hb
        exact ⟨p.normalised, p.nul_free⟩
      · exact h.normalised b (List.mem_append_right _ hb)
  · exact h.addressable.linkFile i _

theorem addDirectory {p : AbsPath} (hp : p.parent.bytes ∈ s.dirPaths) (i : Nat) : s.Grows (s.addDirectory ctx p i) := by
  have hdirs : (s.addDirectory ctx p i).dirPaths = s.dirPaths ++ [p.bytes] := by
    rw [dirPaths, dirRecords_addDirectory, List.map_append]
    rfl
  refine ⟨⟨fun b hb => ?_, ?_, fun b hb => ?_, ?_⟩, hdirs ▸ List.prefix_append _ _⟩
  · rw [hdirs, ← List.append_assoc] at hb
    rcases List.mem_append.mp hb with hb | hb
    · exact h.normalised b hb
    · obtain rfl := List.mem_singleton.mp hb
      exact ⟨p.normalised, p.nul_free⟩
  · rw [hdirs]
    exact List.mem_append_left _ h.root
  · rw [hdirs] at hb ⊢
    rcases List.mem_append.mp hb with hb | hb
    · exact List.mem_append_left _ (h.parents b hb)
    · obtain rfl := List.mem_singleton.mp hb
      exact List.mem_append_left _ hp
  · have hpushed := h.addressable.push ctx.growth
      (newDirectory ctx p.toCString (some (s.theDirectories.ptr i))) rfl
    exact hpushed.linkDirectory (by simp) _

end Rooted

theorem rooted_init (ctx : CallContext) : (init ctx).Rooted where
  normalised b hb := by
    obtain ⟨p, rfl⟩ := (wellFormed_init ctx).normalised b hb
    exact ⟨p.normalised, p.nul_free⟩
  root := (wellFormed_init ctx).root
  parents b hb := by
    obtain ⟨p, rfl⟩ := (wellFormed_init ctx).normalised b (List.mem_append_right _ hb)
    exact (wellFormed_init ctx).closed p (List.mem_append_right _ hb)
  addressable := addressable_init ctx

/-- The directory part of the root is the root. -/
theorem run_getIndexForDirname_parent (p : AbsPath) (s : FilesystemData) :
    (getIndexForDirname (.ofBytes (getDirFromPath p.bytes))).run s = .ok (s.dirIndex p.parent.bytes) s := by
  by_cases hp : p = .root
  · subst hp
    rfl
  · exact run_getIndexForDirname_getDirFromPath hp s

section Outcomes
variable (h : s.Rooted)
include h

theorem assignFile_survives {p : CString} (hp : p.bytes ∈ s.filePaths) {f : SimpleFile → SimpleFile}
    (hf : ∀ a, (f a).path = a.path) : ∃ s', (assignFile p f).run s = .ok () s' ∧ s.Grows s' := by
  obtain ⟨i, hi⟩ := Option.isSome_iff_exists.mp (h.fileIndex_isSome.mpr hp)
  exact ⟨s.assign i f, run_assignFile hi f, h.assign i fun a => .inl (hf a)⟩

theorem assignFile_aborts {p : CString} (hp : p.bytes ∉ s.filePaths) (f : SimpleFile → SimpleFile) :
    (assignFile p f).run s = .error .assertion s := by
  apply run_assignFile_missing
  rwa [← Option.not_isSome_iff_eq_none, h.fileIndex_isSome]

/-- The destination is removed first, and the source searched after that. -/
theorem fileIndex_dropFile_isSome {p q : CString} :
    ((s.dropFile q.bytes).fileIndex p.bytes).isSome ↔ p.bytes ∈ s.filePaths.erase q.bytes := by
  rw [(h.dropFile q.bytes).1.fileIndex_isSome, h.filePaths_dropFile]

theorem renameFile_survives {p : CString} {q : AbsPath} (hp : p.bytes ∈ s.filePaths.erase q.bytes) :
    ∃ s', (renameFile p q.toCString).run s = .ok () s' ∧ s.Grows s' := by
  obtain ⟨i, hi⟩ := Option.isSome_iff_exists.mp ((fileIndex_dropFile_isSome h).mpr hp)
  have hdrop := h.dropFile q.bytes
  have hmove := hdrop.1.assign i (f := moveTo q.toCString) fun _ => .inr ⟨q, rfl⟩
  exact ⟨_, run_renameFile hi, hmove.1, hdrop.2.trans hmove.2⟩

theorem renameFile_aborts {p q : CString} (hp : p.bytes ∉ s.filePaths.erase q.bytes) :
    (renameFile p q).run s = .error .assertion (s.dropFile q.bytes) := by
  apply run_renameFile_missing
  rwa [← Option.not_isSome_iff_eq_none, fileIndex_dropFile_isSome h]

theorem createFile_survives {p : AbsPath} (hp : p.parent.bytes ∈ s.dirPaths) (mode : UInt32) :
    ∃ s', (createFile ctx p.toCString mode).run s = .ok () s' ∧ s.Grows s' := by
  obtain ⟨i, hi⟩ := Option.isSome_iff_exists.mp (h.dirIndex_isSome.mpr hp)
  refine ⟨s.addFile ctx p mode i, ?_, h.addFile p mode i⟩
  have hpushed : ∀ v, ({ s with theFiles := v } : FilesystemData).dirIndex p.parent.bytes = some i := fun _ => hi
  simp only [createFile, EStateM.run_bind, EStateM.run_modify, run_getIndexForDirname_parent, hpushed, assertFound,
    EStateM.run_pure, EStateM.run_get, dirIndex_lt hi, if_true]
  rfl

theorem createFile_aborts {p : AbsPath} (hp : p.parent.bytes ∉ s.dirPaths) (mode : UInt32) :
    ∃ s', (createFile ctx p.toCString mode).run s = .error .assertion s' := by
  have hi : s.dirIndex p.parent.bytes = none := by rwa [← Option.not_isSome_iff_eq_none, h.dirIndex_isSome]
  have hpushed : ∀ v, ({ s with theFiles := v } : FilesystemData).dirIndex p.parent.bytes = none := fun _ => hi
  simp only [createFile, EStateM.run_bind, EStateM.run_modify, run_getIndexForDirname_parent, hpushed, assertFound]
  exact ⟨_, rfl⟩

theorem createDirectory_survives {p : AbsPath} (hr : p ≠ .root) (hp : p.parent.bytes ∈ s.dirPaths) (mode : UInt32) :
    ∃ s', (createDirectory ctx p.toCString mode).run s = .ok () s' ∧ s.Grows s' := by
  obtain ⟨i, hi⟩ := Option.isSome_iff_exists.mp (h.dirIndex_isSome.mpr hp)
  exact ⟨s.addDirectory ctx p i, run_createDirectory hr mode hi, h.addDirectory hp i⟩

theorem createDirectory_aborts {p : AbsPath} (hr : p ≠ .root) (hp : p.parent.bytes ∉ s.dirPaths) (mode : UInt32) :
    ∃ s', (createDirectory ctx p.toCString mode).run s = .error .badPointer s' := by
  have hi : s.dirIndex p.parent.bytes = none := by rwa [← Option.not_isSome_iff_eq_none, h.dirIndex_isSome]
  simp only [createDirectory, EStateM.run_bind, run_getParentDirectoryFromPath hr, hi, Option.map_none,
    EStateM.run_get, EStateM.run_modify]
  exact ⟨_, rfl⟩

theorem listFilesInDir_survives {p : AbsPath} (hp : p.bytes ∈ s.dirPaths) :
    ∃ names, (listFilesInDir p.toCString).run s = .ok names s := by
  obtain ⟨i, hi⟩ := Option.isSome_iff_exists.mp (h.dirIndex_isSome.mpr hp)
  obtain ⟨d, hd, _⟩ := KeyedList.getElem?_position hi
  have hvalid : ∀ a ∈ d.containedDirectories, a < s.heap.length := h.addressable d (List.mem_of_getElem? hd)
  refine ⟨s.directoryNames d ++ s.fileNames, ?_⟩
  simp only [listFilesInDir, EStateM.run_bind, run_getIndexForDirname_absPath, hi, run_directoryAt hd,
    run_mapM_directoryName hvalid]
  rfl

theorem listFilesInDir_aborts {p : AbsPath} (hp : p.bytes ∉ s.dirPaths) :
    (listFilesInDir p.toCString).run s = .error .outOfRange s := by
  have hi : s.dirIndex p.bytes = none := by rwa [← Option.not_isSome_iff_eq_none, h.dirIndex_isSome]
  simp only [listFilesInDir, EStateM.run_bind, run_getIndexForDirname_absPath, hi]
  rfl

omit h in
theorem length_writtenContent (content : Bytes) (data : Memory) (size offset : Nat) :
    (writtenContent content data size offset).length =
      (content ++ List.replicate (offset - content.length) 0).length + ((cStr data).take size).length := by
  dsimp only [writtenContent]
  split <;> simp only [List.length_append, List.length_take, List.length_drop, List.length_replicate] <;> omega

omit h in
theorem assign_assign {i : Nat} {a : SimpleFile} (ha : s.theFiles.elems[i]? = some a) {f g k : SimpleFile → SimpleFile}
    (hk : g (f a) = k a) : (s.assign i f).assign i g = s.assign i k := by
  have helems : (s.theFiles.elems.modify i f).modify i g = s.theFiles.elems.modify i k := by
    rw [List.modify_modify_eq]
    apply List.ext_getElem?
    intro j
    rw [List.getElem?_modify, List.getElem?_modify]
    by_cases hj : i = j
    · subst hj
      simp only [ha, if_true, Function.comp_apply]
      exact congrArg some hk
    · simp only [if_neg hj]
  simp only [FilesystemData.assign, StdVector.modify, helems]

omit h in
/-- A write that fits does what it does to strings of any length. -/
theorem run_writeFileContentWithin {p : CString} {maxSize size offset : Nat} {data : Memory} {f : SimpleFile}
    (hf : KeyedList.lookup SimpleFile.key s.theFiles.elems p.bytes = some f) :
    ((writtenContent f.content data size offset).length ≤ maxSize →
      (writeFileContentWithin maxSize p data size offset).run s = (writeFileContent p data size offset).run s) ∧
    (maxSize < (writtenContent f.content data size offset).length →
      ∃ s', (writeFileContentWithin maxSize p data size offset).run s = .error .lengthError s') := by
  have hfound : (s.fileIndex p.bytes).isSome := by
    rw [fileIndex, ← KeyedList.isSome_lookup, hf, Option.isSome_some]
  obtain ⟨i, hi⟩ := Option.isSome_iff_exists.mp hfound
  obtain ⟨f', hslot, hf'⟩ := KeyedList.getElem?_position hi
  obtain rfl : f = f' := Option.some.inj (hf.symm.trans hf')
  have hresized : (f.content ++ List.replicate (offset - f.content.length) 0).length = max f.content.length offset := by
    rw [List.length_append, List.length_replicate]
    omega
  rw [length_writtenContent, hresized]
  simp only [writeFileContentWithin, EStateM.run_bind, run_getIndexForFilename, hi, assertFound, EStateM.run_pure,
    fileAt, EStateM.run_get, hslot, hresized]
  constructor
  · intro hfits
    have hresize : ¬ (f.content.length < offset ∧ maxSize < offset) := by omega
    have hcontent : writtenContent f.content data size offset =
        (f.content ++ List.replicate (offset - f.content.length) 0).take offset ++ (cStr data).take size ++
          (f.content ++ List.replicate (offset - f.content.length) 0).drop offset := by
      dsimp only [writtenContent]
      split
      next => rfl
      next ho => rw [Nat.sub_eq_zero_of_le (Nat.not_lt.mp ho), List.replicate_zero, List.append_nil]
    rw [if_neg hresize]
    simp only [EStateM.run_bind, EStateM.run_modify]
    rw [if_neg (Nat.not_lt.mpr hfits), writeFileContent, run_assignFile hi]
    refine congrArg (EStateM.Result.ok ()) (assign_assign hslot ?_)
    dsimp only
    rw [hcontent]
  · intro hlong
    by_cases hresize : f.content.length < offset ∧ maxSize < offset
    · rw [if_pos hresize]
      exact ⟨_, rfl⟩
    · rw [if_neg hresize]
      simp only [EStateM.run_bind, EStateM.run_modify]
      rw [if_pos hlong]
      exact ⟨_, rfl⟩

end Outcomes
end FilesystemData

section Runs
variable {s : FilesystemData} {ctx : CallContext}

/-- A call that survives replies, keeps the tree and loses no directory. -/
def Replies (x : Method (Mounted FilesystemData) Reply) (m : Mounted FilesystemData) : Prop :=
  ∃ reply m', x.run m = .ok reply m' ∧ m.backend.Grows m'.backend

theorem replies_counted {x : Method FilesystemData Unit} {m : Mounted FilesystemData} (code : Int)
    (h : ∃ s', x.run m.backend = .ok () s' ∧ m.backend.Grows s') : Replies (counted (do x; return code)) m := by
  obtain ⟨s', hx, hgrows⟩ := h
  refine ⟨.code code, ⟨s', m.counter + 1, m.counter :: m.printed⟩, ?_, hgrows⟩
  rw [run_counted, EStateM.run_bind, hx]
  rfl

/-- A question leaves the backend as it was. -/
theorem replies_onBackend {α : Type} {x : Method FilesystemData α} {m : Mounted FilesystemData} (f : α → Reply)
    (h : m.backend.Rooted) (hx : ∃ a, x.run m.backend = .ok a m.backend) : Replies (f <$> onBackend x) m := by
  obtain ⟨a, hx⟩ := hx
  refine ⟨f a, m, ?_, h.grows_self⟩
  rw [Method.run_map, run_onBackend, hx]

theorem aborts_counted {x : Method FilesystemData Unit} {m : Mounted FilesystemData} {e : Fault} (code : Int)
    (h : ∃ s', x.run m.backend = .error e s') : ∃ m', (counted (do x; return code)).run m = .error e m' := by
  obtain ⟨s', hx⟩ := h
  refine ⟨{ m with backend := s' }, ?_⟩
  rw [run_counted, EStateM.run_bind, hx]

variable {maxSize : Nat}

variable (ctx) in
theorem FuseRequest.serve_survives {m : Mounted FilesystemData} (h : m.backend.Rooted) {r : FuseRequest}
    (hr : r.Absolute) (hd : r.Defined m.backend) (hs : r.Survives maxSize m.backend) :
    Replies (r.serve (filesystemDataWithin maxSize ctx) ctx) m := by
  cases r with
  | write p buffer size offset =>
    obtain ⟨f, hf, hfits⟩ := hs
    have hp : p.bytes ∈ m.backend.filePaths := by
      rw [← h.fileIndex_isSome, fileIndex, ← KeyedList.isSome_lookup, hf, Option.isSome_some]
    have hwrite := assignFile_survives h hp
      (f := fun f => { f with content := writtenContent f.content buffer size offset })
      fun _ => rfl
    rw [← writeFileContent, ← (run_writeFileContentWithin hf).1 hfits] at hwrite
    exact replies_counted _ hwrite
  | getattr p st =>
    obtain ⟨p, rfl⟩ : ∃ q : AbsPath, q.toCString = p := ⟨⟨p, hr p (List.mem_singleton_self p)⟩, rfl⟩
    exact replies_onBackend _ h ⟨_, run_mgGetattr p.ne_nil ctx st m.backend⟩
  | readdir p =>
    obtain ⟨p, rfl⟩ : ∃ q : AbsPath, q.toCString = p := ⟨⟨p, hr p (List.mem_singleton_self p)⟩, rfl⟩
    obtain ⟨names, hnames⟩ := listFilesInDir_survives h hs
    refine replies_onBackend _ h ⟨(0, names), ?_⟩
    simp only [mgReaddir, filesystemDataWithin, filesystemData, EStateM.run_bind, hnames]
    rfl
  | read => exact hd.elim
  | truncate | chmod | chown | utimens => exact replies_counted _ (assignFile_survives h hs fun _ => rfl)
  | rename p q =>
    obtain ⟨q, rfl⟩ : ∃ a : AbsPath, a.toCString = q :=
      ⟨⟨q, hr q (List.mem_cons_of_mem _ (List.mem_singleton_self q))⟩, rfl⟩
    exact replies_counted _ (renameFile_survives h hs)
  | create p mode =>
    obtain ⟨p, rfl⟩ : ∃ q : AbsPath, q.toCString = p := ⟨⟨p, hr p (List.mem_singleton_self p)⟩, rfl⟩
    exact replies_counted _ (createFile_survives h hs mode)
  | mkdir p mode =>
    obtain ⟨p, rfl⟩ : ∃ q : AbsPath, q.toCString = p := ⟨⟨p, hr p (List.mem_singleton_self p)⟩, rfl⟩
    have hroot : p ≠ .root := fun he => hd.1 (congrArg (·.bytes) he)
    exact replies_counted _ (createDirectory_survives h hroot hs mode)
  | unlink p => exact replies_counted _ ⟨_, run_removeFile p, h.dropFile p.bytes⟩
  | rmdir p => exact replies_counted _ ⟨_, rfl, h.grows_self⟩
  | stub callback => exact ⟨.code 0, _, rfl, h.grows_self⟩

theorem FuseRequest.serve_aborts {m : Mounted FilesystemData} (h : m.backend.Rooted) {r : FuseRequest}
    (hr : r.Absolute) (hd : r.Defined m.backend) (hs : ¬ r.Survives maxSize m.backend) :
    ∃ m', (r.serve (filesystemDataWithin maxSize ctx) ctx).run m = .error (r.fault m.backend) m' := by
  cases r with
  | write p buffer size offset =>
    cases hf : KeyedList.lookup SimpleFile.key m.backend.theFiles.elems p.bytes with
    | some f =>
      have hlong : maxSize < (writtenContent f.content buffer size offset).length :=
        Nat.not_le.mp fun hle => hs ⟨f, hf, hle⟩
      have hfound : (m.backend.fileIndex p.bytes).isSome := by
        rw [fileIndex, ← KeyedList.isSome_lookup, hf, Option.isSome_some]
      rw [fault, if_pos hfound]
      exact aborts_counted _ ((run_writeFileContentWithin hf).2 hlong)
    | none =>
      have hmissing : m.backend.fileIndex p.bytes = none := by
        rw [← Option.not_isSome_iff_eq_none, fileIndex, ← KeyedList.isSome_lookup, hf]
        exact Bool.false_ne_true
      rw [fault, hmissing, Option.isSome_none, if_neg Bool.false_ne_true]
      refine aborts_counted _ ⟨m.backend, ?_⟩
      simp only [filesystemDataWithin, writeFileContentWithin, EStateM.run_bind, run_getIndexForFilename, hmissing,
        assertFound]
      rfl
  | readdir p =>
    obtain ⟨p, rfl⟩ : ∃ q : AbsPath, q.toCString = p := ⟨⟨p, hr p (List.mem_singleton_self p)⟩, rfl⟩
    refine ⟨m, ?_⟩
    simp only [serve, mgReaddir, filesystemDataWithin, filesystemData, Method.run_map, run_onBackend, EStateM.run_bind,
      listFilesInDir_aborts h hs]
    rfl
  | truncate | chmod | chown | utimens => exact aborts_counted _ ⟨_, assignFile_aborts h hs _⟩
  | rename p q => exact aborts_counted _ ⟨_, renameFile_aborts h hs⟩
  | create p mode =>
    obtain ⟨p, rfl⟩ : ∃ q : AbsPath, q.toCString = p := ⟨⟨p, hr p (List.mem_singleton_self p)⟩, rfl⟩
    exact aborts_counted _ (createFile_aborts h hs mode)
  | mkdir p mode =>
    obtain ⟨p, rfl⟩ : ∃ q : AbsPath, q.toCString = p := ⟨⟨p, hr p (List.mem_singleton_self p)⟩, rfl⟩
    have hroot : p ≠ .root := fun he => hd.1 (congrArg (·.bytes) he)
    exact aborts_counted _ (createDirectory_aborts h hroot hs mode)
  | getattr | read | unlink | rmdir | stub => exact absurd trivial hs

/-- Whatever requests on absolute paths come in, with or without the kernel's checks, as long as none does anything
undefined: all of them return exactly if each finds the entry it needs in the state it meets and no file grows past
`max_size()`, and otherwise the process ends at the first for which that fails, in the fault of that request. As long
as it lives the directories are a tree from which none is ever lost. -/
theorem unguarded_run_iff (maxSize : Nat) (ctx : CallContext) {calls : List FuseCall}
    (hcalls : RunDefined (filesystemDataWithin maxSize) calls (.start (init ctx))) :
    ((∃ replies m, (serveAll (filesystemDataWithin maxSize) calls).run (.start (init ctx)) = .ok replies m) ↔
      (mountSystem (filesystemDataWithin maxSize)).Along (fun m c => c.request.Survives maxSize m.backend) calls
        (.start (init ctx))) ∧
    (∀ replies m, (serveAll (filesystemDataWithin maxSize) calls).run (.start (init ctx)) = .ok replies m →
      (init ctx).Grows m.backend) ∧
    ∀ e m, (serveAll (filesystemDataWithin maxSize) calls).run (.start (init ctx)) = .error e m →
      ∃ before c after replies m', calls = before ++ c :: after ∧
        (serveAll (filesystemDataWithin maxSize) before).run (.start (init ctx)) = .ok replies m' ∧
        ¬ c.request.Survives maxSize m'.backend ∧ e = c.request.fault m'.backend := by
  have hends := serveAll_ends (B := filesystemDataWithin maxSize) (I := fun m => (init ctx).Grows m.backend)
    (G := fun m c => c.request.Absolute ∧ c.request.Defined m.backend)
    (C := fun m c => c.request.Survives maxSize m.backend) (F := fun m c => c.request.fault m.backend)
    (fun m c hI hG hC => by
      obtain ⟨reply, m', hrun, hgrows⟩ := c.request.serve_survives c.ctx hI.1 hG.1 hG.2 hC
      exact ⟨reply, m', hrun, hgrows.1, hI.2.trans hgrows.2⟩)
    (fun m c hI hG hC => c.request.serve_aborts hI.1 hG.1 hG.2 hC) hcalls (rooted_init ctx).grows_self
  rcases hends with ⟨halong, replies, m, hrun, hgrows⟩ |
    ⟨halong, before, c, after, replies, m, m', hsplit, hbefore, hc, hrun⟩
  · refine ⟨iff_of_true ⟨replies, m, hrun⟩ halong, fun replies' m' hrun' => ?_, fun e m' hrun' => ?_⟩
    · rw [hrun] at hrun'
      cases hrun'
      exact hgrows
    · rw [hrun] at hrun'
      cases hrun'
  · refine ⟨iff_of_false ?_ halong, fun replies' m₁ hrun' => ?_, fun e m₁ hrun' => ?_⟩
    · rintro ⟨replies', m₁, hrun'⟩
      rw [hrun] at hrun'
      cases hrun'
    · rw [hrun] at hrun'
      cases hrun'
    · rw [hrun] at hrun'
      cases hrun'
      exact ⟨before, c, after, replies, m, hsplit, hbefore, hc, rfl⟩

/-- A directory, hidden by a file that is created twice, renamed onto itself and written past its end. -/
def hiddenCalls : List FuseCall :=
  [⟨.roomy, .mkdir notes.toCString 0o775⟩, ⟨.roomy, .create notes.toCString 0o644⟩,
    ⟨.roomy, .create notes.toCString 0o644⟩, ⟨.roomy, .rename notes.toCString notes.toCString⟩,
    ⟨.roomy, .write notes.toCString (text "hello") 5 10⟩]

theorem unguarded_run_iff_hidden :
    (∃ replies m, (serveAll (filesystemDataWithin 4096) hiddenCalls).run (.start (init .roomy)) = .ok replies m) ↔
      (mountSystem (filesystemDataWithin 4096)).Along (fun m c => c.request.Survives 4096 m.backend) hiddenCalls
        (.start (init .roomy)) := by
  have hone : ∀ p ∈ [notes.toCString], Normalised p.bytes := fun p hp => List.mem_singleton.mp hp ▸ notes.normalised
  have htwo : ∀ p ∈ [notes.toCString, notes.toCString], Normalised p.bytes := fun p hp =>
    (List.mem_cons.mp hp).elim (fun he => he ▸ notes.normalised) (hone p)
  have hroom : (init .roomy).Room := by decide
  have hdefined : RunDefined (filesystemDataWithin 4096) hiddenCalls (.start (init .roomy)) :=
    ⟨⟨hone, by decide, hroom⟩, fun _ _ => ⟨⟨hone, trivial⟩, fun _ _ => ⟨⟨hone, trivial⟩, fun _ _ =>
      ⟨⟨htwo, trivial⟩, fun _ _ => ⟨⟨hone, trivial⟩, fun _ _ => trivial⟩⟩⟩⟩⟩
  exact (unguarded_run_iff 4096 .roomy hdefined).1

end Runs
end MGFileSystem
