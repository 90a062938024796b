import MGFileSystem.Ram.FilesystemData
import MGFileSystem.Machine.Paths

/-! What the searches of `filesystem_data` answer on normalised paths, and what the
answers say about the stored paths. -/
namespace MGFileSystem
namespace FilesystemData
variable {s : FilesystemData}

def filePaths (s : FilesystemData) : List Bytes := s.theFiles.elems.map (·.path)

/-- The records of the directories, which are all that a search for a path reads of them. -/
def dirRecords (s : FilesystemData) : List SimpleFile := s.theDirectories.elems.map (·.directoryFile)

def dirPaths (s : FilesystemData) : List Bytes := s.dirRecords.map (·.path)

theorem run_getIndexForFilename (p : CString) (s : FilesystemData) :
    (getIndexForFilename p).run s = .ok (s.fileIndex p.bytes) s := rfl

theorem run_getIndexForDirname {p : CString} (h : p.bytes ≠ []) (s : FilesystemData) :
    (getIndexForDirname p).run s = .ok (s.dirIndex (cStr (stripSlash p.bytes))) s := by
  simp [getIndexForDirname, h]

theorem stripSlash_absPath (p : AbsPath) : stripSlash p.bytes = p.bytes := by
  rw [stripSlash, if_neg]
  rintro ⟨hl, hlen⟩
  have hr : p ≠ .root := by
    rintro rfl
    simp [AbsPath.root] at hlen
  exact AbsPath.getLast?_ne hr hl

theorem run_getIndexForDirname_absPath (p : AbsPath) (s : FilesystemData) :
    (getIndexForDirname p.toCString).run s = .ok (s.dirIndex p.bytes) s := by
  rw [run_getIndexForDirname p.ne_nil, stripSlash_absPath, p.cStr_bytes]

section Parent
variable {d n : Bytes}

/-- The stored path under which a search for the directory part of `d ++ "/" ++ n` looks. -/
def parentKey (d : Bytes) : Bytes := if d = [] then text "/" else d

theorem findLastOf_name (d : Bytes) (hn : slash ∉ n) : findLastOf slash (d ++ text "/" ++ n) = some d.length := by
  rw [List.append_assoc]
  exact findLastOf_split d hn

theorem getDirFromPath_split (d : Bytes) (hn : slash ∉ n) : getDirFromPath (d ++ text "/" ++ n) = d ++ text "/" := by
  rw [getDirFromPath, findLastOf_name d hn, after]
  exact List.take_left' (by simp [text])

theorem stripSlash_append_slash (d : Bytes) : stripSlash (d ++ text "/") = parentKey d := by
  have hlast : (d ++ text "/").getLast? = some slash := List.getLast?_concat
  rw [stripSlash, hlast, parentKey]
  by_cases hnil : d = []
  · subst hnil
    rfl
  · have hpos := List.length_pos_iff.mpr hnil
    rw [if_pos ⟨rfl, by simpa [text] using hpos⟩, if_neg hnil]
    exact List.take_left' (by simp [text])

theorem nul_free_dir (hd : 0 ∉ d) : 0 ∉ d ++ text "/" := by
  rw [List.mem_append, not_or]
  exact ⟨hd, by decide⟩

theorem nul_free_parentKey (hd : 0 ∉ d) : 0 ∉ parentKey d := by
  rw [parentKey]
  split
  · decide
  · exact hd

/-- The search that all routes to the parent directory end in. -/
theorem run_getIndexForDirname_dir (hd : 0 ∉ d) (s : FilesystemData) :
    (getIndexForDirname (.ofBytes (d ++ text "/"))).run s = .ok (s.dirIndex (parentKey d)) s := by
  have hb := CString.ofBytes_bytes (nul_free_dir hd)
  rw [run_getIndexForDirname (by rw [hb]; simp [text]), hb, stripSlash_append_slash,
    cStr_of_nul_free (nul_free_parentKey hd)]

/-- The directory part of a path ending in a name, found by the second half of `get_parent_directory_from_path`. -/
theorem run_getParentDirectoryFromPath_name (hd : 0 ∉ d) (hn : slash ∉ n) (hne : n ≠ []) (s : FilesystemData) :
    (getParentDirectoryFromPath (d ++ text "/" ++ n)).run s =
      .ok ((s.dirIndex (parentKey d)).map s.theDirectories.ptr) s := by
  have hp : d ++ text "/" ++ n ≠ [] := List.append_ne_nil_of_right_ne_nil _ hne
  have hlast : (d ++ text "/" ++ n).getLast? ≠ some slash := by
    rw [List.getLast?_append_of_ne_nil _ hne]
    exact fun hs => hn (List.mem_of_getLast? hs)
  have hdir := getDirFromPath_split d hn
  rw [getDirFromPath] at hdir
  simp only [getParentDirectoryFromPath, hp, hlast, if_false, EStateM.run_bind, hdir, run_getIndexForDirname_dir hd]
  cases s.dirIndex (parentKey d) <;> rfl

end Parent

/-- A path other than the root, cut as the searches for its parent directory cut it. -/
theorem exists_name {p : AbsPath} (h : p ≠ .root) :
    ∃ d n, p.bytes = d ++ text "/" ++ n ∧ 0 ∉ d ∧ slash ∉ n ∧ n ≠ [] ∧ p.parent.bytes = parentKey d := by
  obtain ⟨d, n, he, hn, hne, -, hparent, -⟩ := AbsPath.split h
  refine ⟨d, n, ?_, fun h0 => p.nul_free ?_, hn, hne, hparent⟩
  · rw [he, List.append_assoc]
    rfl
  · rw [he]
    exact List.mem_append_left _ h0

/-- `create_file` finds the parent directory by its route. -/
theorem run_getIndexForDirname_getDirFromPath {p : AbsPath} (h : p ≠ .root) (s : FilesystemData) :
    (getIndexForDirname (.ofBytes (getDirFromPath p.bytes))).run s = .ok (s.dirIndex p.parent.bytes) s := by
  obtain ⟨d, n, he, hd, hn, -, hparent⟩ := exists_name h
  rw [he, getDirFromPath_split d hn, run_getIndexForDirname_dir hd, hparent]

/-- `create_directory` finds the parent directory by its route. -/
theorem run_getParentDirectoryFromPath {p : AbsPath} (h : p ≠ .root) (s : FilesystemData) :
    (getParentDirectoryFromPath p.bytes).run s =
      .ok ((s.dirIndex p.parent.bytes).map s.theDirectories.ptr) s := by
  obtain ⟨d, n, he, hd, hn, hne, hparent⟩ := exists_name h
  rw [he, run_getParentDirectoryFromPath_name hd hn hne, hparent]

/-- The object a search for a path answers with, files before directories. -/
def ptrAt (s : FilesystemData) (b : Bytes) : Option FilePtr :=
  ((KeyedList.lookup SimpleFile.key s.theFiles.elems b).map .file).or
    ((KeyedList.lookup SimpleFile.key s.dirRecords (cStr (stripSlash b))).map .directory)

theorem lookup_dirRecords (s : FilesystemData) (b : Bytes) :
    KeyedList.lookup SimpleFile.key s.dirRecords b =
      (KeyedList.lookup SimpleDirectory.key s.theDirectories.elems b).map (·.directoryFile) :=
  KeyedList.lookup_map _ _ _

theorem run_getFileptrForFilename {p : CString} (h : p.bytes ≠ []) (s : FilesystemData) :
    (getFileptrForFilename p.bytes).run s = .ok (s.ptrAt p.bytes) s := by
  simp only [getFileptrForFilename, p.ofBytes_self, EStateM.run_bind, run_getIndexForFilename]
  cases hf : s.fileIndex p.bytes with
  | some i =>
    obtain ⟨f, hi, hl⟩ := KeyedList.getElem?_position hf
    simp [fileAt, hi, ptrAt, hl]
  | none =>
    have hl := KeyedList.lookup_of_position_none hf
    simp only [EStateM.run_bind, run_getIndexForDirname h]
    cases hd : s.dirIndex (cStr (stripSlash p.bytes)) with
    | some i =>
      obtain ⟨d, hi, hl'⟩ := KeyedList.getElem?_position hd
      simp [directoryAt, hi, ptrAt, hl, lookup_dirRecords, hl']
    | none =>
      have hl' := KeyedList.lookup_of_position_none hd
      simp [ptrAt, hl, lookup_dirRecords, hl']

end FilesystemData
end MGFileSystem
