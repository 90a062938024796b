import MGFileSystem.Ram.Lookups

/-! The invariant on the stored paths: distinct normalised paths, closed under parents.
Lookups then find exactly the entries whose stored path is the searched one. -/
namespace MGFileSystem

/-- The stored paths of files and directories form a tree of distinct paths. -/
structure PathTree (files dirs : List Bytes) : Prop where
  distinct : (files ++ dirs).Nodup
  normalised : ∀ b ∈ files ++ dirs, ∃ p : AbsPath, p.bytes = b
  root : AbsPath.root.bytes ∈ dirs
  closed : ∀ p : AbsPath, p.bytes ∈ files ++ dirs → p.parent.bytes ∈ dirs

namespace PathTree
variable {files dirs files' dirs' : List Bytes}

theorem perm (h : PathTree files dirs) (hf : files'.Perm files) (hd : dirs'.Perm dirs) :
    PathTree files' dirs' := by
  have hp : (files' ++ dirs').Perm (files ++ dirs) := hf.append hd
  exact ⟨hp.nodup_iff.mpr h.distinct, fun b hb => h.normalised b (hp.mem_iff.mp hb),
    hd.mem_iff.mpr h.root, fun p hp' => hd.mem_iff.mpr (h.closed p (hp.mem_iff.mp hp'))⟩

theorem root_only : PathTree [] [AbsPath.root.bytes] where
  distinct := by simp
  normalised b hb := ⟨.root, (by simpa using hb : b = AbsPath.root.bytes).symm⟩
  root := by simp
  closed p hp := by
    obtain rfl : p = .root := AbsPath.ext (by simpa using hp)
    rw [AbsPath.parent_root]
    simp

theorem addFile (h : PathTree files dirs) {p : AbsPath} (hp : p.bytes ∉ files ++ dirs)
    (hd : p.parent.bytes ∈ dirs) : PathTree (p.bytes :: files) dirs where
  distinct := List.nodup_cons.mpr ⟨hp, h.distinct⟩
  normalised b hb := by
    rcases List.mem_cons.mp hb with rfl | hb
    · exact ⟨p, rfl⟩
    · exact h.normalised b hb
  root := h.root
  closed q hq := by
    rcases List.mem_cons.mp hq with hq | hq
    · exact AbsPath.bytes_injective.mp hq ▸ hd
    · exact h.closed q hq

theorem addDirectory (h : PathTree files dirs) {p : AbsPath} (hp : p.bytes ∉ files ++ dirs)
    (hd : p.parent.bytes ∈ dirs) : PathTree files (p.bytes :: dirs) where
  distinct := List.nodup_middle.mpr (List.nodup_cons.mpr ⟨hp, h.distinct⟩)
  normalised b hb := by
    rcases List.mem_cons.mp (List.perm_middle.mem_iff.mp hb) with rfl | hb
    · exact ⟨p, rfl⟩
    · exact h.normalised b hb
  root := List.mem_cons_of_mem _ h.root
  closed q hq := by
    rcases List.mem_cons.mp (List.perm_middle.mem_iff.mp hq) with hq | hq
    · exact List.mem_cons_of_mem _ (AbsPath.bytes_injective.mp hq ▸ hd)
    · exact List.mem_cons_of_mem _ (h.closed q hq)

theorem eraseFile (h : PathTree files dirs) (b : Bytes) : PathTree (files.erase b) dirs := by
  have hs : (files.erase b ++ dirs).Sublist (files ++ dirs) :=
    List.erase_sublist.append (List.Sublist.refl _)
  exact ⟨h.distinct.sublist hs, fun c hc => h.normalised c (hs.subset hc), h.root,
    fun p hp => h.closed p (hs.subset hp)⟩

theorem not_mem_erase (h : PathTree files dirs) (b : Bytes) : b ∉ files.erase b :=
  (List.nodup_append.mp h.distinct).1.not_mem_erase

end PathTree

namespace FilesystemData

/-- The stored paths form a tree. -/
def WellFormed (s : FilesystemData) : Prop := PathTree s.filePaths s.dirPaths

namespace WellFormed
variable {s : FilesystemData} (h : s.WellFormed)
include h

theorem nul_free {b : Bytes} (hb : b ∈ s.filePaths ++ s.dirPaths) : 0 ∉ b := by
  obtain ⟨p, rfl⟩ := h.normalised b hb
  exact p.nul_free

theorem file_key {f : SimpleFile} (hf : f ∈ s.theFiles.elems) : f.key = f.path :=
  cStr_of_nul_free (h.nul_free (List.mem_append_left _ (List.mem_map_of_mem hf)))

theorem record_key {f : SimpleFile} (hf : f ∈ s.dirRecords) : f.key = f.path :=
  cStr_of_nul_free (h.nul_free (List.mem_append_right _ (List.mem_map_of_mem hf)))

theorem file_keys : s.theFiles.elems.map SimpleFile.key = s.filePaths :=
  List.map_congr_left fun _ hf => h.file_key hf

theorem record_keys : s.dirRecords.map SimpleFile.key = s.dirPaths :=
  List.map_congr_left fun _ hd => h.record_key hd

theorem directory_keys : s.theDirectories.elems.map SimpleDirectory.key = s.dirPaths := by
  rw [← h.record_keys, dirRecords, List.map_map]
  rfl

theorem filePaths_nodup : s.filePaths.Nodup := (List.nodup_append.mp h.distinct).1

theorem dirPaths_nodup : s.dirPaths.Nodup := (List.nodup_append.mp h.distinct).2.1

theorem disjoint {b : Bytes} (hf : b ∈ s.filePaths) : b ∉ s.dirPaths :=
  fun hd => (List.nodup_append.mp h.distinct).2.2 b hf b hd rfl

theorem fileIndex_isSome {b : Bytes} : (s.fileIndex b).isSome ↔ b ∈ s.filePaths := by
  rw [fileIndex, KeyedList.position_isSome, h.file_keys]

theorem dirIndex_isSome {b : Bytes} : (s.dirIndex b).isSome ↔ b ∈ s.dirPaths := by
  rw [dirIndex, KeyedList.position_isSome, h.directory_keys]

/-- The directory found under a path is stored under that path. -/
theorem dirIndex_path {b : Bytes} {i : Nat} (hi : s.dirIndex b = some i) :
    ∃ d, s.theDirectories.elems[i]? = some d ∧ d.directoryFile.path = b := by
  obtain ⟨front, d, back, he, rfl, rfl, _⟩ := KeyedList.position_split hi
  refine ⟨d, by rw [he]; simp, ?_⟩
  exact (h.record_key (List.mem_map_of_mem (by rw [he]; simp))).symm

/-- No two slots hold directories with one path. -/
theorem directory_slot {d e : SimpleDirectory} {i j : Nat} (hd : s.theDirectories.elems[i]? = some d)
    (he : s.theDirectories.elems[j]? = some e) (hpath : d.directoryFile.path = e.directoryFile.path) : i = j := by
  have hnodup := h.dirPaths_nodup
  rw [dirPaths, dirRecords, List.map_map] at hnodup
  have hlt : i < (s.theDirectories.elems.map (SimpleFile.path ∘ SimpleDirectory.directoryFile)).length := by
    rw [List.length_map]
    exact (List.getElem?_eq_some_iff.mp hd).1
  refine (List.getElem?_inj hlt hnodup).mp ?_
  rw [List.getElem?_map, List.getElem?_map, hd, he]
  exact congrArg some hpath

/-- The file found under a path is stored under that path. -/
theorem fileIndex_path {b : Bytes} {i : Nat} (hi : s.fileIndex b = some i) :
    ∃ f, s.theFiles.elems[i]? = some f ∧ f.path = b := by
  obtain ⟨front, f, back, he, rfl, rfl, _⟩ := KeyedList.position_split hi
  refine ⟨f, by rw [he]; simp, ?_⟩
  exact (h.file_key (by rw [he]; simp)).symm

end WellFormed

theorem dirIndex_lt {s : FilesystemData} {b : Bytes} {i : Nat} (hi : s.dirIndex b = some i) :
    i < s.theDirectories.elems.length := by
  obtain ⟨front, d, back, he, rfl, _⟩ := KeyedList.position_split hi
  rw [he]
  simp

def mgFile1 : AbsPath := ⟨⟨text "/mg_file_1", by decide⟩, by decide⟩
def mgDir1 : AbsPath := ⟨⟨text "/mg_dir_1", by decide⟩, by decide⟩

/-- A path in the directory that the constructor makes. -/
def mgDir1X : AbsPath := ⟨⟨text "/mg_dir_1/x", by decide⟩, by decide⟩

theorem filePaths_init (ctx : CallContext) : (init ctx).filePaths = [mgFile1.bytes] := by
  simp [init, filePaths, mgFile1]

theorem dirPaths_init (ctx : CallContext) : (init ctx).dirPaths = [mgDir1.bytes, AbsPath.root.bytes] := by
  simp only [init, dirPaths, dirRecords, StdVector.elems_pushBack, StdVector.elems_empty, mgDir1]
  rfl

theorem wellFormed_init (ctx : CallContext) : (init ctx).WellFormed := by
  have hdirs : PathTree [] [mgDir1.bytes, AbsPath.root.bytes] :=
    PathTree.root_only.addDirectory (by decide) (by decide)
  have h : PathTree [mgFile1.bytes] [mgDir1.bytes, AbsPath.root.bytes] :=
    hdirs.addFile (by decide) (by decide)
  rw [WellFormed, filePaths_init, dirPaths_init]
  exact h

end FilesystemData
end MGFileSystem
