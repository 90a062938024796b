import MGFileSystem.Ram.Catalogue

/-! Directory listings. The second loop of `list_files_in_dir` passes on the stored name of
every file, whatever directory is asked for. -/
namespace MGFileSystem
open FilesystemData

namespace FilesystemData
variable {s : FilesystemData}

/-- The names that the first loop passes to `filler`. -/
def directoryNames (s : FilesystemData) (d : SimpleDirectory) : List Bytes :=
  d.containedDirectories.filterMap fun a => s.heap[a]?.map fun x => cStr x.directoryFile.name

theorem run_mapM_directoryName {l : List Nat} (h : ∀ a ∈ l, a < s.heap.length) :
    (l.mapM directoryName).run s =
      .ok (l.filterMap fun a => s.heap[a]?.map fun x => cStr x.directoryFile.name) s := by
  induction l with
  | nil => rfl
  | cons a l ih =>
    obtain ⟨x, hx⟩ : ∃ x, s.heap[a]? = some x := ⟨_, List.getElem?_eq_getElem (h a List.mem_cons_self)⟩
    have hrun : (directoryName a).run s = .ok (cStr x.directoryFile.name) s := by
      simp [directoryName, hx]
    rw [List.mapM_cons, List.filterMap_cons, hx]
    simp only [EStateM.run_bind, hrun, ih fun b hb => h b (List.mem_cons_of_mem _ hb)]
    rfl

theorem run_directoryAt {i : Nat} {d : SimpleDirectory} (h : s.theDirectories.elems[i]? = some d) :
    (directoryAt i).run s = .ok d s := by
  simp [directoryAt, h]

namespace Catalogued
variable (h : s.Catalogued)
include h

theorem run_listFilesInDir {p : AbsPath} (hp : DirectoryAt s p) :
    ∃ d ∈ s.theDirectories.elems, d.directoryFile.path = p.bytes ∧
      (listFilesInDir p.toCString).run s = .ok (s.directoryNames d ++ s.fileNames) s := by
  obtain ⟨i, hi⟩ := hp.exists_slot
  obtain ⟨d, hd, hpath⟩ := h.wellFormed.dirIndex_path hi
  have hmem := List.mem_of_getElem? hd
  have hvalid : ∀ a ∈ d.containedDirectories, a < s.heap.length := fun a ha =>
    h.lt_of_mem (List.mem_map_of_mem hmem : d.entry ∈ s.entries) ha
  refine ⟨d, hmem, hpath, ?_⟩
  simp only [listFilesInDir, EStateM.run_bind, run_getIndexForDirname_absPath, hi, run_directoryAt hd,
    run_mapM_directoryName hvalid]
  rfl

theorem file_path {f : SimpleFile} (hf : f ∈ s.theFiles.elems) : ∃ p : AbsPath, p ≠ .root ∧ p.bytes = f.path := by
  have hmem : f.path ∈ s.filePaths := List.mem_map_of_mem hf
  obtain ⟨p, hp⟩ := h.wellFormed.normalised f.path (List.mem_append_left _ hmem)
  refine ⟨p, ?_, hp⟩
  rintro rfl
  exact h.wellFormed.disjoint (hp ▸ hmem) h.wellFormed.root

theorem file_name_nul_free {f : SimpleFile} (hf : f ∈ s.theFiles.elems) : 0 ∉ f.name := by
  have hfree : 0 ∉ f.path :=
    h.wellFormed.nul_free (List.mem_append_left _ (List.mem_map_of_mem hf))
  intro hm
  rcases h.file_names f hf with hn | hn <;> rw [hn] at hm <;> exact hfree (List.mem_of_mem_drop hm)

/-- A stored name is the last component unless a rename below a directory has put a longer path there. -/
theorem file_name_eq_base_iff {f : SimpleFile} (hf : f ∈ s.theFiles.elems) :
    f.name = baseBytes f.path ↔ slash ∉ f.name := by
  obtain ⟨p, hr, hp⟩ := h.file_path hf
  obtain ⟨d, n, he, hn, _⟩ := AbsPath.split hr
  rw [← hp, he, baseBytes_split hn]
  refine ⟨fun hname => hname ▸ hn, fun hname => ?_⟩
  rcases h.file_names f hf with hname' | hname'
  · rwa [← hp, he, baseBytes_split hn] at hname'
  · rw [← hp, he] at hname'
    cases d with
    | nil => exact hname'
    | cons b d => exact absurd (by rw [hname']; simp) hname

theorem fileNames_eq : s.fileNames = s.theFiles.elems.map (·.name) :=
  List.map_congr_left fun _ hf => cStr_of_nul_free (h.file_name_nul_free hf)

end Catalogued

theorem slash_notMem_baseBytes (b : Bytes) : slash ∉ baseBytes b := by
  by_cases hb : slash ∈ b
  · obtain ⟨d, n, rfl, hn⟩ := exists_last_split hb
    rwa [baseBytes_split hn]
  · exact fun hm => hb (List.mem_of_mem_drop hm)

/-- The last components of the files that lie directly in a directory. -/
def namesIn (s : FilesystemData) (p : AbsPath) : List Bytes :=
  (s.filePaths.filter fun b => parentBytes b = p.bytes).map baseBytes

/-- The second part of a listing shows the files of the directory exactly when there are no other
files, and none of them was renamed into a subdirectory. -/
theorem Catalogued.fileNames_perm_iff (h : s.Catalogued) (p : AbsPath) :
    s.fileNames.Perm (s.namesIn p) ↔
      ∀ f ∈ s.theFiles.elems, parentBytes f.path = p.bytes ∧ slash ∉ f.name := by
  rw [h.fileNames_eq, namesIn]
  constructor
  · intro hperm f hf
    have hlen := hperm.length_eq
    rw [List.length_map, List.length_map] at hlen
    have hall := List.length_filter_eq_length_iff.mp
      (show (s.filePaths.filter _).length = s.filePaths.length by rw [← hlen, filePaths, List.length_map])
    refine ⟨by simpa using hall f.path (List.mem_map_of_mem hf), ?_⟩
    obtain ⟨b, _, hb⟩ := List.mem_map.mp (hperm.subset (List.mem_map_of_mem hf))
    exact hb ▸ slash_notMem_baseBytes b
  · intro hall
    have hfilter : s.filePaths.filter (fun b => parentBytes b = p.bytes) = s.filePaths := by
      apply List.filter_eq_self.mpr
      intro b hb
      obtain ⟨f, hf, rfl⟩ := List.mem_map.mp hb
      simpa using (hall f hf).1
    rw [hfilter, filePaths, List.map_map]
    exact List.Perm.of_eq (List.map_congr_left fun f hf => (h.file_name_eq_base_iff hf).mpr (hall f hf).2)

end FilesystemData

/-- `mg_readdir` never fails on an existing directory, but the file names it lists are those of the
directory only where no file lies elsewhere and no stored name holds a slash. -/
theorem mgReaddir_lists_files_iff {s : FilesystemData} (h : ramSystem.Reachable s) {p : AbsPath}
    (hp : DirectoryAt s p) (ctx : CallContext) :
    ∃ d ∈ s.theDirectories.elems, d.directoryFile.path = p.bytes ∧
      (mgReaddir (filesystemData ctx) p.toCString).answer s = .ok (0, s.directoryNames d ++ s.fileNames) ∧
      (s.fileNames.Perm (s.namesIn p) ↔
        ∀ f ∈ s.theFiles.elems, parentBytes f.path = p.bytes ∧ slash ∉ f.name) := by
  have hc := catalogued_of_reachable h
  obtain ⟨d, hd, hpath, hlist⟩ := hc.run_listFilesInDir hp
  refine ⟨d, hd, hpath, ?_, hc.fileNames_perm_iff p⟩
  simp only [Method.answer, mgReaddir, filesystemData, EStateM.run_bind, hlist]
  rfl

theorem mgReaddir_lists_files_iff_root :
    ∃ d ∈ (init .plain).theDirectories.elems, d.directoryFile.path = AbsPath.root.bytes ∧
      (mgReaddir (filesystemData .plain) AbsPath.root.toCString).answer (init .plain) =
        .ok (0, (init .plain).directoryNames d ++ (init .plain).fileNames) ∧
      ((init .plain).fileNames.Perm ((init .plain).namesIn .root) ↔
        ∀ f ∈ (init .plain).theFiles.elems, parentBytes f.path = AbsPath.root.bytes ∧ slash ∉ f.name) :=
  have hp : DirectoryAt (init .plain) .root := rfl
  mgReaddir_lists_files_iff (.start ⟨.plain, rfl⟩) hp .plain

/-- The empty directory that the constructor makes lists the file of the root directory. -/
theorem mgReaddir_lists_foreign_file :
    ramSystem.Reachable (init .plain) ∧ DirectoryAt (init .plain) mgDir1 ∧
      (mgReaddir (filesystemData .plain) mgDir1.toCString).answer (init .plain) =
        .ok (0, [text "mg_file_1"]) ∧
      (init .plain).fileNames = [text "mg_file_1"] ∧ (init .plain).namesIn mgDir1 = [] ∧
      ¬ (init .plain).fileNames.Perm ((init .plain).namesIn mgDir1) :=
  ⟨.start ⟨.plain, rfl⟩, rfl, rfl, rfl, by decide, by decide⟩

end MGFileSystem
