import MGFileSystem.Ram.Catalogue

/-! The files that each directory points at. `create_file` adds a pointer to the last slot;
`remove_file` moves slots and `rename_file` moves files, and neither looks at the pointers. -/
namespace MGFileSystem
open FilesystemData

theorem getElem?_concat_eq_some {α : Type} {l : List α} {a x : α} {i : Nat} :
    (l ++ [a])[i]? = some x ↔ l[i]? = some x ∨ (i = l.length ∧ a = x) := by
  rcases Nat.lt_trichotomy i l.length with h | rfl | h
  · rw [List.getElem?_append_left h]
    exact ⟨.inl, fun hx => hx.resolve_right fun he => Nat.ne_of_lt h he.1⟩
  · simp
  · have hle : (l ++ [a]).length ≤ i := by rwa [List.length_append, List.length_singleton]
    rw [List.getElem?_eq_none hle, List.getElem?_eq_none (Nat.le_of_lt h)]
    simp [Nat.ne_of_gt h]

namespace FilesystemData
variable {s s' : FilesystemData} {ctx : CallContext} {d : SimpleDirectory}

/-- The directory in which the file of each slot lies. -/
def fileParents (s : FilesystemData) : List Bytes := s.theFiles.elems.map fun f => parentBytes f.path

/-- The pointers of a directory are valid, and designate without repetition exactly the slots of its files. -/
structure PointsAtFiles (s : FilesystemData) (d : SimpleDirectory) : Prop where
  valid : ∀ p ∈ d.containedFiles, p.storage = s.theFiles.storage
  nodup : d.containedFiles.Nodup
  slots : ∀ i, s.theFiles.ptr i ∈ d.containedFiles ↔ s.fileParents[i]? = some d.directoryFile.path

def Accurate (s : FilesystemData) : Prop := ∀ d ∈ s.theDirectories.elems, s.PointsAtFiles d

namespace PointsAtFiles
variable (h : s.PointsAtFiles d)
include h

theorem of_same (hst : s'.theFiles.storage = s.theFiles.storage) (hp : s'.fileParents = s.fileParents)
    {d' : SimpleDirectory} (hpath : d'.directoryFile.path = d.directoryFile.path)
    (hfiles : d'.containedFiles = d.containedFiles) : s'.PointsAtFiles d' where
  valid := by
    rw [hst, hfiles]
    exact h.valid
  nodup := hfiles ▸ h.nodup
  slots i := by
    rw [hfiles, hpath, hp, StdVector.ptr, hst]
    exact h.slots i

section Append
variable {b : Bytes} (hst : s'.theFiles.storage = s.theFiles.storage) (hp : s'.fileParents = s.fileParents ++ [b])
include hst hp

/-- A file made elsewhere. -/
theorem append_of_ne (hne : b ≠ d.directoryFile.path) : s'.PointsAtFiles d where
  valid := by
    rw [hst]
    exact h.valid
  nodup := h.nodup
  slots i := by
    rw [hp, getElem?_concat_eq_some, StdVector.ptr, hst]
    exact (h.slots i).trans ⟨.inl, fun hi => hi.resolve_right fun he => hne he.2⟩

/-- A file made in the directory, which gets a pointer to the new slot. -/
theorem append_of_eq (heq : b = d.directoryFile.path) :
    s'.PointsAtFiles (d.linkFile (s.theFiles.ptr s.fileParents.length)) where
  valid p hmem := by
    rw [hst]
    rcases List.mem_append.mp hmem with hmem | hmem
    · exact h.valid p hmem
    · obtain rfl := List.mem_singleton.mp hmem
      rfl
  nodup := by
    have hnew : s.theFiles.ptr s.fileParents.length ∉ d.containedFiles := by
      rw [h.slots, List.getElem?_eq_none (Nat.le_refl _)]
      exact fun hn => by cases hn
    refine List.nodup_append.mpr ⟨h.nodup, List.nodup_singleton _, fun p hmem q hq he => hnew ?_⟩
    rw [List.mem_singleton.mp hq] at he
    exact he ▸ hmem
  slots i := by
    rw [hp, getElem?_concat_eq_some, SimpleDirectory.directoryFile_linkFile, SimpleDirectory.linkFile,
      List.mem_append, StdVector.ptr, hst, List.mem_singleton]
    refine or_congr (h.slots i) ⟨fun he => ⟨?_, heq⟩, fun he => ?_⟩
    · exact congrArg ElementPtr.slot he
    · rw [he.1]
      rfl

end Append
end PointsAtFiles

theorem fileParents_eq (s : FilesystemData) : s.fileParents = s.filePaths.map parentBytes := by
  rw [fileParents, filePaths, List.map_map]
  rfl

/-- There is storage for one more file. -/
def FileRoom (s : FilesystemData) : Prop := s.theFiles.elems.length < s.theFiles.capacity

instance (s : FilesystemData) : Decidable s.FileRoom := inferInstanceAs (Decidable (_ < _))

theorem Accurate.addFile (h : s.WellFormed) (ha : s.Accurate) (hr : s.FileRoom) {p : AbsPath} {i : Nat}
    (hi : s.dirIndex p.parent.bytes = some i) (mode : UInt32) : (s.addFile ctx p mode i).Accurate := by
  have hst : (s.addFile ctx p mode i).theFiles.storage = s.theFiles.storage := StdVector.storage_pushBack_of_lt hr
  have hparents : (s.addFile ctx p mode i).fileParents = s.fileParents ++ [p.parent.bytes] := by
    rw [fileParents, files_addFile, List.map_append]
    rfl
  have hptr : (s.theFiles.pushBack ctx.growth (newFile ctx p.toCString mode)).backPtr =
      s.theFiles.ptr s.fileParents.length := by
    rw [StdVector.backPtr, StdVector.ptr, StdVector.storage_pushBack_of_lt hr, StdVector.elems_pushBack]
    simp [StdVector.ptr, fileParents]
  obtain ⟨a, hslot, hpath⟩ := h.dirIndex_path hi
  intro d hd
  rw [FilesystemData.addFile, StdVector.elems_modify] at hd
  rcases StdVector.slot_of_mem_modify hslot hd with rfl | ⟨j, hij, hj⟩
  · rw [hptr]
    exact (ha a (List.mem_of_getElem? hslot)).append_of_eq hst hparents hpath.symm
  · refine (ha d (List.mem_of_getElem? hj)).append_of_ne hst hparents fun heq => hij ?_
    exact h.directory_slot hslot hj (hpath.trans heq)

theorem WellFormed.exists_parent (h : s.WellFormed) {i : Nat} {b : Bytes} (hb : s.fileParents[i]? = some b) :
    ∃ d ∈ s.theDirectories.elems, d.directoryFile.path = b := by
  rw [fileParents_eq, List.getElem?_map] at hb
  obtain ⟨c, hc, rfl⟩ := Option.map_eq_some_iff.mp hb
  have hmem := List.mem_append_left s.dirPaths (List.mem_of_getElem? hc)
  obtain ⟨p, rfl⟩ := h.normalised c hmem
  have hdir := h.closed p hmem
  rw [dirPaths, dirRecords, List.map_map] at hdir
  exact List.mem_map.mp hdir

/-- When a file goes, the pointer to the last slot stays behind and points past the end. -/
theorem Accurate.not_of_fewer (h : s.WellFormed) (ha : s.Accurate)
    (hdirs : s'.theDirectories = s.theDirectories) (hst : s'.theFiles.storage = s.theFiles.storage)
    (hlen : s'.fileParents.length < s.fileParents.length) : ¬ s'.Accurate := by
  intro ha'
  obtain ⟨b, hb⟩ : ∃ b, s.fileParents[s.fileParents.length - 1]? = some b :=
    ⟨_, List.getElem?_eq_getElem (by omega)⟩
  obtain ⟨d, hd, rfl⟩ := h.exists_parent hb
  have hmem := ((ha d hd).slots _).mpr hb
  rw [StdVector.ptr, ← hst] at hmem
  have hb' := ((ha' d (hdirs ▸ hd)).slots _).mp hmem
  have hlt := (List.getElem?_eq_some_iff.mp hb').1
  omega

/-- A renamed file keeps its slot, which the pointers of its former directory still designate. -/
theorem Accurate.assign_iff (h : s.WellFormed) (ha : s.Accurate) {i : Nat} {f : SimpleFile → SimpleFile}
    {a : SimpleFile} (hi : s.theFiles.elems[i]? = some a) :
    (s.assign i f).Accurate ↔ parentBytes (f a).path = parentBytes a.path := by
  have hslot : (s.assign i f).fileParents[i]? = some (parentBytes (f a).path) := by
    rw [fileParents, List.getElem?_map, files_assign_same hi]
    rfl
  have hbefore : s.fileParents[i]? = some (parentBytes a.path) := by
    rw [fileParents, List.getElem?_map, hi]
    rfl
  constructor
  · intro ha'
    obtain ⟨d, hd, hpath⟩ := h.exists_parent hbefore
    have hmem := ((ha d hd).slots i).mpr (hpath ▸ hbefore)
    have hnow := ((ha' d hd).slots i).mp hmem
    rw [hslot, hpath] at hnow
    exact Option.some.inj hnow
  · intro hsame d hd
    have hparents : (s.assign i f).fileParents = s.fileParents := by
      apply List.ext_getElem?
      intro j
      by_cases hij : i = j
      · subst hij
        rw [hslot, hbefore, hsame]
      · rw [fileParents, fileParents, List.getElem?_map, List.getElem?_map, files_assign_other hij]
    have hst : (s.assign i f).theFiles.storage = s.theFiles.storage := rfl
    exact (ha d hd).of_same hst hparents rfl rfl

theorem Accurate.addDirectory (h : s.WellFormed) (ha : s.Accurate) {p : AbsPath}
    (hp : p.bytes ∉ s.filePaths ++ s.dirPaths) (i : Nat) : (s.addDirectory ctx p i).Accurate := by
  have hst : (s.addDirectory ctx p i).theFiles.storage = s.theFiles.storage := rfl
  have hparents : (s.addDirectory ctx p i).fileParents = s.fileParents := rfl
  have hnew : s.PointsAtFiles (newDirectory ctx p.toCString (some (s.theDirectories.ptr i))) := by
    refine ⟨fun q hq => absurd hq List.not_mem_nil, List.nodup_nil, fun j => ?_⟩
    refine iff_of_false List.not_mem_nil fun hj => hp ?_
    obtain ⟨d, hd, hpath⟩ := h.exists_parent hj
    have hmem : d.directoryFile.path ∈ s.dirPaths := List.mem_map_of_mem (List.mem_map_of_mem hd)
    rw [hpath] at hmem
    exact List.mem_append_right _ hmem
  intro d hd
  -- Linking the new directory changes no path and no pointer to a file.
  have hmap := StdVector.map_modifyAt (g := fun d : SimpleDirectory => (d.directoryFile.path, d.containedFiles))
    (f := SimpleDirectory.linkDirectory s.heap.length) (fun _ => rfl)
    (s.theDirectories.pushBack ctx.growth (newDirectory ctx p.toCString (some (s.theDirectories.ptr i))))
    (s.theDirectories.ptr i)
  have hmem := List.mem_map_of_mem (f := fun d : SimpleDirectory => (d.directoryFile.path, d.containedFiles)) hd
  rw [FilesystemData.addDirectory, hmap, StdVector.elems_pushBack] at hmem
  obtain ⟨d', hd', he⟩ := List.mem_map.mp hmem
  obtain ⟨hpath, hfiles⟩ := Prod.mk.inj he
  rcases List.mem_append.mp hd' with hd' | hd'
  · exact (ha d' hd').of_same hst hparents hpath.symm hfiles.symm
  · obtain rfl := List.mem_singleton.mp hd'
    exact hnew.of_same hst hparents hpath.symm hfiles.symm

theorem storage_dropFile (b : Bytes) : (s.dropFile b).theFiles.storage = s.theFiles.storage := by
  unfold dropFile
  split <;> rfl

theorem WellFormed.length_dropFile (h : s.WellFormed) {b : Bytes} (hb : b ∈ s.filePaths) :
    (s.dropFile b).fileParents.length < s.fileParents.length := by
  have hpos := List.length_pos_of_mem hb
  rw [fileParents_eq, fileParents_eq, List.length_map, List.length_map, filePaths_dropFile h,
    List.length_erase_of_mem hb]
  omega

/-- A call that makes a file finds room for it in the vector of files. -/
def FindsFileRoom (s : FilesystemData) (c : Call) : Prop := ∀ p mode, c.operation = .create p mode → s.FileRoom

/-- The call removes no file and moves none to another directory. -/
def KeepsSlots (s : FilesystemData) (c : Call) : Prop :=
  match c.operation with
  | .unlink _ => False
  | .rename p q => ¬ FileAt s q ∧ q.parent = p.parent
  | _ => True

theorem accurate_step (h : s.WellFormed) (ha : s.Accurate) {op : Operation} (hr : s.FindsFileRoom ⟨ctx, op⟩)
    (ht : Transition ctx s op s') : s'.Accurate ↔ s.KeepsSlots ⟨ctx, op⟩ := by
  cases ht with
  | @create p mode i fresh parent => exact iff_of_true (ha.addFile h (hr p mode rfl) parent mode) trivial
  | @mkdir p mode i fresh parent => exact iff_of_true (ha.addDirectory h fresh i) trivial
  | unlink found =>
    exact iff_of_false (ha.not_of_fewer h (directories_dropFile _) (storage_dropFile _) (h.length_dropFile found)) id
  | @rename p q i found ne free parent slot =>
    by_cases hq : q.bytes ∈ s.filePaths
    · -- The file that `q` named is gone.
      have hlen : ((s.dropFile q.bytes).assign i (moveTo q.toCString)).fileParents.length =
          (s.dropFile q.bytes).fileParents.length := by
        simp [fileParents, assign]
      refine iff_of_false (ha.not_of_fewer h (directories_dropFile q.bytes) (storage_dropFile q.bytes) ?_)
        fun hkeeps => hkeeps.1 (h.fileAt_iff.mpr hq)
      rw [hlen]
      exact h.length_dropFile hq
    · have hmissing : s.fileIndex q.bytes = none :=
        Option.not_isSome_iff_eq_none.mp fun hsome => hq (h.fileIndex_isSome.mp hsome)
      rw [dropFile_missing hmissing] at slot ⊢
      obtain ⟨a, hslot, hpath⟩ := h.fileIndex_path slot
      rw [ha.assign_iff h hslot, hpath]
      refine Iff.trans ?_ (and_iff_right fun hf => hq (h.fileAt_iff.mp hf)).symm
      exact AbsPath.bytes_injective (p := q.parent) (q := p.parent)
  | @edit op p f i assigns slot =>
    obtain ⟨a, hslot, -⟩ := h.fileIndex_path slot
    refine iff_of_true ((ha.assign_iff h hslot).mpr ?_) ?_
    · rw [(Operation.edit_keeps_names assigns a).1]
    · cases op <;> first | exact trivial | cases assigns

theorem accurate_init (ctx : CallContext) : (init ctx).Accurate := by
  have hparents : (init ctx).fileParents = [text "/"] := by
    rw [fileParents_eq, filePaths_init]
    rfl
  intro d hd
  simp only [init, StdVector.elems_pushBack, StdVector.elems_empty, List.nil_append, List.mem_append,
    List.mem_singleton] at hd
  rcases hd with rfl | rfl
  · refine ⟨fun p hp => absurd hp List.not_mem_nil, List.nodup_nil, fun i => ?_⟩
    refine iff_of_false List.not_mem_nil fun hi => ?_
    rw [hparents] at hi
    have hne : text "/mg_dir_1" ≠ text "/" := by decide
    exact hne (List.mem_singleton.mp (List.mem_of_getElem? hi))
  · refine ⟨fun p hp => ?_, List.nodup_singleton _, fun i => ?_⟩
    · obtain rfl := List.mem_singleton.mp hp
      rfl
    · rw [hparents, List.mem_singleton]
      cases i with
      | zero => exact iff_of_true rfl rfl
      | succ i => exact iff_of_false (fun he => by cases congrArg ElementPtr.slot he) (fun he => by cases he)

end FilesystemData

/-- Where no file that is made finds the vector of files full, a guarded run from the constructor's state succeeds, and
in every state it goes through the directories point at their files exactly when no file is removed and every rename
goes to an unused path in the same directory. -/
theorem contained_files_accurate_iff (ctx : CallContext) {calls : List Call}
    (hg : ramSystem.Along ramSystem.guard calls (init ctx))
    (hroom : ramSystem.Along FindsFileRoom calls (init ctx)) :
    (∃ s, ramSystem.exec calls (init ctx) = some s) ∧
      (ramSystem.Always Accurate calls (init ctx) ↔ ramSystem.Along KeepsSlots calls (init ctx)) := by
  refine guarded_run_iff (fun _ hc => hc) (fun s c s' hc ha hr ht => ?_) (catalogued_init ctx) (accurate_init ctx) hg
    hroom
  exact ⟨hc.step ht, accurate_step hc.wellFormed ha hr ht⟩

theorem contained_files_accurate_iff_create :
    ramSystem.Always Accurate [⟨.roomy, .create notes 0o644⟩] (init .roomy) := by
  have hw := wellFormed_init .roomy
  have hg : ramSystem.Along ramSystem.guard [⟨.roomy, .create notes 0o644⟩] (init .roomy) :=
    ⟨⟨hw.absent_iff.mpr (by decide), hw.directoryAt_iff.mpr (by decide)⟩, fun _ _ => trivial⟩
  have hroom : ramSystem.Along FindsFileRoom [⟨.roomy, .create notes 0o644⟩] (init .roomy) :=
    ⟨fun _ _ _ => by decide, fun _ _ => trivial⟩
  exact (contained_files_accurate_iff .roomy hg hroom).2.mpr ⟨trivial, fun _ _ => trivial⟩

/-- Without the constructor's file the root directory still points at its slot. -/
theorem unlink_leaves_pointer :
    ramSystem.Along ramSystem.guard [⟨.roomy, .unlink mgFile1⟩] (init .roomy) ∧
      ∃ s, ramSystem.exec [⟨.roomy, .unlink mgFile1⟩] (init .roomy) = some s ∧ s.theFiles.elems = [] ∧
        (∃ d ∈ s.theDirectories.elems, d.containedFiles = [s.theFiles.ptr 0]) ∧ ¬ s.Accurate := by
  have hguard : ramSystem.guard (init .roomy) ⟨.roomy, .unlink mgFile1⟩ :=
    (wellFormed_init .roomy).fileAt_iff.mpr (by decide)
  refine ⟨⟨hguard, fun _ _ => trivial⟩, _, rfl, rfl, ⟨_, List.mem_of_getElem? (show _[1]? = some _ from rfl), rfl⟩,
    fun h => ?_⟩
  have hslot := ((h _ (List.mem_of_getElem? (show _[1]? = some _ from rfl))).slots 0).mp List.mem_cons_self
  cases hslot

end MGFileSystem
