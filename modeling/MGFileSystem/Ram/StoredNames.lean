import MGFileSystem.Ram.Listings

/-! The name stored beside each path. `create_file` and `create_directory` take the last
component, `rename_file` drops the first character of the whole path. -/
namespace MGFileSystem
open FilesystemData

namespace FilesystemData
variable {s s' : FilesystemData} {ctx : CallContext}

/-- Every stored name but that of the root is the last component of its path. -/
structure NamesKept (s : FilesystemData) : Prop where
  files : ∀ f ∈ s.theFiles.elems, f.name = getFilenameFromPath f.path
  directories : ∀ r ∈ s.dirRecords, r.path ≠ text "/" → r.name = getFilenameFromPath r.path

/-- No stored name but that of the root has a slash, and neither has a name that a listing passes to `filler`. -/
structure NamesLegal (s : FilesystemData) : Prop where
  files : ∀ f ∈ s.theFiles.elems, slash ∉ f.name
  directories : ∀ r ∈ s.dirRecords, r.path ≠ text "/" → slash ∉ r.name
  listed : ∀ p : AbsPath, DirectoryAt s p →
    ∃ names, (listFilesInDir p.toCString).answer s = .ok names ∧ ∀ n ∈ names, slash ∉ n

theorem slash_notMem_getFilenameFromPath (b : Bytes) : slash ∉ getFilenameFromPath b := slash_notMem_baseBytes b

theorem Catalogued.namesLegal (h : s.Catalogued) (hn : s.NamesKept) : s.NamesLegal where
  files f hf := by
    rw [hn.files f hf]
    exact slash_notMem_getFilenameFromPath _
  directories r hr hroot := by
    rw [hn.directories r hr hroot]
    exact slash_notMem_getFilenameFromPath _
  listed p hp := by
    obtain ⟨d, hd, -, hlist⟩ := h.run_listFilesInDir hp
    refine ⟨s.directoryNames d ++ s.fileNames, by simp only [Method.answer, hlist], fun n hmem => ?_⟩
    rcases List.mem_append.mp hmem with hmem | hmem
    · obtain ⟨a, -, ha⟩ := List.mem_filterMap.mp hmem
      obtain ⟨x, hx, rfl⟩ := Option.map_eq_some_iff.mp ha
      rw [h.heap_names x (List.mem_of_getElem? hx)]
      exact fun hs => slash_notMem_baseBytes _ ((List.takeWhile_sublist _).subset hs)
    · rw [h.fileNames_eq] at hmem
      obtain ⟨f, hf, rfl⟩ := List.mem_map.mp hmem
      rw [hn.files f hf]
      exact slash_notMem_getFilenameFromPath _

/-- Without its first character a path is its last component just for the children of the root. -/
theorem drop_one_eq_base_iff {q : AbsPath} (h : q ≠ .root) :
    q.bytes.drop 1 = getFilenameFromPath q.bytes ↔ q.parent = .root := by
  obtain ⟨d, n, he, hn, -, hbase, hparent, hd⟩ := AbsPath.split h
  have hname : getFilenameFromPath q.bytes = n := hbase
  rw [hname, he, ← AbsPath.bytes_injective, hparent]
  cases d with
  | nil => exact iff_of_true rfl rfl
  | cons b d =>
    refine iff_of_false (fun heq => ?_) (fun heq => ?_)
    · have hlength := congrArg List.length heq
      rw [List.cons_append, List.drop_succ_cons, List.drop_zero, List.length_append, List.length_cons] at hlength
      omega
    · rw [if_neg (List.cons_ne_nil b d)] at heq
      exact (hd.resolve_left (List.cons_ne_nil b d)).2 heq

/-- A rename goes to a child of the root. -/
def RenamesToTop (_ : FilesystemData) (c : Call) : Prop := ∀ p q, c.operation = .rename p q → q.parent = .root

theorem NamesKept.dropFile (h : s.NamesKept) (b : Bytes) : (s.dropFile b).NamesKept := by
  refine ⟨fun f hf => h.files f (mem_files_of_dropFile hf), ?_⟩
  rw [dirRecords_dropFile]
  exact h.directories

/-- An assignment to a file keeps the names exactly when what it makes of that file does. -/
theorem NamesKept.assign_iff (h : s.NamesKept) {i : Nat} {f : SimpleFile → SimpleFile} {a : SimpleFile}
    (ha : s.theFiles.elems[i]? = some a) :
    (s.assign i f).NamesKept ↔ (f a).name = getFilenameFromPath (f a).path := by
  constructor
  · exact fun hkept => hkept.files _ (List.mem_of_getElem? (files_assign_same ha))
  · intro hname
    refine ⟨fun g hg => ?_, h.directories⟩
    rcases mem_files_of_assign ha hg with rfl | hg
    · exact hname
    · exact h.files g hg

/-- A guarded operation keeps the names exactly when it is no rename into a subdirectory. -/
theorem namesKept_step (h : s.WellFormed) (hn : s.NamesKept) {op : Operation} (ht : Transition ctx s op s') :
    s'.NamesKept ↔ RenamesToTop s ⟨ctx, op⟩ := by
  cases ht with
  | @create p mode i fresh parent =>
    refine iff_of_true ⟨fun f hf => ?_, ?_⟩ (fun p q he => by cases he)
    · rw [files_addFile] at hf
      rcases List.mem_append.mp hf with hf | hf
      · exact hn.files f hf
      · obtain rfl := List.mem_singleton.mp hf
        rfl
    · rw [dirRecords_addFile]
      exact hn.directories
  | @mkdir p mode i fresh parent =>
    refine iff_of_true ⟨hn.files, fun r hr hroot => ?_⟩ (fun p q he => by cases he)
    rw [dirRecords_addDirectory] at hr
    rcases List.mem_append.mp hr with hr | hr
    · exact hn.directories r hr hroot
    · obtain rfl := List.mem_singleton.mp hr
      rfl
  | unlink => exact iff_of_true (hn.dropFile _) (fun p q he => by cases he)
  | @rename p q i found ne free parent slot =>
    obtain ⟨a, ha, -⟩ := KeyedList.getElem?_position slot
    have hroot : q ≠ .root := by
      rintro rfl
      exact free h.root
    rw [(hn.dropFile q.bytes).assign_iff ha]
    refine (drop_one_eq_base_iff hroot).trans ⟨fun hq p' q' he => ?_, fun hq => hq p q rfl⟩
    cases he
    exact hq
  | @edit op p f i assigns slot =>
    obtain ⟨a, ha, -⟩ := KeyedList.getElem?_position slot
    obtain ⟨hpath, hname⟩ := Operation.edit_keeps_names assigns a
    refine iff_of_true ((hn.assign_iff ha).mpr ?_) (fun p' q' he => ?_)
    · rw [hpath, hname]
      exact hn.files a (List.mem_of_getElem? ha)
    · subst he
      cases assigns

theorem namesKept_init (ctx : CallContext) : (init ctx).NamesKept := by
  constructor
  · intro f hf
    obtain rfl := List.mem_singleton.mp hf
    rfl
  · intro r hr hroot
    simp only [dirRecords, init, StdVector.elems_pushBack, StdVector.elems_empty, List.nil_append, List.map_append,
      List.map_cons, List.map_nil, List.mem_append, List.mem_singleton] at hr
    rcases hr with rfl | rfl
    · rfl
    · exact absurd rfl hroot

end FilesystemData

/-- A guarded run from the constructor's state succeeds, and every state it goes through has the last component of each
path as its name, and no slash in any name, exactly when every rename goes to a child of the root. -/
theorem stored_names_kept_iff (ctx : CallContext) {calls : List Call}
    (hg : ramSystem.Along ramSystem.guard calls (init ctx)) :
    (∃ s, ramSystem.exec calls (init ctx) = some s) ∧
      (ramSystem.Always (fun s => s.NamesKept ∧ s.NamesLegal) calls (init ctx) ↔
        ramSystem.Along RenamesToTop calls (init ctx)) := by
  have hinit := catalogued_init ctx
  refine guarded_run_iff (fun _ hc => hc) (fun s c s' hc hn _ ht => ?_) hinit
    ⟨namesKept_init ctx, hinit.namesLegal (namesKept_init ctx)⟩ hg hg
  have hc' := hc.step ht
  refine ⟨hc', ?_⟩
  rw [and_iff_left_of_imp hc'.namesLegal]
  exact namesKept_step hc.wellFormed hn.1 ht

private theorem guarded_rename {q : AbsPath} (hne : mgFile1 ≠ q) (hfree : q.bytes ∉ (init .plain).dirPaths)
    (hparent : q.parent.bytes ∈ (init .plain).dirPaths) :
    ramSystem.Along ramSystem.guard [⟨.plain, .rename mgFile1 q⟩] (init .plain) := by
  have hw := wellFormed_init .plain
  refine ⟨⟨hw.fileAt_iff.mpr (by decide), hne, fun hd => hfree (hw.directoryAt_iff.mp hd),
    hw.directoryAt_iff.mpr hparent⟩, fun _ _ => trivial⟩

theorem stored_names_kept_iff_rename :
    ramSystem.Always (fun s => s.NamesKept ∧ s.NamesLegal) [⟨.plain, .rename mgFile1 notes⟩] (init .plain) := by
  refine (stored_names_kept_iff .plain (guarded_rename (q := notes) (by decide) (by decide) (by decide))).2.mpr
    ⟨fun p q he => ?_, fun _ _ => trivial⟩
  cases he
  decide

/-- Renaming the constructor's file into its directory stores the name "mg_dir_1/x", which the root directory lists. -/
theorem rename_stores_slash :
    ramSystem.Along ramSystem.guard [⟨.plain, .rename mgFile1 mgDir1X⟩] (init .plain) ∧
      ∃ s, ramSystem.exec [⟨.plain, .rename mgFile1 mgDir1X⟩] (init .plain) = some s ∧
        (listFilesInDir AbsPath.root.toCString).answer s = .ok [text "mg_dir_1", text "mg_dir_1/x"] ∧
        ¬ (s.NamesKept ∧ s.NamesLegal) := by
  refine ⟨guarded_rename (by decide) (by decide) (by decide), _, rfl, rfl, fun h => ?_⟩
  have hname := h.1.files _ (List.mem_of_getElem? (show _[0]? = some _ from rfl))
  exact absurd hname (by decide)

end MGFileSystem
