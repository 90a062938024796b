import MGFileSystem.Ram.ContainedDirectories

/-! The two copies of a directory. The object made with `new` is never written again, while
the copy in `_the_directories` gets what is made in the directory later. -/
namespace MGFileSystem
open FilesystemData

namespace FilesystemData
variable {s s' : FilesystemData} {ctx : CallContext}

/-- The two copies of a directory hold the same. -/
structure SameDirectory (x e : SimpleDirectory) : Prop where
  record : x.directoryFile = e.directoryFile
  directories : x.containedDirectories = e.containedDirectories
  files : x.containedFiles = e.containedFiles

/-- Every directory that an entry points at agrees with the entry of its path. -/
def CopiesAgree (s : FilesystemData) : Prop :=
  ∀ d ∈ s.theDirectories.elems, ∀ a ∈ d.containedDirectories, ∃ x, s.heap[a]? = some x ∧
    ∃ e ∈ s.theDirectories.elems, e.directoryFile.path = x.directoryFile.path ∧ SameDirectory x e

/-- The paths met by following `_contained_directories` from the object at an address, to a depth. -/
def walk (s : FilesystemData) : Nat → Nat → List Bytes
  | 0, _ => []
  | depth + 1, a =>
    match s.heap[a]? with
    | some x => x.directoryFile.path :: x.containedDirectories.flatMap (walk s depth)
    | none => []

/-- The walk from the root meets every directory once. -/
def VisitsAll (s : FilesystemData) : Prop :=
  ∃ d ∈ s.theDirectories.elems, d.directoryFile.path = text "/" ∧
    ∃ enough, ∀ depth ≥ enough, (text "/" :: d.containedDirectories.flatMap (s.walk depth)).Perm s.dirPaths

/-- What the copies have in common, whatever was made in the directories. -/
structure Mirrored (s : FilesystemData) : Prop where
  catalogued : s.Catalogued
  linked : s.AllLinked
  bare : ∀ x ∈ s.heap, x.containedDirectories = [] ∧ x.containedFiles = []
  records : ∀ x ∈ s.heap, x.directoryFile ∈ s.dirRecords

/-- Nothing was made in a directory other than the root. -/
def OnlyRootFilled (l : List SimpleDirectory) : Prop :=
  ∀ d ∈ l, d.directoryFile.path ≠ text "/" → d.containedDirectories = [] ∧ d.containedFiles = []

/-- Something put into one directory. -/
theorem onlyRootFilled_modify {l : List SimpleDirectory} (h : OnlyRootFilled l) {i : Nat} {d : SimpleDirectory}
    (hd : l[i]? = some d) {f : SimpleDirectory → SimpleDirectory} (hf : ∀ x, (f x).directoryFile = x.directoryFile)
    (hfill : (f d).containedDirectories ≠ [] ∨ (f d).containedFiles ≠ []) :
    OnlyRootFilled (l.modify i f) ↔ d.directoryFile.path = text "/" := by
  have hslot : (l.modify i f)[i]? = some (f d) := by
    rw [List.getElem?_modify_eq, hd]
    rfl
  constructor
  · intro h'
    by_contra hpath
    have hempty := h' _ (List.mem_of_getElem? hslot) (by rwa [hf])
    exact hfill.elim (absurd hempty.1) (absurd hempty.2)
  · intro hroot x hx hpath
    rcases StdVector.slot_of_mem_modify hd hx with rfl | ⟨j, -, hj⟩
    · rw [hf] at hpath
      exact absurd hroot hpath
    · exact h x (List.mem_of_getElem? hj) hpath

theorem WellFormed.directory_unique (h : s.WellFormed) {d e : SimpleDirectory} (hd : d ∈ s.theDirectories.elems)
    (he : e ∈ s.theDirectories.elems) (hpath : d.directoryFile.path = e.directoryFile.path) : d = e := by
  obtain ⟨i, hi⟩ := List.mem_iff_getElem?.mp hd
  obtain ⟨j, hj⟩ := List.mem_iff_getElem?.mp he
  obtain rfl := h.directory_slot hi hj hpath
  exact Option.some.inj (hi.symm.trans hj)

namespace Mirrored
variable (h : s.Mirrored)
include h

theorem path_ne_root {x : SimpleDirectory} (hx : x ∈ s.heap) : x.directoryFile.path ≠ text "/" := by
  have hnodup := h.catalogued.copies.nodup_iff.mp h.catalogued.wellFormed.dirPaths_nodup
  intro he
  have hmem : x.directoryFile.path ∈ s.heapPaths := List.mem_map_of_mem hx
  rw [he] at hmem
  exact (List.nodup_cons.mp hnodup).1 hmem

/-- A directory other than the root is an object that the entry of its parent points at. -/
theorem exists_link {b : Bytes} (hb : b ∈ s.dirPaths) (hr : b ≠ text "/") :
    ∃ a x, s.heap[a]? = some x ∧ x.directoryFile.path = b ∧
      ∃ d ∈ s.theDirectories.elems, a ∈ d.containedDirectories ∧ parentBytes b = d.directoryFile.path := by
  have hheap : b ∈ s.heapPaths := (List.mem_cons.mp (h.catalogued.copies.mem_iff.mp hb)).resolve_left hr
  obtain ⟨a, ha⟩ := List.mem_iff_getElem?.mp hheap
  obtain ⟨x, hx, hpath⟩ : ∃ x, s.heap[a]? = some x ∧ x.directoryFile.path = b := by
    rw [heapPaths, List.getElem?_map] at ha
    exact Option.map_eq_some_iff.mp ha
  obtain ⟨e, he, hmem⟩ := h.linked a (List.getElem?_eq_some_iff.mp hx).1
  obtain ⟨b', hb', hparent⟩ := (h.catalogued.links e he).2 a hmem
  obtain rfl : b = b' := Option.some.inj (ha.symm.trans hb')
  obtain ⟨d, hd, rfl⟩ := List.mem_map.mp he
  exact ⟨a, x, hx, hpath, d, hd, hmem, hparent⟩

/-- As the objects stay empty, the copies agree exactly if the entries are as empty. -/
theorem copiesAgree_iff : s.CopiesAgree ↔ OnlyRootFilled s.theDirectories.elems := by
  constructor
  · intro hagree d hd hr
    obtain ⟨a, x, hx, hpath, d', hd', ha, -⟩ := h.exists_link (List.mem_map_of_mem (List.mem_map_of_mem hd)) hr
    obtain ⟨y, hy, e, he, hpath', hsame⟩ := hagree d' hd' a ha
    obtain rfl : x = y := Option.some.inj (hx.symm.trans hy)
    obtain rfl := h.catalogued.wellFormed.directory_unique hd he (hpath.symm.trans hpath'.symm)
    obtain ⟨hdirs, hfiles⟩ := h.bare x (List.mem_of_getElem? hx)
    exact ⟨hsame.directories.symm.trans hdirs, hsame.files.symm.trans hfiles⟩
  · intro honly d hd a ha
    have hlt : a < s.heap.length := h.catalogued.lt_of_mem (List.mem_map_of_mem hd : d.entry ∈ s.entries) ha
    have hx := List.getElem_mem hlt
    obtain ⟨e, he, hrecord⟩ := List.mem_map.mp (h.records _ hx)
    obtain ⟨hdirs, hfiles⟩ := h.bare _ hx
    obtain ⟨hdirs', hfiles'⟩ := honly e he (by rw [hrecord]; exact h.path_ne_root hx)
    exact ⟨_, List.getElem?_eq_getElem hlt, e, he, congrArg SimpleFile.path hrecord, hrecord.symm,
      hdirs.trans hdirs'.symm, hfiles.trans hfiles'.symm⟩

theorem walk_succ (depth : Nat) (a : Nat) : s.walk (depth + 1) a = (s.heapPaths[a]?).toList := by
  rw [walk, heapPaths, List.getElem?_map]
  cases hx : s.heap[a]? with
  | none => rfl
  | some x =>
    dsimp only
    rw [(h.bare x (List.mem_of_getElem? hx)).1]
    rfl

/-- Then every directory but the root lies in the root, as the entry that points at it is not empty. -/
theorem subdirectories_root (honly : OnlyRootFilled s.theDirectories.elems) :
    s.subdirectories (text "/") = s.dirPaths.erase (text "/") := by
  rw [h.catalogued.wellFormed.dirPaths_nodup.erase_eq_filter, subdirectories]
  apply List.filter_congr
  intro b hb
  by_cases hr : b = text "/"
  · subst hr
    rfl
  · obtain ⟨a, x, -, -, d, hd, ha, hparent⟩ := h.exists_link hb hr
    have hroot : d.directoryFile.path = text "/" := by
      by_contra hne
      rw [(honly d hd hne).1] at ha
      cases ha
    have hin : parentBytes b = text "/" := hparent.trans hroot
    have hr' : b ≠ AbsPath.root.bytes := hr
    simp [hin, hr, hr']

/-- The pointers of the root then lead to all of them. -/
theorem visitsAll (honly : OnlyRootFilled s.theDirectories.elems) : s.VisitsAll := by
  have hroot := h.catalogued.wellFormed.root
  obtain ⟨d, hd, hpath⟩ : ∃ d ∈ s.theDirectories.elems, d.directoryFile.path = text "/" := by
    rw [dirPaths, dirRecords, List.map_map] at hroot
    exact List.mem_map.mp hroot
  have hperm := (h.catalogued.perm_of_allLinked h.linked hd).flatMap_right Option.toList
  refine ⟨d, hd, hpath, 1, fun depth hdepth => ?_⟩
  obtain ⟨n, rfl⟩ : ∃ n, depth = n + 1 := ⟨depth - 1, by omega⟩
  have hwalk : s.walk (n + 1) = fun a => (s.heapPaths[a]?).toList := funext fun a => h.walk_succ n a
  have hsingle : ((s.dirPaths.erase (text "/")).flatMap fun b => (some b).toList) = s.dirPaths.erase (text "/") :=
    List.flatMap_singleton' _
  rw [hpath, List.flatMap_map, List.flatMap_map, h.subdirectories_root honly, ← hwalk, hsingle] at hperm
  exact (hperm.cons _).trans (List.perm_cons_erase hroot).symm

theorem agree_and_visited_iff : s.CopiesAgree ∧ s.VisitsAll ↔ OnlyRootFilled s.theDirectories.elems :=
  ⟨fun hp => h.copiesAgree_iff.mp hp.1, fun honly => ⟨h.copiesAgree_iff.mpr honly, h.visitsAll honly⟩⟩

end Mirrored

/-- Steps that leave the records of the directories and the objects alone. -/
theorem Mirrored.of_same (h : s.Mirrored) (hc : s'.Catalogued) (hl : s'.AllLinked) (hh : s'.heap = s.heap)
    (hr : s'.dirRecords = s.dirRecords) : s'.Mirrored where
  catalogued := hc
  linked := hl
  bare := hh ▸ h.bare
  records := by
    rw [hh, hr]
    exact h.records

theorem Mirrored.step (h : s.Mirrored) {op : Operation} (hr : s.FindsRoom ⟨ctx, op⟩)
    (ht : Transition ctx s op s') : s'.Mirrored := by
  have hc := h.catalogued.step ht
  have hl := (allLinked_step h.catalogued ht).mpr ⟨h.linked, hr⟩
  cases ht with
  | create => exact h.of_same hc hl rfl (dirRecords_addFile _ _ _)
  | @mkdir p mode i fresh parent =>
    refine ⟨hc, hl, fun x hx => ?_, fun x hx => ?_⟩
    · rcases List.mem_append.mp hx with hx | hx
      · exact h.bare x hx
      · obtain rfl := List.mem_singleton.mp hx
        exact ⟨rfl, rfl⟩
    · rw [dirRecords_addDirectory]
      rcases List.mem_append.mp hx with hx | hx
      · exact List.mem_append_left _ (h.records x hx)
      · obtain rfl := List.mem_singleton.mp hx
        exact List.mem_append_right _ (List.mem_singleton_self _)
  | unlink => exact h.of_same hc hl (entries_dropFile _).2 (dirRecords_dropFile _)
  | rename => exact h.of_same hc hl (entries_dropFile _).2 (dirRecords_dropFile _)
  | edit => exact h.of_same hc hl rfl rfl

/-- The call makes nothing in a directory other than the root. -/
def MadeAtTop (_ : FilesystemData) (c : Call) : Prop :=
  match c.operation with
  | .create p _ | .mkdir p _ => p.parent = .root
  | _ => True

theorem onlyRootFilled_step (h : s.WellFormed) (honly : OnlyRootFilled s.theDirectories.elems) {op : Operation}
    (hr : s.FindsRoom ⟨ctx, op⟩) (ht : Transition ctx s op s') :
    OnlyRootFilled s'.theDirectories.elems ↔ s.MadeAtTop ⟨ctx, op⟩ := by
  cases ht with
  | @create p mode i fresh parent =>
    obtain ⟨d, hd, hpath⟩ := h.dirIndex_path parent
    have hiff := onlyRootFilled_modify honly hd (SimpleDirectory.directoryFile_linkFile
      (s.theFiles.pushBack ctx.growth (newFile ctx p.toCString mode)).backPtr)
      (.inr (List.append_ne_nil_of_right_ne_nil _ (List.cons_ne_nil _ _)))
    rw [hpath] at hiff
    exact hiff.trans (AbsPath.bytes_injective (p := p.parent) (q := .root))
  | @mkdir p mode i fresh parent =>
    obtain ⟨d, hd, hpath⟩ := h.dirIndex_path parent
    have hnew : OnlyRootFilled
        (s.theDirectories.elems ++ [newDirectory ctx p.toCString (some (s.theDirectories.ptr i))]) := by
      intro x hx hne
      rcases List.mem_append.mp hx with hx | hx
      · exact honly x hx hne
      · obtain rfl := List.mem_singleton.mp hx
        exact ⟨rfl, rfl⟩
    have hd' : (s.theDirectories.elems ++ [newDirectory ctx p.toCString (some (s.theDirectories.ptr i))])[i]? =
        some d := by
      rw [List.getElem?_append_left (dirIndex_lt parent), hd]
    have hiff := onlyRootFilled_modify hnew hd' (SimpleDirectory.directoryFile_linkDirectory s.heap.length)
      (.inl (List.append_ne_nil_of_right_ne_nil _ (List.cons_ne_nil _ _)))
    rw [hpath] at hiff
    rw [elems_addDirectory_of_room ctx p i (hr p mode rfl)]
    exact hiff.trans (AbsPath.bytes_injective (p := p.parent) (q := .root))
  | unlink =>
    rw [directories_dropFile]
    exact iff_of_true honly trivial
  | @rename p q i =>
    have hsame : ((s.dropFile q.bytes).assign i (moveTo q.toCString)).theDirectories = s.theDirectories :=
      directories_dropFile q.bytes
    rw [hsame]
    exact iff_of_true honly trivial
  | @edit op p f i assigns slot =>
    refine iff_of_true honly ?_
    cases op <;> first | exact trivial | cases assigns

theorem mirrored_init (ctx : CallContext) : (init ctx).Mirrored := by
  refine ⟨catalogued_init ctx, allLinked_init ctx, fun x hx => ?_, fun x hx => ?_⟩
  · obtain rfl := List.mem_singleton.mp hx
    exact ⟨rfl, rfl⟩
  · obtain rfl := List.mem_singleton.mp hx
    simp [dirRecords, init]

theorem onlyRootFilled_init (ctx : CallContext) : OnlyRootFilled (init ctx).theDirectories.elems := by
  intro d hd hne
  simp only [init, StdVector.elems_pushBack, StdVector.elems_empty, List.nil_append, List.mem_append,
    List.mem_singleton] at hd
  rcases hd with rfl | rfl
  · exact ⟨rfl, rfl⟩
  · exact absurd rfl hne

end FilesystemData

/-- Where no directory that is made finds the vector of directories full, a guarded run from the constructor's state
succeeds, and in every state it goes through the copies of the directories agree and the walk from the root meets every
directory once, exactly when every file and directory is made in the root. -/
theorem directory_copies_agree_iff (ctx : CallContext) {calls : List Call}
    (hg : ramSystem.Along ramSystem.guard calls (init ctx)) (hroom : ramSystem.Along FindsRoom calls (init ctx)) :
    (∃ s, ramSystem.exec calls (init ctx) = some s) ∧
      (ramSystem.Always (fun s => s.CopiesAgree ∧ s.VisitsAll) calls (init ctx) ↔
        ramSystem.Along MadeAtTop calls (init ctx)) := by
  have hinit := mirrored_init ctx
  refine guarded_run_iff (fun _ hm => hm.catalogued) (fun s c s' hm hp hr ht => ?_) hinit
    (hinit.agree_and_visited_iff.mpr (onlyRootFilled_init ctx)) hg hroom
  have hm' := hm.step hr ht
  refine ⟨hm', ?_⟩
  rw [hm'.agree_and_visited_iff]
  exact onlyRootFilled_step hm.catalogued.wellFormed (hm.agree_and_visited_iff.mp hp) hr ht

private theorem guarded_roomy_mkdir {p : AbsPath} (hfresh : p.bytes ∉ (init .roomy).filePaths ++ (init .roomy).dirPaths)
    (hparent : p.parent.bytes ∈ (init .roomy).dirPaths) :
    ramSystem.Along ramSystem.guard [⟨.roomy, .mkdir p 0o755⟩] (init .roomy) ∧
      ramSystem.Along FindsRoom [⟨.roomy, .mkdir p 0o755⟩] (init .roomy) := by
  have hw := wellFormed_init .roomy
  exact ⟨⟨⟨hw.absent_iff.mpr hfresh, hw.directoryAt_iff.mpr hparent⟩, fun _ _ => trivial⟩,
    ⟨fun _ _ _ => by decide, fun _ _ => trivial⟩⟩

theorem directory_copies_agree_iff_mkdir :
    ramSystem.Always (fun s => s.CopiesAgree ∧ s.VisitsAll) [⟨.roomy, .mkdir notes 0o755⟩] (init .roomy) := by
  obtain ⟨hg, hroom⟩ := guarded_roomy_mkdir (p := notes) (by decide) (by decide)
  exact (directory_copies_agree_iff .roomy hg hroom).2.mpr ⟨AbsPath.ext (by decide), fun _ _ => trivial⟩

/-- A directory made in the constructor's directory, which the walk from the root does not meet. -/
theorem mkdir_parts_copies :
    (ramSystem.Along ramSystem.guard [⟨.roomy, .mkdir mgDir1X 0o755⟩] (init .roomy) ∧
      ramSystem.Along FindsRoom [⟨.roomy, .mkdir mgDir1X 0o755⟩] (init .roomy)) ∧
      ∃ s, ramSystem.exec [⟨.roomy, .mkdir mgDir1X 0o755⟩] (init .roomy) = some s ∧ mgDir1X.bytes ∈ s.dirPaths ∧
        s.walk 9 0 = [text "/mg_dir_1"] ∧ ¬ (s.CopiesAgree ∧ s.VisitsAll) := by
  refine ⟨guarded_roomy_mkdir (by decide) (by decide), _, rfl, by decide, rfl, fun h => ?_⟩
  obtain ⟨x, hx, e, he, hpath, hsame⟩ := h.1 _ (List.mem_of_getElem? (show _[1]? = some _ from rfl)) 0
    List.mem_cons_self
  cases hx
  -- The entry with the path of the object is the first one.
  obtain ⟨j, hj⟩ := List.mem_iff_getElem?.mp he
  rcases j with _ | _ | _ | j
  · cases hj
    cases hsame.directories
  · cases hj
    exact absurd hpath (by decide)
  · cases hj
    exact absurd hpath (by decide)
  · cases hj

end MGFileSystem
