import MGFileSystem.Backend.BackendSimulation
import MGFileSystem.Ram.Catalogue

/-! What the memory of the process can change. As long as no callback does what the standard leaves undefined, neither
how the vectors grow nor what fresh memory holds shows in any reply. -/
namespace MGFileSystem
open FilesystemData SimpleDirectory

/-- All path arguments are normalised, as FUSE makes them. -/
def FuseRequest.Absolute (r : FuseRequest) : Prop := ∀ p ∈ r.paths, Normalised p.bytes

/-- The callback stays within what the standard defines. Those that do not: a read leaves its blocks, `mkdir` of the
root asks for `back()` of an empty string, and with no room for the new directory the parent's pointer dangles. -/
def FuseRequest.Defined (s : FilesystemData) : FuseRequest → Prop
  | read .. => False
  | mkdir p _ => p.bytes ≠ [slash] ∧ s.Room
  | _ => True

/-- What a listing shows of a directory. -/
def SimpleDirectory.listed (d : SimpleDirectory) : SimpleFile × List Nat := (d.directoryFile, d.containedDirectories)

namespace FilesystemData
variable {s t : FilesystemData} {ctx ctx' : CallContext}

/-- The same files and directories, in states whose pointers may differ. -/
structure SameRecords (s t : FilesystemData) : Prop where
  files : s.theFiles.elems = t.theFiles.elems
  directories : s.theDirectories.elems.map listed = t.theDirectories.elems.map listed
  heap : s.heap.map (·.directoryFile) = t.heap.map (·.directoryFile)

namespace SameRecords
variable (h : SameRecords s t)
include h

theorem fileIndex (b : Bytes) : s.fileIndex b = t.fileIndex b := by
  rw [FilesystemData.fileIndex, h.files, FilesystemData.fileIndex]

theorem dirIndex (b : Bytes) : s.dirIndex b = t.dirIndex b := by
  have hkeys := congrArg (List.map fun e => e.1.key) h.directories
  rw [List.map_map, List.map_map] at hkeys
  exact congrFun (KeyedList.position_congr hkeys) b

theorem length_directories : s.theDirectories.elems.length = t.theDirectories.elems.length := by
  have hlength := congrArg List.length h.directories
  rwa [List.length_map, List.length_map] at hlength

theorem length_heap : s.heap.length = t.heap.length := by
  have hlength := congrArg List.length h.heap
  rwa [List.length_map, List.length_map] at hlength

/-- Slots hold directories that list the same. -/
theorem directory_slot (i : Nat) : s.theDirectories.elems[i]?.map listed = t.theDirectories.elems[i]?.map listed := by
  have hslot := congrArg (·[i]?) h.directories
  simpa only [List.getElem?_map] using hslot

/-- Addresses hold directories with the same record. -/
theorem heap_slot (a : Nat) : s.heap[a]?.map (·.directoryFile) = t.heap[a]?.map (·.directoryFile) := by
  have hslot := congrArg (·[a]?) h.heap
  simpa only [List.getElem?_map] using hslot

/-- A change to the vector of files alone. -/
theorem withFiles {v w : StdVector SimpleFile} (hvw : v.elems = w.elems) :
    SameRecords { s with theFiles := v } { t with theFiles := w } where
  files := hvw
  directories := h.directories
  heap := h.heap

/-- The new object at the end of both heaps; the pointers to the parent may differ. -/
theorem push (g g' : GrowthPolicy) {d d' : SimpleDirectory} (hd : d.listed = d'.listed) :
    SameRecords { s with heap := s.heap ++ [d], theDirectories := s.theDirectories.pushBack g d }
      { t with heap := t.heap ++ [d'], theDirectories := t.theDirectories.pushBack g' d' } where
  files := h.files
  directories := by
    simp only [StdVector.elems_pushBack, List.map_append, List.map_cons, List.map_nil, h.directories, hd]
  heap := by
    have hrecord : d.directoryFile = d'.directoryFile := congrArg Prod.fst hd
    simp only [List.map_append, List.map_cons, List.map_nil, h.heap, hrecord]

theorem linkFile (i : Nat) (p p' : ElementPtr) :
    SameRecords { s with theDirectories := s.theDirectories.modify i (SimpleDirectory.linkFile p) }
      { t with theDirectories := t.theDirectories.modify i (SimpleDirectory.linkFile p') } where
  files := h.files
  directories := by
    have hkeep : ∀ q d, (SimpleDirectory.linkFile q d).listed = d.listed := fun _ _ => rfl
    rw [StdVector.map_modify (hkeep p), StdVector.map_modify (hkeep p'), h.directories]
  heap := h.heap

/-- With room for it a new directory comes to the same place, and its parent lists the same address. -/
theorem addDirectory {p : AbsPath} (hctx : ctx.SeesAlike ctx') (hs : s.Room) (ht : t.Room) (i : Nat) :
    SameRecords (s.addDirectory ctx p i) (t.addDirectory ctx' p i) where
  files := h.files
  directories := by
    let link : SimpleFile × List Nat → SimpleFile × List Nat := fun e => (e.1, e.2 ++ [s.heap.length])
    have hlink : ∀ d, (linkDirectory s.heap.length d).listed = link d.listed := fun _ => rfl
    have hlink' : ∀ d, (linkDirectory t.heap.length d).listed = link d.listed := by
      rw [← h.length_heap]
      exact hlink
    have hnew : (newDirectory ctx p.toCString (some (s.theDirectories.ptr i))).listed =
        (newDirectory ctx' p.toCString (some (t.theDirectories.ptr i))).listed := by
      simp only [listed, newDirectory, hctx.time, hctx.uid, hctx.gid]
    rw [elems_addDirectory_of_room ctx p i hs, elems_addDirectory_of_room ctx' p i ht,
      StdVector.map_modify_of_comm hlink, StdVector.map_modify_of_comm hlink', List.map_append, List.map_append,
      h.directories, List.map_singleton, List.map_singleton, hnew]
  heap := by
    have hnew : (newDirectory ctx p.toCString (some (s.theDirectories.ptr i))).directoryFile =
        (newDirectory ctx' p.toCString (some (t.theDirectories.ptr i))).directoryFile := by
      simp only [newDirectory, hctx.time, hctx.uid, hctx.gid]
    simp only [FilesystemData.addDirectory, List.map_append, List.map_cons, List.map_nil, h.heap, hnew]

end SameRecords
end FilesystemData

section Methods
open FilesystemData
variable (ctx ctx' : CallContext)

theorem alike_getIndexForFilename (p : CString) :
    Alike SameRecords (getIndexForFilename p) (getIndexForFilename p) :=
  Alike.read fun _ _ h => h.fileIndex p.bytes

theorem alike_getIndexForDirname (p : CString) :
    Alike SameRecords (getIndexForDirname p) (getIndexForDirname p) := by
  have hsearch : Alike (ε := Fault) SameRecords
      (do return (← get).dirIndex (cStr (stripSlash p.bytes)))
      (do return (← get).dirIndex (cStr (stripSlash p.bytes))) :=
    Alike.read fun _ _ h => h.dirIndex _
  unfold getIndexForDirname
  apply Related.ite Iff.rfl
  · exact (Alike.throw _).bind fun _ => hsearch
  · exact hsearch

theorem alike_fileAt (i : Nat) : Alike SameRecords (fileAt i) (fileAt i) := by
  intro s t h
  simp only [fileAt, EStateM.run_bind, EStateM.run_get, h.files]
  cases t.theFiles.elems[i]? with
  | none => exact ⟨rfl, h⟩
  | some f => exact ⟨rfl, h⟩

theorem related_directoryAt (i : Nat) :
    Related SameRecords (directoryAt i) (directoryAt i)
      (fun d d' s t => d.listed = d'.listed ∧ SameRecords s t) SameRecords := by
  intro s t h
  have hslot := h.directory_slot i
  simp only [directoryAt, EStateM.run_bind, EStateM.run_get]
  cases hs : s.theDirectories.elems[i]? <;> cases ht : t.theDirectories.elems[i]? <;> rw [hs, ht] at hslot
  · exact ⟨rfl, h⟩
  · cases hslot
  · cases hslot
  · exact ⟨Option.some.inj hslot, h⟩

theorem alike_directoryName (a : Nat) : Alike SameRecords (directoryName a) (directoryName a) := by
  intro s t h
  have hslot := h.heap_slot a
  simp only [directoryName, EStateM.run_bind, EStateM.run_get]
  cases hs : s.heap[a]? <;> cases ht : t.heap[a]? <;> rw [hs, ht] at hslot
  · exact ⟨rfl, h⟩
  · cases hslot
  · cases hslot
  · exact ⟨congrArg (cStr ·.name) (Option.some.inj hslot), h⟩

theorem alike_listFilesInDir (p : CString) : Alike SameRecords (listFilesInDir p) (listFilesInDir p) := by
  apply (alike_getIndexForDirname p).bind
  rintro (_ | i)
  · exact Alike.throw _
  · apply (related_directoryAt i).bind
    rintro d d' s t ⟨hd, h⟩
    have hlinks : d.containedDirectories = d'.containedDirectories := congrArg Prod.snd hd
    rw [hlinks]
    refine Alike.bind (.mapM alike_directoryName _) (fun names => .read fun s t h => ?_) s t h
    rw [fileNames, fileNames, h.files]

theorem alike_getFileptrForFilename (b : Bytes) :
    Alike SameRecords (getFileptrForFilename b) (getFileptrForFilename b) := by
  apply (alike_getIndexForFilename _).bind
  rintro (_ | i)
  · apply (alike_getIndexForDirname _).bind
    rintro (_ | i)
    · exact Alike.pure _
    · apply (related_directoryAt i).bind
      intro d d'
      apply Related.pure
      rintro s t ⟨hd, h⟩
      have hrecord : d.directoryFile = d'.directoryFile := congrArg Prod.fst hd
      exact ⟨by rw [hrecord], h⟩
  · exact (alike_fileAt i).bind fun _ => Alike.pure _

theorem alike_assertFound (i : Option Nat) : Alike SameRecords (assertFound i) (assertFound i) := by
  cases i with
  | none => exact Alike.throw _
  | some i => exact Alike.pure i

theorem alike_assignFile (p : CString) (f : SimpleFile → SimpleFile) :
    Alike SameRecords (assignFile p f) (assignFile p f) := by
  apply (alike_getIndexForFilename p).bind
  intro i
  apply (alike_assertFound i).bind
  intro i
  exact Alike.modify fun s t h => h.withFiles (by rw [StdVector.elems_modify, StdVector.elems_modify, h.files])

theorem alike_removeFile (p : CString) : Alike SameRecords (removeFile p) (removeFile p) := by
  apply (alike_getIndexForFilename p).bind
  rintro (_ | i)
  · exact Alike.pure _
  · exact Alike.modify fun s t h => h.withFiles (congrArg (List.eraseIdx · i) h.files)

theorem alike_renameFile (p q : CString) : Alike SameRecords (renameFile p q) (renameFile p q) := by
  apply (alike_getIndexForFilename q).bind
  intro found
  apply Related.ite Iff.rfl
  · exact (alike_removeFile q).bind fun _ => alike_assignFile p _
  · exact alike_assignFile p _

theorem alike_getAttributes (p : CString) (st : Stat) :
    Alike SameRecords (getAttributes p st) (getAttributes p st) := by
  apply (alike_getFileptrForFilename p.bytes).bind
  rintro (_ | f)
  · exact Alike.pure _
  · exact Alike.pure _

/-- The backend without its two methods that may do what is undefined. -/
def settled (ctx : CallContext) : StorageBackend FilesystemData :=
  { filesystemData ctx with
    readFileContent := fun _ _ _ => throw .badPointer
    createDirectory := fun _ _ => throw .badPointer }

variable {ctx ctx'} (hctx : ctx.SeesAlike ctx')
include hctx

theorem alike_createFile (p : CString) (mode : UInt32) :
    Alike SameRecords (createFile ctx p mode) (createFile ctx' p mode) := by
  have hnew : newFile ctx p mode = newFile ctx' p mode := by
    simp only [newFile, hctx.time, hctx.callerUid, hctx.callerGid]
  apply Alike.bind (R := SameRecords) (m := modify _)
  · exact Alike.modify fun s t h => h.withFiles (by
      rw [StdVector.elems_pushBack, StdVector.elems_pushBack, h.files, hnew])
  intro _
  apply (alike_getIndexForDirname _).bind
  intro i
  apply (alike_assertFound i).bind
  intro i s t h
  simp only [EStateM.run_bind, EStateM.run_get, h.length_directories]
  split
  · exact ⟨trivial, h.linkFile i _ _⟩
  · exact ⟨rfl, h⟩

theorem simulation_settled : BackendSimulation (fun _ => True) SameRecords (settled ctx) (settled ctx') where
  listFilesInDir p _ := alike_listFilesInDir p
  readFileContent _ _ _ _ := Alike.throw _
  getAttributes p st _ := alike_getAttributes p st
  fileExists p _ := (alike_getIndexForFilename p).bind fun _ => Alike.pure _
  directoryExists p _ := (alike_getIndexForDirname p).bind fun _ => Alike.pure _
  setFileMode p _ _ := alike_assignFile p _
  writeFileContent p _ _ _ _ := alike_assignFile p _
  renameFile p q _ _ := alike_renameFile p q
  createDirectory _ _ _ := Alike.throw _
  removeDirectory _ _ := Alike.pure _
  removeFile p _ := alike_removeFile p
  createFile p mode _ := alike_createFile hctx p mode
  setAccessAndModificationTimes p _ _ _ := alike_assignFile p _
  truncateFile p _ _ := alike_assignFile p _
  changeOwnership p _ _ _ := alike_assignFile p _

theorem related_createDirectory {p : AbsPath} (hp : p ≠ .root) (mode : UInt32) :
    Related (fun s t => (s.Room ∧ t.Room) ∧ SameRecords s t) (createDirectory ctx p.toCString mode)
      (createDirectory ctx' p.toCString mode) (fun a b s t => a = b ∧ SameRecords s t) SameRecords := by
  rintro s t ⟨⟨hs, ht⟩, h⟩
  have hfound := h.dirIndex p.parent.bytes
  cases hi : s.dirIndex p.parent.bytes with
  | some i =>
    rw [hi] at hfound
    rw [run_createDirectory hp mode hi, run_createDirectory hp mode hfound.symm]
    exact ⟨rfl, h.addDirectory hctx hs ht i⟩
  | none =>
    rw [hi] at hfound
    have hnew : (newDirectory ctx p.toCString none).listed = (newDirectory ctx' p.toCString none).listed := by
      simp only [listed, newDirectory, hctx.time, hctx.uid, hctx.gid]
    simp only [createDirectory, EStateM.run_bind, run_getParentDirectoryFromPath hp, hi, ← hfound, Option.map_none,
      EStateM.run_get, EStateM.run_modify]
    exact ⟨rfl, h.push ctx.growth ctx'.growth hnew⟩

end Methods

/-- Two processes are asked the same at the same time by the same caller. -/
def FuseCall.Twin (c c' : FuseCall) : Prop := c.request = c'.request ∧ c.ctx.SeesAlike c'.ctx

/-- A request that is defined in both processes. -/
theorem FuseCall.serve_twins {c c' : FuseCall} (h : c.Twin c') :
    Related (fun m n => ((c.request.Absolute ∧ c.request.Defined m.backend) ∧ c'.request.Defined n.backend) ∧
        m.Agrees SameRecords n)
      (c.serve filesystemData) (c'.serve filesystemData) (fun r r' m n => r = r' ∧ m.Agrees SameRecords n)
      (Mounted.Agrees SameRecords) := by
  obtain ⟨ctx, r⟩ := c
  obtain ⟨ctx', r'⟩ := c'
  obtain ⟨hr, hctx⟩ := h
  obtain rfl : r = r' := hr
  have hsettled : Alike (Mounted.Agrees SameRecords) (r.serve (settled ctx) ctx) (r.serve (settled ctx') ctx') :=
    (simulation_settled hctx).serve hctx fun _ _ => trivial
  cases r with
  | read => exact fun m n h => h.1.1.2.elim
  | mkdir p mode =>
    rintro m n ⟨⟨⟨habsolute, hdefined⟩, hdefined'⟩, hagrees⟩
    obtain ⟨p, rfl⟩ : ∃ q : AbsPath, q.toCString = p :=
      ⟨⟨p, habsolute p (List.mem_singleton_self p)⟩, rfl⟩
    have hroot : p ≠ .root := fun he => hdefined.1 (congrArg (·.bytes) he)
    have hmkdir : Related (fun s t => (s.Room ∧ t.Room) ∧ SameRecords s t)
        (mgMkdir (filesystemData ctx) p.toCString mode) (mgMkdir (filesystemData ctx') p.toCString mode)
        (fun a b s t => a = b ∧ SameRecords s t) SameRecords :=
      (related_createDirectory hctx hroot mode).bindSame fun _ => Related.pure fun _ _ h => ⟨rfl, h⟩
    exact hmkdir.counted m n ⟨⟨hdefined.2, hdefined'.2⟩, hagrees⟩
  | getattr | readdir | write | chmod | chown | rename | truncate | unlink | create | utimens | rmdir | stub =>
    exact fun m n h => hsettled m n h.2

theorem sameRecords_init {ctx ctx' : CallContext} (hctx : ctx.SeesAlike ctx') : SameRecords (init ctx) (init ctx') where
  files := by
    simp only [init, StdVector.elems_pushBack, hctx.time, hctx.uid, hctx.gid]
  directories := by
    simp only [init, StdVector.elems_pushBack, List.map_append, List.map_cons, listed, hctx.time, hctx.uid, hctx.gid]
  heap := by
    simp only [init, List.map_cons, hctx.time, hctx.uid, hctx.gid]

/-- The requests of a run stay within what the standard defines. -/
def RunDefined (B : CallContext → StorageBackend FilesystemData) : List FuseCall → Mounted FilesystemData → Prop :=
  (mountSystem B).Along fun m c => c.request.Absolute ∧ c.request.Defined m.backend

/-- Room for sixteen more, and memory that holds other bytes. -/
def CallContext.spacious : CallContext :=
  { CallContext.plain with
    growth := ⟨(· + 16), fun _ => Nat.lt_add_of_pos_right (by decide)⟩
    freshMemory := [1, 2, 3] }

theorem seesAlike_spacious : CallContext.roomy.SeesAlike .spacious := ⟨rfl, rfl, rfl, rfl, rfl⟩

/-- A directory is made and listed, and its parent too. -/
def directoryCalls (ctx : CallContext) : List FuseCall :=
  [⟨ctx, .mkdir notes.toCString 0o775⟩, ⟨ctx, .readdir AbsPath.root.toCString⟩, ⟨ctx, .readdir notes.toCString⟩]

theorem runDefined_directoryCalls {ctx : CallContext} (h : (init ctx).Room) :
    RunDefined filesystemData (directoryCalls ctx) (.start (init ctx)) := by
  have hpaths : ∀ q : AbsPath, ∀ p ∈ [q.toCString], Normalised p.bytes := by
    rintro q p hp
    rw [List.mem_singleton.mp hp]
    exact q.normalised
  exact ⟨⟨hpaths notes, by decide, h⟩, fun _ _ => ⟨⟨hpaths .root, trivial⟩, fun _ _ => ⟨⟨hpaths notes, trivial⟩,
    fun _ _ => trivial⟩⟩⟩

end MGFileSystem
