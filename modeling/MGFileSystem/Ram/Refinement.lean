import MGFileSystem.Ram.Transitions

/-! The in-memory backend refines a map from paths to objects: every guarded
operation succeeds and changes the map at its own paths only. -/
namespace MGFileSystem
open FilesystemData

/-- What an operation does to the map from paths to objects. -/
def Operation.effect (ctx : CallContext) (op : Operation) (A : ObjectMap) : ObjectMap :=
  match op with
  | create p mode => Function.update A p (some ⟨false, mode, [], ctx.time 0, ctx.time 1, ctx.callerUid, ctx.callerGid⟩)
  | mkdir p _ => Function.update A p (some ⟨true, S_IFDIR ||| 0o775, [], ctx.time 0, ctx.time 1, ctx.uid, ctx.gid⟩)
  | unlink p => Function.update A p none
  | rename p q => Function.update (Function.update A p none) q (A p)
  | write p buffer size offset => Function.update A p ((A p).map fun o =>
      { o with content := Overlay.insert 0 o.content offset ((cStr buffer).take size) })
  | truncate p length => Function.update A p ((A p).map fun o => { o with content := o.content.take length })
  | chmod p mode => Function.update A p ((A p).map fun o => { o with mode := mode })
  | chown p user group => Function.update A p ((A p).map fun o => { o with user := user, group := group })
  | utimens p access modification => Function.update A p ((A p).map fun o =>
      { o with lastAccessTime := access.sec, lastModificationTime := modification.sec })

/-- An edit acts on the object as its assignment acts on the file. -/
theorem Operation.effect_edit {op : Operation} {p : AbsPath} {f : SimpleFile → SimpleFile}
    (he : op.edit = some (p, f)) : ∃ g : Object → Object,
      (∀ a, (f a).object false = g (a.object false)) ∧
        ∀ ctx A, op.effect ctx A = Function.update A p ((A p).map g) := by
  cases op <;> cases he
  case write buffer size offset =>
    exact ⟨_, fun a => by simp only [SimpleFile.object, writtenContent_eq_insert], fun _ _ => rfl⟩
  all_goals exact ⟨_, fun _ => rfl, fun _ _ => rfl⟩

/-- Paths that are not arguments keep their objects. -/
theorem Operation.effect_of_not_mem {ctx : CallContext} {op : Operation} {q : AbsPath} (hq : q ∉ op.paths)
    (A : ObjectMap) : op.effect ctx A q = A q := by
  cases op <;> simp only [paths, List.mem_cons, List.not_mem_nil, or_false, not_or] at hq
  case rename => rw [effect, Function.update_of_ne hq.2, Function.update_of_ne hq.1]
  all_goals rw [effect, Function.update_of_ne hq]

theorem Transition.objects {ctx : CallContext} {s s' : FilesystemData} {op : Operation} (h : s.WellFormed)
    (ht : Transition ctx s op s') : s'.objects = op.effect ctx s.objects := by
  cases ht with
  | create fresh => exact h.objects_addFile fresh _ _
  | mkdir fresh => exact h.objects_addDirectory fresh _
  | unlink found => exact h.objects_dropFile (h.disjoint found)
  | @rename p q i found ne free parent slot =>
    have hp := (h.dropFile q.bytes).objects_moveTo slot (h.free_dropFile free)
    rw [hp, h.objects_dropFile free, Function.update_of_ne ne, Operation.effect, Function.update_comm ne.symm,
      Function.update_idem]
  | @edit op p f i assigns slot =>
    obtain ⟨g, hfg, hg⟩ := Operation.effect_edit assigns
    rw [hg, h.objects_assign slot (fun a => (Operation.edit_keeps_names assigns a).1) hfg]

theorem ramSystem_step {c : Call} {s s' : FilesystemData} {code : Int}
    (hr : (c.operation.perform c.ctx).run s = .ok code s') : ramSystem.step c s = some s' := by
  simp only [ramSystem, hr]

/-- The map from paths to objects as the abstract state of the backend. -/
def ramSimulation : Simulation ramSystem ObjectMap where
  inv := WellFormed
  abs := objects
  effect c := c.operation.effect c.ctx
  start := by
    rintro s ⟨ctx, rfl⟩
    exact wellFormed_init ctx
  step s c h hg := by
    obtain ⟨code, s', hr, ht⟩ := h.perform_guarded hg
    exact ⟨s', ramSystem_step hr, ht.wellFormed h, ht.objects h⟩

theorem FilesystemData.WellFormed.step_guarded {s : FilesystemData} (h : s.WellFormed) {c : Call}
    (hg : ramSystem.guard s c) :
    ∃ s', ramSystem.step c s = some s' ∧ s'.WellFormed ∧ s'.objects = c.operation.effect c.ctx s.objects :=
  ramSimulation.step s c h hg

theorem FilesystemData.WellFormed.of_step {s s' : FilesystemData} (h : s.WellFormed) {c : Call}
    (hg : ramSystem.guard s c) (hs : ramSystem.step c s = some s') :
    s'.WellFormed ∧ s'.objects = c.operation.effect c.ctx s.objects :=
  ramSimulation.step_eq h hg hs

theorem wellFormed_of_reachable {s : FilesystemData} (h : ramSystem.Reachable s) : s.WellFormed :=
  ramSimulation.inv_of_reachable h

/-- What the callbacks rely on: distinct normalised paths, and parents that a search finds. -/
structure ConsistentNamespace (s : FilesystemData) : Prop where
  distinct : (s.theFiles.elems.map (·.path) ++ s.theDirectories.elems.map (·.directoryFile.path)).Nodup
  normalised : ∀ b ∈ s.filePaths ++ s.dirPaths, ∃ p : AbsPath, p.bytes = b
  no_trailing_slash : ∀ b ∈ s.filePaths ++ s.dirPaths, b ≠ text "/" → b.getLast? ≠ some slash
  root : DirectoryAt s .root
  parents : ∀ p : AbsPath, p ≠ .root → p.bytes ∈ s.filePaths ++ s.dirPaths →
    ∃ i d, (getIndexForDirname p.parent.toCString).answer s = .ok (some i) ∧
      (getIndexForDirname (.ofBytes (getDirFromPath p.bytes))).answer s = .ok (some i) ∧
      s.theDirectories.elems[i]? = some d ∧ d.directoryFile.path = p.parent.bytes

theorem FilesystemData.WellFormed.consistentNamespace {s : FilesystemData} (h : s.WellFormed) :
    ConsistentNamespace s where
  distinct := by
    have hd := h.distinct
    rwa [dirPaths, dirRecords, List.map_map] at hd
  normalised := h.normalised
  no_trailing_slash b hb hr := by
    obtain ⟨p, rfl⟩ := h.normalised b hb
    exact AbsPath.getLast?_ne fun he => hr (congrArg (·.bytes) he)
  root := h.directoryAt_iff.mpr h.root
  parents p hr hp := by
    obtain ⟨i, hi⟩ := Option.isSome_iff_exists.mp (h.dirIndex_isSome.mpr (h.closed p hp))
    obtain ⟨d, hd, hpath⟩ := h.dirIndex_path hi
    refine ⟨i, d, ?_, ?_, hd, hpath⟩
    · simp only [Method.answer, run_getIndexForDirname_absPath, hi]
    · simp only [Method.answer, run_getIndexForDirname_getDirFromPath hr, hi]

def notes : AbsPath := ⟨⟨text "/notes", by decide⟩, by decide⟩

def docs : AbsPath := ⟨⟨text "/docs", by decide⟩, by decide⟩

def docsNotes : AbsPath := ⟨⟨text "/docs/notes", by decide⟩, by decide⟩

theorem guard_create_notes : ramSystem.guard (init .plain) ⟨.plain, .create notes 0o644⟩ :=
  have hw := wellFormed_init .plain
  ⟨hw.absent_iff.mpr (by decide), hw.directoryAt_iff.mpr (by decide)⟩

/-- The constructor's state with an empty file more. -/
def withNotes : FilesystemData := (mgCreate (filesystemData .plain) notes.toCString 0o644).left (init .plain)

theorem reachable_withNotes : ramSystem.Reachable withNotes :=
  have hinit : ramSystem.Reachable (init .plain) := .start ⟨.plain, rfl⟩
  hinit.next guard_create_notes rfl

/-- Every run of guarded operations keeps the namespace well formed. -/
theorem reachable_namespace {s : FilesystemData} (h : ramSystem.Reachable s) : ConsistentNamespace s :=
  (wellFormed_of_reachable h).consistentNamespace

/-- A file is made and moved into a new directory, and the constructor's file is removed. -/
theorem reachable_namespace_init :
    ∃ s, ramSystem.exec [⟨.plain, .create notes 0o644⟩, ⟨.plain, .mkdir docs 0o755⟩, ⟨.plain, .rename notes docsNotes⟩,
      ⟨.plain, .unlink mgFile1⟩] (init .plain) = some s ∧ ConsistentNamespace s := by
  have hinit : ramSystem.Reachable (init .plain) := .start ⟨.plain, rfl⟩
  obtain ⟨s₁, hs₁, hw₁, ho₁⟩ := (wellFormed_of_reachable hinit).step_guarded guard_create_notes
  have hmkdir : ramSystem.guard s₁ ⟨.plain, .mkdir docs 0o755⟩ := by
    refine ⟨hw₁.absent_iff_kind.mpr ?_, hw₁.directoryAt_iff_kind.mpr ?_⟩ <;> rw [ho₁] <;> decide
  obtain ⟨s₂, hs₂, hw₂, ho₂⟩ := hw₁.step_guarded hmkdir
  rw [ho₁] at ho₂
  have hrename : ramSystem.guard s₂ ⟨.plain, .rename notes docsNotes⟩ := by
    refine ⟨hw₂.fileAt_iff_kind.mpr ?_, by decide, mt hw₂.directoryAt_iff_kind.mp ?_,
      hw₂.directoryAt_iff_kind.mpr ?_⟩ <;> rw [ho₂] <;> decide
  obtain ⟨s₃, hs₃, hw₃, ho₃⟩ := hw₂.step_guarded hrename
  rw [ho₂] at ho₃
  have hunlink : ramSystem.guard s₃ ⟨.plain, .unlink mgFile1⟩ := by
    refine hw₃.fileAt_iff_kind.mpr ?_
    rw [ho₃]
    decide
  obtain ⟨s₄, hs₄, -⟩ := hw₃.step_guarded hunlink
  refine ⟨s₄, ?_, reachable_namespace ((((hinit.next guard_create_notes hs₁).next hmkdir hs₂).next hrename hs₃).next
    hunlink hs₄)⟩
  simp only [GuardedSystem.exec, hs₁, hs₂, hs₃, hs₄, Option.bind_some]

end MGFileSystem
