import MGFileSystem.Backend.Dispatch
import MGFileSystem.Foundations.RelatedPrograms
import Mathlib.Data.List.Forall2

/-! Two backends whose methods keep a relation of their states. The callbacks see a backend through its methods only,
so over both of them every run of requests is answered alike. -/
namespace MGFileSystem
variable {σ τ : Type}

/-- Each method keeps the relation and answers alike, on the paths `paths`. -/
structure BackendSimulation (paths : CString → Prop) (R : σ → τ → Prop) (B : StorageBackend σ) (B' : StorageBackend τ) :
    Prop where
  listFilesInDir : ∀ p, paths p → Alike R (B.listFilesInDir p) (B'.listFilesInDir p)
  readFileContent : ∀ p offset size, paths p →
    Alike R (B.readFileContent p offset size) (B'.readFileContent p offset size)
  getAttributes : ∀ p st, paths p → Alike R (B.getAttributes p st) (B'.getAttributes p st)
  fileExists : ∀ p, paths p → Alike R (B.fileExists p) (B'.fileExists p)
  directoryExists : ∀ p, paths p → Alike R (B.directoryExists p) (B'.directoryExists p)
  setFileMode : ∀ p mode, paths p → Alike R (B.setFileMode p mode) (B'.setFileMode p mode)
  writeFileContent : ∀ p data size offset, paths p →
    Alike R (B.writeFileContent p data size offset) (B'.writeFileContent p data size offset)
  renameFile : ∀ p q, paths p → paths q → Alike R (B.renameFile p q) (B'.renameFile p q)
  createDirectory : ∀ p mode, paths p → Alike R (B.createDirectory p mode) (B'.createDirectory p mode)
  removeDirectory : ∀ p, paths p → Alike R (B.removeDirectory p) (B'.removeDirectory p)
  removeFile : ∀ p, paths p → Alike R (B.removeFile p) (B'.removeFile p)
  createFile : ∀ p mode, paths p → Alike R (B.createFile p mode) (B'.createFile p mode)
  setAccessAndModificationTimes : ∀ p access modification, paths p →
    Alike R (B.setAccessAndModificationTimes p access modification)
      (B'.setAccessAndModificationTimes p access modification)
  truncateFile : ∀ p length, paths p → Alike R (B.truncateFile p length) (B'.truncateFile p length)
  changeOwnership : ∀ p user group, paths p →
    Alike R (B.changeOwnership p user group) (B'.changeOwnership p user group)

/-- Processes with related backends that have counted alike. -/
def Mounted.Agrees (R : σ → τ → Prop) (m : Mounted σ) (n : Mounted τ) : Prop :=
  R m.backend n.backend ∧ m.counter = n.counter ∧ m.printed = n.printed

section Callbacks
variable {paths : CString → Prop} {R : σ → τ → Prop} {α : Type}

theorem Alike.onBackend {x : Method σ α} {y : Method τ α} (h : Alike R x y) :
    Alike (Mounted.Agrees R) (onBackend x) (onBackend y) := by
  rintro m n ⟨hR, hcounter, hprinted⟩
  have hxy := h m.backend n.backend hR
  rw [run_onBackend, run_onBackend]
  cases hx : x.run m.backend <;> cases hy : y.run n.backend <;> rw [hx, hy] at hxy
  · exact ⟨hxy.1, hxy.2, hcounter, hprinted⟩
  · exact hxy
  · exact hxy
  · exact ⟨hxy.1, hxy.2, hcounter, hprinted⟩

theorem Related.counted {P : σ → τ → Prop} {x : Method σ Int} {y : Method τ Int}
    (h : Related (fun s t => P s t ∧ R s t) x y (fun a b s t => a = b ∧ R s t) R) :
    Related (fun m n => P m.backend n.backend ∧ m.Agrees R n) (counted x) (counted y)
      (fun r r' m n => r = r' ∧ m.Agrees R n) (Mounted.Agrees R) := by
  rintro m n ⟨hP, hR, hcounter, hprinted⟩
  have hxy := h m.backend n.backend ⟨hP, hR⟩
  rw [run_counted, run_counted]
  cases hx : x.run m.backend <;> cases hy : y.run n.backend <;> rw [hx, hy] at hxy
  · exact ⟨congrArg Reply.code hxy.1, hxy.2, congrArg (· + 1) hcounter, congrArg₂ List.cons hcounter hprinted⟩
  · exact hxy
  · exact hxy
  · exact ⟨hxy.1, hxy.2, hcounter, hprinted⟩

theorem Alike.counted {x : Method σ Int} {y : Method τ Int} (h : Alike R x y) :
    Alike (Mounted.Agrees R) (counted x) (counted y) := by
  have hcounted := Related.counted (P := fun _ _ => True) (h.conseq (fun _ _ hR => hR.2) fun _ _ _ _ => id)
  exact hcounted.conseq (fun _ _ hR => ⟨trivial, hR⟩) fun _ _ _ _ => id

variable {B : StorageBackend σ} {B' : StorageBackend τ} (h : BackendSimulation paths R B B') {p : CString}
  (hp : paths p)
include h hp

theorem BackendSimulation.mgGetattr {ctx ctx' : CallContext} (htime : ctx.time = ctx'.time) (huid : ctx.uid = ctx'.uid)
    (hgid : ctx.gid = ctx'.gid) (st : Stat) : Alike R (mgGetattr B ctx p st) (mgGetattr B' ctx' p st) := by
  unfold MGFileSystem.mgGetattr
  rw [htime, huid, hgid]
  apply Related.ite Iff.rfl (Alike.pure _)
  apply (h.fileExists p hp).bind
  intro isFile
  apply Related.ite Iff.rfl
  · exact (h.getAttributes p _ hp).bind fun _ => Alike.pure _
  · apply (h.directoryExists p hp).bind
    intro isDirectory
    exact Related.ite Iff.rfl ((h.getAttributes p _ hp).bind fun _ => Alike.pure _) (Alike.pure _)

theorem BackendSimulation.mgRead (buffer : Bytes) (size offset : Nat) :
    Alike R (mgRead B p buffer size offset) (mgRead B' p buffer size offset) := by
  apply (h.fileExists p hp).bind
  intro isFile
  exact Related.ite Iff.rfl ((h.readFileContent p offset size hp).bind fun _ => Alike.pure _) (Alike.pure _)

end Callbacks

/-- Contexts of one call that agree on what the call sees of its process, but not on its memory. -/
structure CallContext.SeesAlike (ctx ctx' : CallContext) : Prop where
  time : ctx.time = ctx'.time
  uid : ctx.uid = ctx'.uid
  gid : ctx.gid = ctx'.gid
  callerUid : ctx.callerUid = ctx'.callerUid
  callerGid : ctx.callerGid = ctx'.callerGid

theorem CallContext.SeesAlike.refl (ctx : CallContext) : ctx.SeesAlike ctx := ⟨rfl, rfl, rfl, rfl, rfl⟩

section Runs
variable {paths : CString → Prop} {R : σ → τ → Prop}

/-- A callback over related backends. -/
theorem BackendSimulation.serve {B : StorageBackend σ} {B' : StorageBackend τ} (h : BackendSimulation paths R B B')
    {ctx ctx' : CallContext} (hctx : ctx.SeesAlike ctx') {r : FuseRequest} (hr : ∀ p ∈ r.paths, paths p) :
    Alike (Mounted.Agrees R) (r.serve B ctx) (r.serve B' ctx') := by
  have hcode : ∀ {x : Method σ Unit} {y : Method τ Unit} {code : Int}, Alike R x y →
      Alike (Mounted.Agrees R) (counted (do x; return code)) (counted (do y; return code)) :=
    fun hxy => Alike.counted (hxy.bind fun _ => .pure _)
  cases r with
  | getattr p st =>
    have hp := hr p (List.mem_singleton_self p)
    exact (h.mgGetattr hp hctx.time hctx.uid hctx.gid st).onBackend.map _
  | readdir p =>
    have hp := hr p (List.mem_singleton_self p)
    exact (Alike.onBackend ((h.listFilesInDir p hp).bind fun _ => .pure _)).map _
  | read p buffer size offset =>
    have hp := hr p (List.mem_singleton_self p)
    exact (h.mgRead hp buffer size offset).onBackend.map _
  | write p buffer size offset => exact hcode (h.writeFileContent p _ _ _ (hr p (List.mem_singleton_self p)))
  | chmod p mode => exact hcode (h.setFileMode p _ (hr p (List.mem_singleton_self p)))
  | chown p user group => exact hcode (h.changeOwnership p _ _ (hr p (List.mem_singleton_self p)))
  | mkdir p mode => exact hcode (h.createDirectory p _ (hr p (List.mem_singleton_self p)))
  | rename p q =>
    exact hcode (h.renameFile p q (hr p List.mem_cons_self) (hr q (List.mem_cons_of_mem _ (List.mem_singleton_self q))))
  | truncate p length => exact hcode (h.truncateFile p _ (hr p (List.mem_singleton_self p)))
  | unlink p => exact hcode (h.removeFile p (hr p (List.mem_singleton_self p)))
  | create p mode => exact hcode (h.createFile p _ (hr p (List.mem_singleton_self p)))
  | utimens p access modification =>
    exact hcode (h.setAccessAndModificationTimes p _ _ (hr p (List.mem_singleton_self p)))
  | rmdir p => exact hcode (h.removeDirectory p (hr p (List.mem_singleton_self p)))
  | stub callback => exact Alike.counted (.pure 0)

/-- Runs whose calls are answered alike in pairs, each in a state where it may be made, are answered alike. -/
theorem serveAll_alike {B : CallContext → StorageBackend σ} {B' : CallContext → StorageBackend τ}
    {P : FuseCall → FuseCall → Prop} {G : Mounted σ → FuseCall → Prop} {H : Mounted τ → FuseCall → Prop}
    (hcall : ∀ c c', P c c' →
      Related (fun m n => (G m c ∧ H n c') ∧ m.Agrees R n) (c.serve B) (c'.serve B')
        (fun r r' m n => r = r' ∧ m.Agrees R n) (Mounted.Agrees R))
    {calls calls' : List FuseCall} (hcalls : List.Forall₂ P calls calls') :
    Related (fun m n => ((mountSystem B).Along G calls m ∧ (mountSystem B').Along H calls' n) ∧ m.Agrees R n)
      (serveAll B calls) (serveAll B' calls') (fun rs rs' m n => rs = rs' ∧ m.Agrees R n) (Mounted.Agrees R) := by
  induction hcalls with
  | nil => exact Related.pure fun m n h => ⟨rfl, h.2⟩
  | @cons c c' calls calls' hc _ ih =>
    rintro m n ⟨⟨hG, hH⟩, hR⟩
    have hfirst := hcall c c' hc m n ⟨⟨hG.1, hH.1⟩, hR⟩
    rw [run_serveAll_cons, run_serveAll_cons]
    cases hm : (c.serve B).run m <;> cases hn : (c'.serve B').run n <;> rw [hm, hn] at hfirst
    case ok.ok reply m₁ reply' n₁ =>
      obtain ⟨rfl, hR₁⟩ := hfirst
      have hrest := ih m₁ n₁ ⟨⟨((mountSystem_along_cons hm).mp hG).2, ((mountSystem_along_cons hn).mp hH).2⟩, hR₁⟩
      dsimp only
      cases hms : (serveAll B calls).run m₁ <;> cases hns : (serveAll B' calls').run n₁ <;> rw [hms, hns] at hrest
      · exact ⟨congrArg (reply :: ·) hrest.1, hrest.2⟩
      · exact hrest
      · exact hrest
      · exact hrest
    case ok.error => exact hfirst.elim
    case error.ok => exact hfirst.elim
    case error.error => exact hfirst

/-- Over related backends a process answers its requests alike. -/
theorem BackendSimulation.serveAll {B : CallContext → StorageBackend σ} {B' : CallContext → StorageBackend τ}
    (h : ∀ ctx, BackendSimulation paths R (B ctx) (B' ctx)) {calls : List FuseCall}
    (hcalls : ∀ c ∈ calls, ∀ p ∈ c.request.paths, paths p) :
    Alike (Mounted.Agrees R) (serveAll B calls) (serveAll B' calls) := by
  have hpairs : List.Forall₂ (fun c c' : FuseCall => c = c' ∧ ∀ p ∈ c.request.paths, paths p) calls calls :=
    List.forall₂_same.mpr fun c hc => ⟨rfl, hcalls c hc⟩
  refine (serveAll_alike (G := fun _ _ => True) (H := fun _ _ => True) ?_ hpairs).conseq (fun m n hR => ?_)
    fun _ _ _ _ => id
  · rintro c _ ⟨rfl, hpaths⟩
    exact ((h c.ctx).serve (.refl c.ctx) hpaths).conseq (fun _ _ hR => hR.2) fun _ _ _ _ => id
  · exact ⟨⟨.of_forall (fun _ _ _ => trivial) m, .of_forall (fun _ _ _ => trivial) n⟩, hR⟩

end Runs
end MGFileSystem
