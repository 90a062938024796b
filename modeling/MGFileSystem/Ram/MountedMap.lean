import MGFileSystem.Backend.Dispatch
import MGFileSystem.Foundations.SharedService
import MGFileSystem.Ram.Commutation

/-! The process that serves the kernel's requests from the in-memory backend, and beside it a file system that is only
a map from paths to objects. Listings are left out, which depend on the order of the vectors, and reads, which leave
their blocks and depend on what lies there. -/
namespace MGFileSystem
open FilesystemData

/-- The callback that makes the operation. -/
def Operation.fuseRequest : Operation → FuseRequest
  | create p mode => .create p.toCString mode
  | mkdir p mode => .mkdir p.toCString mode
  | unlink p => .unlink p.toCString
  | rename p q => .rename p.toCString q.toCString
  | write p buffer size offset => .write p.toCString buffer size offset
  | truncate p length => .truncate p.toCString length
  | chmod p mode => .chmod p.toCString mode
  | chown p user group => .chown p.toCString user group
  | utimens p access modification => .utimens p.toCString access modification

/-- What it returns. -/
def Operation.code : Operation → Int
  | write _ _ size _ => toCInt size
  | _ => 0

/-- A request that a map can answer. -/
inductive MapRequest where
  | change (op : Operation)
  | getattr (p : AbsPath) (st : Stat)
  | rmdir (p : AbsPath)
  | stub (callback : Stub)

structure MapCall where
  ctx : CallContext
  request : MapRequest

namespace MapCall

def fuseCall (c : MapCall) : FuseCall where
  ctx := c.ctx
  request := match c.request with
    | .change op => op.fuseRequest
    | .getattr p st => .getattr p.toCString st
    | .rmdir p => .rmdir p.toCString
    | .stub callback => .stub callback

/-- What the kernel checks before it passes a change on. -/
def Allowed (A : ObjectMap) (c : MapCall) : Prop :=
  match c.request with
  | .change op => op.GuardOn A
  | _ => True

/-- The reply of the map. -/
def reply (A : ObjectMap) (c : MapCall) : Reply :=
  match c.request with
  | .change op => .code op.code
  | .getattr p st =>
    .attributes (getattrAnswer c.ctx st p.bytes (A p)).1 (getattrAnswer c.ctx st p.bytes (A p)).2
  | .rmdir _ | .stub _ => .code 0

def effect (A : ObjectMap) (c : MapCall) : ObjectMap :=
  match c.request with
  | .change op => op.effect c.ctx A
  | _ => A

end MapCall

/-- The file system that is only a map. -/
def mapService : Service ObjectMap MapCall Reply where
  allowed := MapCall.Allowed
  reply := MapCall.reply
  next := MapCall.effect

theorem serve_fuseRequest (ctx : CallContext) (op : Operation) :
    op.fuseRequest.serve (filesystemData ctx) ctx = counted (op.perform ctx) := by
  cases op <;> rfl

/-- An operation that returns returns its code. -/
theorem Operation.code_eq {ctx : CallContext} {op : Operation} {s s' : FilesystemData} {code : Int}
    (h : (op.perform ctx).run s = .ok code s') : code = op.code := by
  have hreturn : ∀ {x : Method FilesystemData Unit} {n : Int}, (do x; return n).run s = .ok code s' → code = n := by
    intro x n hrun
    rw [EStateM.run_bind] at hrun
    cases hx : x.run s <;> rw [hx] at hrun <;> cases hrun
    rfl
  cases op <;> exact hreturn h

/-- One allowed request. -/
theorem MapCall.run_serve {s : FilesystemData} (h : ramSystem.Reachable s) {c : MapCall} (hc : c.Allowed s.objects)
    (m : Mounted FilesystemData) (hm : m.backend = s) :
    ∃ m', (c.fuseCall.serve filesystemData).run m = .ok (c.reply s.objects) m' ∧ ramSystem.Reachable m'.backend ∧
      m'.backend.objects = effect s.objects c := by
  subst hm
  obtain ⟨ctx, request⟩ := c
  have hw := wellFormed_of_reachable h
  cases request with
  | change op =>
    have hg : op.Guard ctx m.backend := hw.guard_iff.mpr hc
    obtain ⟨code, s', hrun, ht⟩ := hw.perform_guarded hg
    have hserve : (op.fuseRequest.serve (filesystemData ctx) ctx).run m =
        .ok (.code op.code) ⟨s', m.counter + 1, m.counter :: m.printed⟩ := by
      rw [serve_fuseRequest, run_counted, hrun, Operation.code_eq hrun]
    exact ⟨_, hserve, h.next (i := ⟨ctx, op⟩) hg (ramSystem_step hrun), ht.objects hw⟩
  | getattr p st =>
    have hrun : (mgGetattr (filesystemData ctx) ctx p.toCString st).run m.backend =
        .ok (getattrAnswer ctx st p.bytes (m.backend.objects p)) m.backend := by
      rw [run_mgGetattr p.ne_nil, objects_eq_ptrAt]
    refine ⟨m, ?_, h, rfl⟩
    simp only [FuseCall.serve, fuseCall, FuseRequest.serve, Method.run_map, run_onBackend, hrun]
    rfl
  | rmdir p => exact ⟨_, rfl, h, rfl⟩
  | stub callback => exact ⟨_, rfl, h, rfl⟩

/-- From every reachable state the process answers a run of allowed requests as the map does, and goes through
reachable states that stand for its maps. -/
theorem mounted_process_refines_map {calls : List MapCall} {s : FilesystemData} (h : ramSystem.Reachable s)
    (hc : mapService.AllAllowed calls s.objects) :
    ∃ m, (serveAll filesystemData (calls.map MapCall.fuseCall)).run (.start s) =
        .ok (mapService.answerAll calls s.objects).1 m ∧
      ramSystem.Reachable m.backend ∧ m.backend.objects = (mapService.answerAll calls s.objects).2 := by
  suffices hrun : ∀ m : Mounted FilesystemData, ramSystem.Reachable m.backend →
      mapService.AllAllowed calls m.backend.objects →
      ∃ m', (serveAll filesystemData (calls.map MapCall.fuseCall)).run m =
          .ok (mapService.answerAll calls m.backend.objects).1 m' ∧
        ramSystem.Reachable m'.backend ∧ m'.backend.objects = (mapService.answerAll calls m.backend.objects).2 from
    hrun (.start s) h hc
  clear h hc s
  induction calls with
  | nil => exact fun m hm _ => ⟨m, rfl, hm, rfl⟩
  | cons c calls ih =>
    rintro m hm ⟨hc, hrest⟩
    obtain ⟨m₁, hserve, hm₁, hobj⟩ := MapCall.run_serve hm hc m rfl
    obtain ⟨m₂, hrun, hm₂, hobj₂⟩ := ih m₁ hm₁ (hobj ▸ hrest)
    refine ⟨m₂, ?_, hm₂, ?_⟩
    · simp only [List.map_cons, run_serveAll_cons, hserve, hrun, Service.answerAll, hobj]
      rfl
    · rw [hobj₂, hobj]
      rfl

/-- A file made, written and looked at. -/
def notesCalls : List MapCall :=
  [⟨.plain, .change (.create notes 0o644)⟩, ⟨.plain, .change (.write notes (text "hello") 5 0)⟩,
    ⟨.plain, .getattr notes ⟨0, 0, 0, 0, 0, 0, 0⟩⟩, ⟨.plain, .change (.unlink notes)⟩,
    ⟨.plain, .getattr notes ⟨0, 0, 0, 0, 0, 0, 0⟩⟩]

theorem mounted_process_refines_map_notes :
    ∃ m, (serveAll filesystemData (notesCalls.map MapCall.fuseCall)).run (.start (init .plain)) =
        .ok [.code 0, .code 5, .attributes 0 ⟨0o644, 1, 5, 0, 0, 0, 0⟩, .code 0,
          .attributes (-ENOENT) ⟨0, 0, 0, 0, 0, 0, 0⟩] m ∧
      ramSystem.Reachable m.backend ∧ m.backend.objects = (mapService.answerAll notesCalls (init .plain).objects).2 :=
  @mounted_process_refines_map notesCalls _ (.start ⟨.plain, rfl⟩)
    ⟨⟨rfl, rfl⟩, rfl, trivial, rfl, trivial, trivial⟩

end MGFileSystem
