import MGFileSystem.Backend.Callbacks
import MGFileSystem.Foundations.GuardedSystem

/-! The callbacks that `mg_fuse_operations` registers, in the process that holds the backend and the
global `counter`. Fourteen of them only count themselves. -/
namespace MGFileSystem

/-- The registered callbacks without a body of their own. -/
inductive Stub where
  | mgMknod
  | mgReadlink
  | mgSymlink
  | mgOpen
  | mgFlush
  | mgRelease
  | mgFsync
  | mgSetxattr
  | mgGetxattr
  | mgListxattr
  | mgRemovexattr
  | mgOpendir
  | mgReleasedir
  | mgFsyncdir
  deriving DecidableEq, Repr

/-- A request of the kernel, with the arguments that its callback uses. -/
inductive FuseRequest where
  | getattr (path : CString) (st : Stat)
  | readdir (path : CString)
  | read (path : CString) (buffer : Bytes) (size offset : Nat)
  | write (path : CString) (buffer : Memory) (size offset : Nat)
  | chmod (path : CString) (mode : UInt32)
  | chown (path : CString) (user group : UInt32)
  | mkdir (path : CString) (mode : UInt32)
  | rename (path newName : CString)
  | truncate (path : CString) (length : Nat)
  | unlink (path : CString)
  | create (path : CString) (mode : UInt32)
  | utimens (path : CString) (access modification : Timespec)
  | rmdir (path : CString)
  | stub (callback : Stub)

/-- What a callback returns, with what it leaves in the memory that the kernel gave it. -/
inductive Reply where
  | code (code : Int)
  | attributes (code : Int) (st : Stat)
  | names (code : Int) (names : List Bytes)
  | data (code : Int) (buffer : Bytes)
  deriving DecidableEq, Repr

/-- The process: the object behind `mg_filesystem_data`, `counter`, and the op-counts printed, the last one first. -/
structure Mounted (σ : Type) where
  backend : σ
  counter : Int32
  printed : List Int32

variable {σ : Type}

def Mounted.start (backend : σ) : Mounted σ := ⟨backend, 0, []⟩

/-- A call of the backend. -/
def onBackend {α : Type} (x : Method σ α) : Method (Mounted σ) α := fun m =>
  match x.run m.backend with
  | .ok a s => .ok a { m with backend := s }
  | .error e s => .error e { m with backend := s }

/-- `printf("op-count : %d \n", counter); counter++;`. Past 2147483647, where C++ leaves it undefined, the `int`
wraps. -/
def countOp : Method (Mounted σ) Unit :=
  modify fun m => { m with counter := m.counter + 1, printed := m.counter :: m.printed }

/-- A callback that counts itself before it returns. -/
def counted (x : Method σ Int) : Method (Mounted σ) Reply := do
  let code ← onBackend x
  countOp
  return .code code

def Stub.perform (_callback : Stub) : Method (Mounted σ) Reply := counted (pure 0)

namespace FuseRequest

def serve (B : StorageBackend σ) (ctx : CallContext) : FuseRequest → Method (Mounted σ) Reply
  | getattr path st => (fun r => .attributes r.1 r.2) <$> onBackend (mgGetattr B ctx path st)
  | readdir path => (fun r => .names r.1 r.2) <$> onBackend (mgReaddir B path)
  | read path buffer size offset => (fun r => .data r.1 r.2) <$> onBackend (mgRead B path buffer size offset)
  | write path buffer size offset => counted (mgWrite B path buffer size offset)
  | chmod path mode => counted (mgChmod B path mode)
  | chown path user group => counted (mgChown B path user group)
  | mkdir path mode => counted (mgMkdir B path mode)
  | rename path newName => counted (mgRename B path newName)
  | truncate path length => counted (mgTruncate B path length)
  | unlink path => counted (mgUnlink B path)
  | create path mode => counted (mgCreate B path mode)
  | utimens path access modification => counted (mgUtimens B path access modification)
  | rmdir path => counted (mgRmdir B path)
  | stub callback => callback.perform

/-- The path arguments. -/
def paths : FuseRequest → List CString
  | getattr p _ | readdir p | read p _ _ _ | write p _ _ _ | chmod p _ | chown p _ _ | mkdir p _ | truncate p _
  | unlink p | create p _ | utimens p _ _ | rmdir p => [p]
  | rename p q => [p, q]
  | stub _ => []

def IsStub : FuseRequest → Prop
  | stub _ => True
  | _ => False

instance : DecidablePred IsStub := fun r => by
  cases r <;> first | exact .isTrue trivial | exact .isFalse id

/-- All callbacks but three count themselves. -/
def Counted : FuseRequest → Prop
  | getattr .. | readdir .. | read .. => False
  | _ => True

instance : DecidablePred Counted := fun r => by
  cases r <;> first | exact .isTrue trivial | exact .isFalse id

end FuseRequest

structure FuseCall where
  ctx : CallContext
  request : FuseRequest

/-- The backend may be bound to the context of each call. -/
def FuseCall.serve (B : CallContext → StorageBackend σ) (c : FuseCall) : Method (Mounted σ) Reply :=
  c.request.serve (B c.ctx) c.ctx

/-- The requests that `fuse_main` passes on, one after the other, up to the first whose callback does not return. -/
def serveAll (B : CallContext → StorageBackend σ) : List FuseCall → Method (Mounted σ) (List Reply)
  | [] => return []
  | c :: calls => do
    let reply ← c.serve B
    return reply :: (← serveAll B calls)

theorem run_onBackend {α : Type} (x : Method σ α) (m : Mounted σ) :
    (onBackend x).run m = match x.run m.backend with
      | .ok a s => .ok a { m with backend := s }
      | .error e s => .error e { m with backend := s } := rfl

theorem run_counted (x : Method σ Int) (m : Mounted σ) :
    (counted x).run m = match x.run m.backend with
      | .ok code s => .ok (.code code) ⟨s, m.counter + 1, m.counter :: m.printed⟩
      | .error e s => .error e { m with backend := s } := by
  rw [counted, EStateM.run_bind, run_onBackend]
  cases x.run m.backend <;> rfl

theorem run_serveAll_cons (B : CallContext → StorageBackend σ) (c : FuseCall) (calls : List FuseCall) (m : Mounted σ) :
    (serveAll B (c :: calls)).run m = match (c.serve B).run m with
      | .error e m' => .error e m'
      | .ok reply m' => match (serveAll B calls).run m' with
        | .error e m'' => .error e m''
        | .ok replies m'' => .ok (reply :: replies) m'' := by
  rw [serveAll, EStateM.run_bind]
  cases (c.serve B).run m with
  | error => rfl
  | ok reply m' =>
    simp only [EStateM.run_bind]
    cases (serveAll B calls).run m' <;> rfl

/-- The mounted process as a system whose steps are the requests. -/
def mountSystem (B : CallContext → StorageBackend σ) : GuardedSystem (Mounted σ) FuseCall where
  initial _ := True
  guard _ _ := True
  step c m := match (c.serve B).run m with
    | .ok _ m' => some m'
    | .error _ _ => none

theorem mountSystem_along_cons {B : CallContext → StorageBackend σ} {P : Mounted σ → FuseCall → Prop} {c : FuseCall}
    {calls : List FuseCall} {m m' : Mounted σ} {reply : Reply} (hrun : (c.serve B).run m = .ok reply m') :
    (mountSystem B).Along P (c :: calls) m ↔ P m c ∧ (mountSystem B).Along P calls m' := by
  have hstep : (mountSystem B).step c m = some m' := by simp only [mountSystem, hrun]
  rw [GuardedSystem.Along, hstep]
  simp only [Option.some.injEq, forall_eq']

section Endings
variable {B : CallContext → StorageBackend σ} {I : Mounted σ → Prop} {G C : Mounted σ → FuseCall → Prop}
  {F : Mounted σ → FuseCall → Fault}

/-- How a run ends: with all its calls, where each meets the condition, or in the fault of the first that does not. -/
theorem serveAll_ends (hok : ∀ m c, I m → G m c → C m c → ∃ reply m', (c.serve B).run m = .ok reply m' ∧ I m')
    (herror : ∀ m c, I m → G m c → ¬ C m c → ∃ m', (c.serve B).run m = .error (F m c) m') {calls : List FuseCall}
    {m : Mounted σ} (hG : (mountSystem B).Along G calls m) (hI : I m) :
    ((mountSystem B).Along C calls m ∧ ∃ replies m', (serveAll B calls).run m = .ok replies m' ∧ I m') ∨
    (¬ (mountSystem B).Along C calls m ∧ ∃ before c after replies m' m'', calls = before ++ c :: after ∧
      (serveAll B before).run m = .ok replies m' ∧ ¬ C m' c ∧ (serveAll B calls).run m = .error (F m' c) m'') := by
  induction calls generalizing m with
  | nil => exact .inl ⟨trivial, [], m, rfl, hI⟩
  | cons c calls ih =>
    have hGc := hG.1
    by_cases hC : C m c
    · obtain ⟨reply, m₁, hrun, hI₁⟩ := hok m c hI hGc hC
      rcases ih ((mountSystem_along_cons hrun).mp hG).2 hI₁ with
        ⟨hrest, replies, m₂, hrun₂, hI₂⟩ | ⟨hrest, before, d, after, replies, m₂, m₃, rfl, hbefore, hd, hrun₂⟩
      · refine .inl ⟨(mountSystem_along_cons hrun).mpr ⟨hC, hrest⟩, reply :: replies, m₂, ?_, hI₂⟩
        simp only [run_serveAll_cons, hrun, hrun₂]
      · have halong : ¬ (mountSystem B).Along C (c :: (before ++ d :: after)) m := fun h =>
          hrest ((mountSystem_along_cons hrun).mp h).2
        refine .inr ⟨halong, c :: before, d, after, reply :: replies, m₂, m₃, rfl, ?_, hd, ?_⟩
        · simp only [run_serveAll_cons, hrun, hbefore]
        · simp only [run_serveAll_cons, hrun, hrun₂]
    · obtain ⟨m', hrun⟩ := herror m c hI hGc hC
      refine .inr ⟨fun h => hC h.1, [], c, calls, [], m, m', rfl, rfl, hC, ?_⟩
      simp only [run_serveAll_cons, hrun]

end Endings
end MGFileSystem
