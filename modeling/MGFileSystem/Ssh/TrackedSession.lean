import MGFileSystem.Foundations.HandleLog
import MGFileSystem.Ssh.SshBackend

/-! The functions of `ssh_backend` that obtain handles, over a session that logs what
becomes of each handle. Attributes are handles here too. -/
namespace MGFileSystem
open HandleLog

/-- The libssh functions that take a handle and neither make nor free it. -/
inductive LibsshCall where
  | sshOptionsSet
  | sshConnect
  | sshUserauthPassword
  | sshUserauthPublickeyAuto
  | sshGetError
  | sshDisconnect
  | sshChannelNew
  | sshChannelOpenSession
  | sshChannelRequestExec
  | sshChannelRead
  | sshChannelSendEof
  | sshChannelClose
  | sftpNew
  | sftpInit
  | sftpGetError
  | sftpOpendir
  | sftpReaddir
  | sftpDirEof
  | sftpStat
  | sftpOpen
  | sftpSeek
  | sftpRead
  | sftpWrite
  | sftpChmod
  | sftpChown
  | sftpRename
  | sftpMkdir
  | sftpRmdir
  | sftpUnlink
  | sftpUtimes
  deriving DecidableEq, Repr

/-- What becomes of numbered handles. -/
abbrev CallLog := HandleLog LibsshCall Nat

/-- A session with the log of its handles. -/
structure Tracked (σ : Type) where
  session : σ
  log : CallLog

/-- What libssh returned as a handle, with the number of the handle. -/
structure Numbered (α : Type) where
  number : Nat
  value : α

/-- A number that no handle has yet. -/
def HandleLog.fresh : CallLog → Nat
  | [] => 0
  | .issue r :: log => max (r + 1) (fresh log)
  | .pass _ _ :: log | .release _ :: log => fresh log

theorem HandleLog.lt_fresh {log : CallLog} {r : Nat} (h : r ∈ issued log) : r < fresh log := by
  induction log with
  | nil => cases h
  | cons e log ih =>
    cases e with
    | issue r' =>
      rw [fresh]
      rcases List.mem_cons.mp h with rfl | h
      · omega
      · have hlt := ih h
        omega
    | pass | release => exact ih h

theorem HandleLog.fresh_not_mem (log : CallLog) : fresh log ∉ issued log :=
  fun h => Nat.lt_irrefl _ (lt_fresh h)

namespace Tracked
variable {σ α : Type}

/-- The outcome without the log. -/
def forget : EStateM.Result Fault (Tracked σ) α → EStateM.Result Fault σ α
  | .ok a t => .ok a t.session
  | .error e t => .error e t.session

def note (e : HandleEvent LibsshCall Nat) : Method (Tracked σ) Unit := modify fun t => { t with log := e :: t.log }

def onSession (call : σ → α × σ) : Method (Tracked σ) α :=
  modifyGet fun t => ((call t.session).1, { t with session := (call t.session).2 })

/-- A call that returns a handle, or a null pointer. -/
def issuing (call : σ → Option α × σ) : Method (Tracked σ) (Option (Numbered α)) := do
  match ← onSession call with
  | none => return none
  | some a =>
    let number := fresh (← get).log
    note (.issue number)
    return some ⟨number, a⟩

@[simp] theorem run_note (e : HandleEvent LibsshCall Nat) (t : Tracked σ) :
    (note e).run t = .ok () ⟨t.session, e :: t.log⟩ := rfl

@[simp] theorem run_onSession (call : σ → α × σ) (t : Tracked σ) :
    (onSession call).run t = .ok (call t.session).1 ⟨(call t.session).2, t.log⟩ := rfl

@[simp] theorem run_issuing (call : σ → Option α × σ) (t : Tracked σ) :
    (issuing call).run t = match (call t.session).1 with
      | none => .ok none ⟨(call t.session).2, t.log⟩
      | some a => .ok (some ⟨fresh t.log, a⟩) ⟨(call t.session).2, .issue (fresh t.log) :: t.log⟩ := by
  simp only [issuing, EStateM.run_bind, run_onSession]
  cases (call t.session).1 <;> rfl

section Libssh
variable (lib : Libssh σ)

def sftpOpendir (path : Bytes) : Method (Tracked σ) (Option (Numbered Nat)) := issuing (lib.sftpOpendir path)

def sftpReaddir (dir : Numbered Nat) : Method (Tracked σ) (Option (Numbered Bytes)) := do
  note (.pass .sftpReaddir (some dir.number))
  issuing (lib.sftpReaddir dir.value)

def sftpDirEof (dir : Numbered Nat) : Method (Tracked σ) Bool := do
  note (.pass .sftpDirEof (some dir.number))
  onSession (lib.sftpDirEof dir.value)

def sftpClosedir (dir : Numbered Nat) : Method (Tracked σ) Int := do
  note (.release (some dir.number))
  onSession (lib.sftpClosedir dir.value)

def sftpStat (path : Bytes) : Method (Tracked σ) (Option (Numbered Stat)) := issuing (lib.sftpStat path)

def sftpAttributesFree (attributes : Numbered α) : Method (Tracked σ) Unit := note (.release (some attributes.number))

def sftpOpen (path : Bytes) (flags : Nat) (mode : UInt32) : Method (Tracked σ) (Option (Numbered Nat)) :=
  issuing (lib.sftpOpen path flags mode)

def sftpSeek (file : Option (Numbered Nat)) (offset : UInt32) : Method (Tracked σ) Int := do
  note (.pass .sftpSeek (file.map (·.number)))
  onSession (lib.sftpSeek (file.map (·.value)) offset)

def sftpRead (file : Option (Numbered Nat)) (size : Nat) :
    Method (Tracked σ) (Option { b : Bytes // b.length ≤ size }) := do
  note (.pass .sftpRead (file.map (·.number)))
  onSession (lib.sftpRead (file.map (·.value)) size)

def sftpWrite (file : Option (Numbered Nat)) (data : Bytes) : Method (Tracked σ) (Option Nat) := do
  note (.pass .sftpWrite (file.map (·.number)))
  onSession (lib.sftpWrite (file.map (·.value)) data)

def sftpClose (file : Option (Numbered Nat)) : Method (Tracked σ) Int := do
  note (.release (file.map (·.number)))
  onSession (lib.sftpClose (file.map (·.value)))

end Libssh

section Functions
variable (lib : Libssh σ) (mountDir : Bytes)
open SshBackend (getFullPath)

/-- The loop over `sftp_readdir`, for a number of rounds. -/
def readEntries (dir : Numbered Nat) : Nat → Method (Tracked σ) (List Bytes)
  | 0 => throw .outOfRounds
  | rounds + 1 => do
    match ← sftpReaddir lib dir with
    | some file =>
      let name := cStr file.value
      sftpAttributesFree file
      return name :: (← readEntries dir rounds)
    | none => return []

def listFilesInDir (rounds : Nat) (path : CString) : Method (Tracked σ) (List Bytes) := do
  match ← sftpOpendir lib (getFullPath mountDir path) with
  | none => return []
  | some dir =>
    let names ← readEntries lib dir rounds
    if ← sftpDirEof lib dir then
      let _ ← sftpClosedir lib dir
    return names

def readFileContent (ctx : CallContext) (path : CString) (offset size : Nat) : Method (Tracked σ) Memory := do
  let theFile ← sftpOpen lib (getFullPath mountDir path) O_RDONLY 0
  let _ ← sftpSeek lib theFile (.ofNat offset)
  match ← sftpRead lib theFile size with
  | none => throw .badAlloc
  | some buffer =>
    let _ ← sftpClose lib theFile
    return buffer.val ++ ctx.afterBuffer

/-- The attributes of a path, which nothing frees. -/
def withAttributes (path : CString) (f : Option Stat → α) : Method (Tracked σ) α := do
  let attributes ← sftpStat lib (getFullPath mountDir path)
  return f (attributes.map (·.value))

def getAttributes (path : CString) (st : Stat) : Method (Tracked σ) Stat :=
  withAttributes lib mountDir path fun
    | none => st
    | some a => { a with nlink := 1 }

def fileExists (path : CString) : Method (Tracked σ) Bool := withAttributes lib mountDir path Option.isSome

def directoryExists (path : CString) : Method (Tracked σ) Bool := withAttributes lib mountDir path Option.isSome

def writeFileContent (path : CString) (data : Memory) (size offset : Nat) : Method (Tracked σ) Unit := do
  let theFile ← sftpOpen lib (getFullPath mountDir path) O_WRONLY 0
  let _ ← sftpSeek lib theFile (.ofNat offset)
  let _ ← sftpWrite lib theFile (load data 0 size)
  let _ ← sftpClose lib theFile

def createFile (path : CString) (newMode : UInt32) : Method (Tracked σ) Unit := do
  let newFile ← sftpOpen lib (getFullPath mountDir path) O_CREAT newMode
  let _ ← sftpClose lib newFile

end Functions

/-- Without its log the first method does what the second does. -/
def Erases (m : Method (Tracked σ) α) (m₀ : Method σ α) : Prop := ∀ t, forget (m.run t) = m₀.run t.session

namespace Erases
variable {β : Type} {m : Method (Tracked σ) α} {m₀ : Method σ α}

theorem pure (a : α) : Erases (σ := σ) (pure a) (pure a) := fun _ => rfl

theorem throw (e : Fault) : Erases (σ := σ) (α := α) (throw e) (throw e) := fun _ => rfl

theorem bind (h : Erases m m₀) {f : α → Method (Tracked σ) β} {f₀ : α → Method σ β}
    (hf : ∀ a, Erases (f a) (f₀ a)) :
    Erases (m >>= f) (m₀ >>= f₀) := by
  intro t
  rw [EStateM.run_bind, EStateM.run_bind, ← h t]
  cases m.run t with
  | ok a t' => exact hf a t'
  | error => rfl

theorem map (h : Erases m m₀) (f : α → β) : Erases (f <$> m) (f <$> m₀) := by
  rw [← bind_pure_comp, ← bind_pure_comp]
  exact h.bind fun a => .pure (f a)

theorem noted (e : HandleEvent LibsshCall Nat) (call : σ → α × σ) :
    Erases (do note e; onSession call) (sftp call) := fun _ => rfl

/-- A note before a method leaves no trace. -/
theorem after_note (h : Erases m m₀) (e : HandleEvent LibsshCall Nat) : Erases (do note e; m) m₀ :=
  fun t => h ⟨t.session, e :: t.log⟩

theorem bind_issuing {call : σ → Option α × σ} {f : Option (Numbered α) → Method (Tracked σ) β}
    {f₀ : Option α → Method σ β} (hf : ∀ h, Erases (f h) (f₀ (h.map (·.value)))) :
    Erases (issuing call >>= f) (sftp call >>= f₀) := by
  intro t
  rw [EStateM.run_bind, EStateM.run_bind, run_issuing, run_sftp]
  cases (call t.session).1 with
  | none => exact hf none _
  | some a => exact hf (some ⟨fresh t.log, a⟩) ⟨(call t.session).2, .issue (fresh t.log) :: t.log⟩

end Erases

section Functions
variable (lib : Libssh σ) (mountDir : Bytes)

theorem erases_readEntries (dir : Numbered Nat) (rounds : Nat) :
    Erases (readEntries lib dir rounds) (SshBackend.readEntries lib dir.value rounds) := by
  induction rounds with
  | zero => exact .throw _
  | succ rounds ih =>
    rw [readEntries, SshBackend.readEntries, sftpReaddir, bind_assoc]
    apply Erases.after_note
    apply Erases.bind_issuing
    rintro (_ | file)
    · exact .pure _
    · exact (ih.bind fun names => .pure _).after_note _

theorem erases_listFilesInDir (rounds : Nat) (path : CString) :
    Erases (listFilesInDir lib mountDir rounds path) (SshBackend.listFilesInDir lib mountDir rounds path) := by
  apply Erases.bind_issuing
  rintro (_ | dir)
  · exact .pure _
  · apply (erases_readEntries lib dir rounds).bind
    intro names
    apply (Erases.noted _ _).bind
    rintro (_ | _)
    · exact .pure _
    · exact (Erases.noted _ _).bind fun _ => .pure _

theorem erases_readFileContent (ctx : CallContext) (path : CString) (offset size : Nat) :
    Erases (readFileContent lib mountDir ctx path offset size)
      (SshBackend.readFileContent lib mountDir ctx path offset size) := by
  apply Erases.bind_issuing
  intro theFile
  apply (Erases.noted _ _).bind
  intro _
  apply (Erases.noted _ _).bind
  rintro (_ | buffer)
  · exact .throw _
  · exact (Erases.noted _ _).bind fun _ => .pure _

theorem erases_withAttributes (path : CString) (f : Option Stat → α) :
    Erases (withAttributes lib mountDir path f)
      (do return f (← sftp (lib.sftpStat (SshBackend.getFullPath mountDir path)))) :=
  Erases.bind_issuing fun _ => .pure _

theorem erases_getAttributes (path : CString) (st : Stat) :
    Erases (getAttributes lib mountDir path st) (SshBackend.getAttributes lib mountDir path st) := by
  apply Erases.bind_issuing
  rintro (_ | attributes)
  · exact .pure _
  · exact .pure _

theorem erases_writeFileContent (path : CString) (data : Memory) (size offset : Nat) :
    Erases (writeFileContent lib mountDir path data size offset)
      (SshBackend.writeFileContent lib mountDir path data size offset) := by
  apply Erases.bind_issuing
  intro theFile
  apply (Erases.noted _ _).bind
  intro _
  apply (Erases.noted _ _).bind
  intro _
  exact (Erases.noted _ _).bind fun _ => .pure _

theorem erases_createFile (path : CString) (newMode : UInt32) :
    Erases (createFile lib mountDir path newMode) (SshBackend.createFile lib mountDir path newMode) :=
  Erases.bind_issuing fun _ => (Erases.noted _ _).bind fun _ => .pure _

end Functions
end Tracked
end MGFileSystem
