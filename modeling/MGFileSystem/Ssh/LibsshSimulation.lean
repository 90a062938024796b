import MGFileSystem.Backend.BackendSimulation
import MGFileSystem.Ssh.SshBackend

/-! Two sessions whose libssh calls keep a relation of their states. `ssh_backend` reaches the host through these
calls only, so over both of them its methods are answered alike. -/
namespace MGFileSystem
variable {σ τ α : Type}

/-- From related states both calls return the same value. What then holds of the states may depend on it. -/
def SameCall (P : σ → τ → Prop) (call : σ → α × σ) (call' : τ → α × τ) (Q : α → σ → τ → Prop) : Prop :=
  ∀ s t, P s t → (call s).1 = (call' t).1 ∧ Q (call s).1 (call s).2 (call' t).2

theorem SameCall.related {P X : σ → τ → Prop} {call : σ → α × σ} {call' : τ → α × τ} {Q : α → σ → τ → Prop}
    (h : SameCall P call call' Q) : Related P (sftp call) (sftp call') (fun a b s t => a = b ∧ Q a s t) X :=
  Related.modifyGet h

/-- Sessions that answer alike on the remote paths `paths`. While a file or a directory is open, more may hold than
the relation `R`. -/
structure LibsshSimulation (paths : Bytes → Prop) (R : σ → τ → Prop) (file : Option Nat → σ → τ → Prop)
    (dir : Nat → σ → τ → Prop) (lib : Libssh σ) (lib' : Libssh τ) : Prop where
  of_file : ∀ f s t, file f s t → R s t
  of_dir : ∀ d s t, dir d s t → R s t
  sftpOpendir : ∀ p, paths p → SameCall R (lib.sftpOpendir p) (lib'.sftpOpendir p) fun d s t =>
    R s t ∧ ∀ n, d = some n → dir n s t
  sftpReaddir : ∀ d, SameCall (dir d) (lib.sftpReaddir d) (lib'.sftpReaddir d) fun _ => dir d
  sftpDirEof : ∀ d, SameCall (dir d) (lib.sftpDirEof d) (lib'.sftpDirEof d) fun _ => dir d
  sftpClosedir : ∀ d, SameCall (dir d) (lib.sftpClosedir d) (lib'.sftpClosedir d) fun _ => R
  sftpStat : ∀ p, paths p → SameCall R (lib.sftpStat p) (lib'.sftpStat p) fun _ => R
  sftpOpen : ∀ p flags mode, paths p → SameCall R (lib.sftpOpen p flags mode) (lib'.sftpOpen p flags mode) file
  sftpSeek : ∀ f offset, SameCall (file f) (lib.sftpSeek f offset) (lib'.sftpSeek f offset) fun _ => file f
  sftpRead : ∀ f size, SameCall (file f) (lib.sftpRead f size) (lib'.sftpRead f size) fun _ => file f
  sftpWrite : ∀ f data, SameCall (file f) (lib.sftpWrite f data) (lib'.sftpWrite f data) fun _ => file f
  sftpClose : ∀ f, SameCall (file f) (lib.sftpClose f) (lib'.sftpClose f) fun _ => R
  sftpChmod : ∀ p mode, paths p → SameCall R (lib.sftpChmod p mode) (lib'.sftpChmod p mode) fun _ => R
  sftpChown : ∀ p user group, paths p →
    SameCall R (lib.sftpChown p user group) (lib'.sftpChown p user group) fun _ => R
  sftpRename : ∀ p q, paths p → paths q → SameCall R (lib.sftpRename p q) (lib'.sftpRename p q) fun _ => R
  sftpMkdir : ∀ p mode, paths p → SameCall R (lib.sftpMkdir p mode) (lib'.sftpMkdir p mode) fun _ => R
  sftpRmdir : ∀ p, paths p → SameCall R (lib.sftpRmdir p) (lib'.sftpRmdir p) fun _ => R
  sftpUnlink : ∀ p, paths p → SameCall R (lib.sftpUnlink p) (lib'.sftpUnlink p) fun _ => R
  sftpUtimes : ∀ p access modification, paths p →
    SameCall R (lib.sftpUtimes p access modification) (lib'.sftpUtimes p access modification) fun _ => R

namespace LibsshSimulation
variable {remote : Bytes → Prop} {R : σ → τ → Prop} {file : Option Nat → σ → τ → Prop} {dir : Nat → σ → τ → Prop}
  {lib : Libssh σ} {lib' : Libssh τ} (h : LibsshSimulation remote R file dir lib lib')
include h

theorem readEntries (d rounds : Nat) :
    Related (dir d) (SshBackend.readEntries lib d rounds) (SshBackend.readEntries lib' d rounds)
      (fun a b s t => a = b ∧ dir d s t) R := by
  induction rounds with
  | zero => exact Related.throw _ (h.of_dir d)
  | succ rounds ih =>
    apply (h.sftpReaddir d).related.bindSame
    rintro (_ | name)
    · exact Related.pure fun _ _ hd => ⟨rfl, hd⟩
    · exact ih.bindSame fun names => Related.pure fun _ _ hd => ⟨rfl, hd⟩

variable {mountDir : Bytes} {p : CString} (hp : remote (SshBackend.getFullPath mountDir p))
include hp

theorem listFilesInDir (rounds : Nat) : Alike R (SshBackend.listFilesInDir lib mountDir rounds p)
    (SshBackend.listFilesInDir lib' mountDir rounds p) := by
  apply (h.sftpOpendir _ hp).related.bindSame
  rintro (_ | d)
  · exact Related.pure fun _ _ hR => ⟨rfl, hR.1⟩
  · apply Related.conseq _ (fun _ _ hR => hR.2 d rfl) fun _ _ _ _ => id
    apply (h.readEntries d rounds).bindSame
    intro names
    apply (h.sftpDirEof d).related.bindSame
    rintro (_ | _)
    · exact Related.pure fun s t hd => ⟨rfl, h.of_dir d s t hd⟩
    · exact (h.sftpClosedir d).related.bindSame fun _ => Related.pure fun _ _ hR => ⟨rfl, hR⟩

theorem readFileContent (ctx : CallContext) (offset size : Nat) :
    Alike R (SshBackend.readFileContent lib mountDir ctx p offset size)
      (SshBackend.readFileContent lib' mountDir ctx p offset size) := by
  apply (h.sftpOpen _ _ _ hp).related.bindSame
  intro theFile
  apply (h.sftpSeek theFile _).related.bindSame
  intro _
  apply (h.sftpRead theFile size).related.bindSame
  rintro (_ | buffer)
  · exact Related.throw _ (h.of_file theFile)
  · exact (h.sftpClose theFile).related.bindSame fun _ => Related.pure fun _ _ hR => ⟨rfl, hR⟩

theorem writeFileContent (data : Memory) (size offset : Nat) :
    Alike R (SshBackend.writeFileContent lib mountDir p data size offset)
      (SshBackend.writeFileContent lib' mountDir p data size offset) := by
  apply (h.sftpOpen _ _ _ hp).related.bindSame
  intro theFile
  apply (h.sftpSeek theFile _).related.bindSame
  intro _
  apply (h.sftpWrite theFile _).related.bindSame
  intro _
  exact (h.sftpClose theFile).related.bindSame fun _ => Related.pure fun _ _ hR => ⟨rfl, hR⟩

theorem createFile (newMode : UInt32) :
    Alike R (SshBackend.createFile lib mountDir p newMode) (SshBackend.createFile lib' mountDir p newMode) := by
  apply (h.sftpOpen _ _ _ hp).related.bindSame
  intro newFile
  exact (h.sftpClose newFile).related.bindSame fun _ => Related.pure fun _ _ hR => ⟨rfl, hR⟩

theorem getAttributes (st : Stat) :
    Alike R (SshBackend.getAttributes lib mountDir p st) (SshBackend.getAttributes lib' mountDir p st) := by
  apply (h.sftpStat _ hp).related.bindSame
  rintro (_ | attributes)
  · exact Alike.pure _
  · exact Alike.pure _

end LibsshSimulation

/-- Over sessions that answer alike the backend is the same one. -/
theorem LibsshSimulation.overSsh {remote : Bytes → Prop} {R : σ → τ → Prop} {file : Option Nat → σ → τ → Prop}
    {dir : Nat → σ → τ → Prop} {lib : Libssh σ} {lib' : Libssh τ} (h : LibsshSimulation remote R file dir lib lib')
    (mountDir : Bytes) (rounds : Nat) (ctx : CallContext) :
    BackendSimulation (fun p => remote (SshBackend.getFullPath mountDir p)) R
      (sshBackend lib mountDir rounds ctx) (sshBackend lib' mountDir rounds ctx) where
  listFilesInDir _ hp := h.listFilesInDir hp rounds
  readFileContent _ offset size hp := h.readFileContent hp ctx offset size
  getAttributes _ st hp := h.getAttributes hp st
  fileExists _ hp := (h.sftpStat _ hp).related.bindSame fun _ => Alike.pure _
  directoryExists _ hp := (h.sftpStat _ hp).related.bindSame fun _ => Alike.pure _
  setFileMode _ mode hp := (h.sftpChmod _ mode hp).related.bindSame fun _ => Alike.pure _
  writeFileContent _ data size offset hp := h.writeFileContent hp data size offset
  renameFile _ _ hp hq := (h.sftpRename _ _ hp hq).related.bindSame fun _ => Alike.pure _
  createDirectory _ mode hp := (h.sftpMkdir _ mode hp).related.bindSame fun _ => Alike.pure _
  removeDirectory _ hp := (h.sftpRmdir _ hp).related.bindSame fun _ => Alike.pure _
  removeFile _ hp := (h.sftpUnlink _ hp).related.bindSame fun _ => Alike.pure _
  createFile _ mode hp := h.createFile hp mode
  setAccessAndModificationTimes _ _ _ hp := (h.sftpUtimes _ _ _ hp).related.bindSame fun _ => Alike.pure _
  truncateFile _ _ _ := Alike.pure _
  changeOwnership _ user group hp := (h.sftpChown _ user group hp).related.bindSame fun _ => Alike.pure _

/-- Over sessions that answer alike, the requests of one process have the same replies and leave related states. -/
theorem LibsshSimulation.requests {remote : Bytes → Prop} {R : σ → τ → Prop} {file : Option Nat → σ → τ → Prop}
    {dir : Nat → σ → τ → Prop} {lib : Libssh σ} {lib' : Libssh τ} (h : LibsshSimulation remote R file dir lib lib')
    (mountDir : Bytes) (rounds : Nat) {calls : List FuseCall}
    (hcalls : ∀ c ∈ calls, ∀ p ∈ c.request.paths, remote (SshBackend.getFullPath mountDir p)) :
    Alike (Mounted.Agrees R) (serveAll (sshBackend lib mountDir rounds) calls)
      (serveAll (sshBackend lib' mountDir rounds) calls) :=
  BackendSimulation.serveAll (h.overSsh mountDir rounds) hcalls

end MGFileSystem
