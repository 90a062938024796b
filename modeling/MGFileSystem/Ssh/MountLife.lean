import MGFileSystem.Mount.SshArgument
import MGFileSystem.Ssh.BackendAgreement
import MGFileSystem.Ssh.Connection
import MGFileSystem.Ssh.LibsshSimulation

/-! An ssh mount from its argument to its end: `main` makes the connection, `fuse_main` serves the requests of the
kernel through it, and `clean_up` gives it up. -/
namespace MGFileSystem
open HandleLog Tracked
variable {σ α : Type}

namespace Tracked

/-- A libssh call with the handle among its arguments. -/
def passing (name : LibsshCall) (h : Option Nat) (call : σ → α × σ) (t : Tracked σ) : α × Tracked σ :=
  ((call t.session).1, ⟨(call t.session).2, .pass name h :: t.log⟩)

/-- A libssh call without it. -/
def apart (call : σ → α × σ) (t : Tracked σ) : α × Tracked σ :=
  ((call t.session).1, { t with session := (call t.session).2 })

end Tracked

/-- The libssh calls as the backend makes them, with its `_sftp_session`. Those on an open file or directory take the
handle of that instead, but for `sftp_readdir`. -/
def Libssh.overSession (lib : Libssh σ) (sftpSession : Option Nat) : Libssh (Tracked σ) where
  sftpOpendir path := passing .sftpOpendir sftpSession (lib.sftpOpendir path)
  sftpReaddir dir := passing .sftpReaddir sftpSession (lib.sftpReaddir dir)
  sftpDirEof dir := apart (lib.sftpDirEof dir)
  sftpClosedir dir := apart (lib.sftpClosedir dir)
  sftpStat path := passing .sftpStat sftpSession (lib.sftpStat path)
  sftpOpen path flags mode := passing .sftpOpen sftpSession (lib.sftpOpen path flags mode)
  sftpSeek file offset := apart (lib.sftpSeek file offset)
  sftpRead file size := apart (lib.sftpRead file size)
  sftpWrite file data := apart (lib.sftpWrite file data)
  sftpClose file := apart (lib.sftpClose file)
  sftpChmod path mode := passing .sftpChmod sftpSession (lib.sftpChmod path mode)
  sftpChown path user group := passing .sftpChown sftpSession (lib.sftpChown path user group)
  sftpRename path newPath := passing .sftpRename sftpSession (lib.sftpRename path newPath)
  sftpMkdir path mode := passing .sftpMkdir sftpSession (lib.sftpMkdir path mode)
  sftpRmdir path := passing .sftpRmdir sftpSession (lib.sftpRmdir path)
  sftpUnlink path := passing .sftpUnlink sftpSession (lib.sftpUnlink path)
  sftpUtimes path access modification := passing .sftpUtimes sftpSession (lib.sftpUtimes path access modification)

/-- `fuse_main`, which returns when the file system is unmounted. -/
def fuseMain (B : CallContext → StorageBackend σ) (calls : List FuseCall) : Program σ (List Reply) := fun s =>
  match (serveAll B calls).run (.start s) with
  | .ok replies m => .ok replies m.backend
  | .error f m => .error (.fault f) m.backend

section Main
variable (lib : Libssh σ) (net : Bytes → Bytes → SftpDialing) (rounds : Nat) (sshDir : StdString) (authMethod : Bytes)
  (calls : List FuseCall)

/-- The branches of `main` for the backend "ssh". The user and the address decide how libssh behaves. -/
def mainSsh : Program (Tracked σ) (List Reply) := do
  match parseSshDir sshDir with
  | .error (.thrown f) => throw (.fault f)
  | .error _ => throw (.exit (-1))
  | .ok address =>
    let sessions ← SshBackend.establishSshConnection (net address.remoteUser address.ipAddr) authMethod
    let replies ← fuseMain (sshBackend (lib.overSession sessions.sftpSession) address.remoteDir rounds) calls
    SshBackend.cleanUp sessions
    return replies

/-- The argument names this address, and a connection to it is made. -/
def Connected (address : RemoteAddress) : Prop :=
  parseSshDir sshDir = .ok address ∧ (net address.remoteUser address.ipAddr).Connects authMethod

end Main

section Requests
variable {lib : Libssh σ} {sftpSession : Option Nat} {I : CallLog → Prop}

variable (lib sftpSession) in
/-- The session makes no difference to what the host does, and a fact that survives its use holds to the end. -/
theorem simulation_overSession (hI : ∀ call log, I log → I (.pass call sftpSession :: log)) :
    LibsshSimulation (fun _ => True) (fun t s => t.session = s ∧ I t.log) (fun _ t s => t.session = s ∧ I t.log)
      (fun _ t s => t.session = s ∧ I t.log) (lib.overSession sftpSession) lib := by
  have hpassing : ∀ {α : Type} (name : LibsshCall) (call : σ → α × σ), SameCall (fun t s => t.session = s ∧ I t.log)
      (passing name sftpSession call) call fun _ t s => t.session = s ∧ I t.log := by
    rintro α name call t s ⟨rfl, hlog⟩
    exact ⟨rfl, rfl, hI _ _ hlog⟩
  have hapart : ∀ {α : Type} (call : σ → α × σ), SameCall (fun t s => t.session = s ∧ I t.log)
      (apart call) call fun _ t s => t.session = s ∧ I t.log := by
    rintro α call t s ⟨rfl, hlog⟩
    exact ⟨rfl, rfl, hlog⟩
  exact {
    of_file := fun _ _ _ => id
    of_dir := fun _ _ _ => id
    sftpOpendir := fun p _ t s hR => by
      have hcall := hpassing .sftpOpendir (lib.sftpOpendir p) t s hR
      exact ⟨hcall.1, hcall.2, fun _ _ => hcall.2⟩
    sftpReaddir := fun _ => hpassing _ _
    sftpDirEof := fun _ => hapart _
    sftpClosedir := fun _ => hapart _
    sftpStat := fun _ _ => hpassing _ _
    sftpOpen := fun _ _ _ _ => hpassing _ _
    sftpSeek := fun _ _ => hapart _
    sftpRead := fun _ _ => hapart _
    sftpWrite := fun _ _ => hapart _
    sftpClose := fun _ => hapart _
    sftpChmod := fun _ _ _ => hpassing _ _
    sftpChown := fun _ _ _ _ => hpassing _ _
    sftpRename := fun _ _ _ _ => hpassing _ _
    sftpMkdir := fun _ _ _ => hpassing _ _
    sftpRmdir := fun _ _ => hpassing _ _
    sftpUnlink := fun _ _ => hpassing _ _
    sftpUtimes := fun _ _ _ _ => hpassing _ _ }

theorem run_fuseMain (B : CallContext → StorageBackend σ) (calls : List FuseCall) (s : σ) :
    (fuseMain B calls).run s = match (serveAll B calls).run (.start s) with
      | .ok replies m => .ok replies m.backend
      | .error f m => .error (.fault f) m.backend := rfl

variable (lib sftpSession) in
/-- The requests are served as they would be without the log. -/
theorem run_fuseMain_overSession (hI : ∀ call log, I log → I (.pass call sftpSession :: log)) (mountDir : Bytes)
    (rounds : Nat) (calls : List FuseCall) {t : Tracked σ} (ht : I t.log) :
    ∃ log', I log' ∧ (fuseMain (sshBackend (lib.overSession sftpSession) mountDir rounds) calls).run t =
      match (serveAll (sshBackend lib mountDir rounds) calls).run (.start t.session) with
      | .ok replies m => .ok replies ⟨m.backend, log'⟩
      | .error f m => .error (.fault f) ⟨m.backend, log'⟩ := by
  have halike := (simulation_overSession lib sftpSession hI).requests mountDir rounds
    (fun c (_ : c ∈ calls) _ _ => trivial) (.start t) (.start t.session) ⟨⟨rfl, ht⟩, rfl, rfl⟩
  rw [run_fuseMain]
  cases hs : (serveAll (sshBackend (lib.overSession sftpSession) mountDir rounds) calls).run (.start t) with
  | ok replies m =>
    cases hs' : (serveAll (sshBackend lib mountDir rounds) calls).run (.start t.session) with
    | ok replies' m' =>
      rw [hs, hs'] at halike
      obtain ⟨rfl, ⟨hsession, hI'⟩, -⟩ := halike
      refine ⟨m.backend.log, hI', ?_⟩
      dsimp only
      rw [← hsession]
    | error =>
      rw [hs, hs'] at halike
      exact halike.elim
  | error f m =>
    cases hs' : (serveAll (sshBackend lib mountDir rounds) calls).run (.start t.session) with
    | ok =>
      rw [hs, hs'] at halike
      exact halike.elim
    | error f' m' =>
      rw [hs, hs'] at halike
      obtain ⟨rfl, ⟨hsession, hI'⟩, -⟩ := halike
      refine ⟨m.backend.log, hI', ?_⟩
      dsimp only
      rw [← hsession]

end Requests

theorem run_cleanUp {sftp ssh : Nat} {t : Tracked σ} (ht : Owes [sftp, ssh] t.log) :
    ∃ log', (SshBackend.cleanUp ⟨some ssh, some sftp⟩).run t = .ok () ⟨t.session, log'⟩ ∧ Owes [] log' :=
  ⟨_, rfl, (ht.release.pass _ List.mem_cons_self).release⟩

/-- No clean-up makes up for a misuse. -/
theorem run_cleanUp_misused (sessions : SshBackend.Sessions) {t : Tracked σ} (ht : ¬ WellUsed t.log) :
    ∃ log', (SshBackend.cleanUp sessions).run t = .ok () ⟨t.session, log'⟩ ∧ ¬ WellUsed log' := by
  obtain ⟨_ | ssh, _ | sftp⟩ := sessions
  · exact ⟨_, rfl, ht⟩
  · exact ⟨_, rfl, fun h => ht h.2⟩
  · exact ⟨_, rfl, fun h => ht h.2.2⟩
  · exact ⟨_, rfl, fun h => ht h.2.2.2⟩

section Main
variable {lib : Libssh σ} {net : Bytes → Bytes → SftpDialing} {rounds : Nat} {sshDir : StdString} {authMethod : Bytes}
  {calls : List FuseCall} {address : RemoteAddress} {host : σ}

theorem parseSshDir_ne_thrown (s : StdString) (f : Fault) : parseSshDir s ≠ .error (.thrown f) := by
  by_cases h : s.bytes = []
  · have hsize : s.size = 0 := by rw [StdString.size, h]; rfl
    rw [parseSshDir, if_pos hsize]
    intro he
    cases he
  · rw [parseSshDir_eq h]
    intro he
    split at he <;> cases he

variable (lib rounds calls host) in
/-- Without a connection no request is served. -/
theorem run_mainSsh_refused (h : ∀ address, ¬ Connected net sshDir authMethod address) :
    ∃ log', (mainSsh lib net rounds sshDir authMethod calls).run ⟨host, []⟩ = .error (.exit (-1)) ⟨host, log'⟩ ∧
      WellUsed log' := by
  rw [mainSsh]
  cases hparse : parseSshDir sshDir with
  | error failure =>
    cases failure with
    | missing | bad => exact ⟨[], rfl, trivial⟩
    | thrown f => exact absurd hparse (parseSshDir_ne_thrown sshDir f)
  | ok address =>
    obtain ⟨log', hrun, hused⟩ := (SshBackend.run_establishSshConnection (t := ⟨host, []⟩) owes_start).1
      fun hconnects => h address ⟨hparse, hconnects⟩
    refine ⟨log', ?_, hused⟩
    dsimp only
    rw [EStateM.run_bind, hrun]

/-- With a connection the requests are served after the sftp session was started, or not. -/
theorem run_mainSsh_connected (h : Connected net sshDir authMethod address) {sessions : SshBackend.Sessions}
    {ssh : Nat} {log : CallLog}
    (hestablish :
      (SshBackend.establishSshConnection (net address.remoteUser address.ipAddr) authMethod).run ⟨host, []⟩ =
      (SshBackend.startSftpSession (net address.remoteUser address.ipAddr) ssh).run ⟨host, log⟩)
    {log' : CallLog} (hstart : (SshBackend.startSftpSession (net address.remoteUser address.ipAddr) ssh).run
      ⟨host, log⟩ = .ok sessions ⟨host, log'⟩) :
    (mainSsh lib net rounds sshDir authMethod calls).run ⟨host, []⟩ = (do
      let replies ← fuseMain (sshBackend (lib.overSession sessions.sftpSession) address.remoteDir rounds) calls
      SshBackend.cleanUp sessions
      return replies).run ⟨host, log'⟩ := by
  rw [mainSsh, h.1]
  dsimp only
  rw [EStateM.run_bind, hestablish, hstart]

variable (lib rounds calls host) in
/-- With a started sftp session the requests are served, and a mount that returns has released both sessions. -/
theorem run_mainSsh_started (h : Connected net sshDir authMethod address)
    (hstarts : (net address.remoteUser address.ipAddr).Starts) :
    match (serveAll (sshBackend lib address.remoteDir rounds) calls).run (.start host) with
    | .ok replies m => ∃ log',
      (mainSsh lib net rounds sshDir authMethod calls).run ⟨host, []⟩ = .ok replies ⟨m.backend, log'⟩ ∧ Owes [] log'
    | .error f m => ∃ log',
      (mainSsh lib net rounds sshDir authMethod calls).run ⟨host, []⟩ = .error (.fault f) ⟨m.backend, log'⟩ ∧
        WellUsed log' := by
  obtain ⟨ssh, log₁, hestablish, howes⟩ :=
    (SshBackend.run_establishSshConnection (t := ⟨host, []⟩) owes_start).2 h.2
  obtain ⟨sessions, log₂, hstart, hsessions, -⟩ := SshBackend.run_startSftpSession (t := ⟨host, log₁⟩) howes
  obtain ⟨sftp, rfl, howes⟩ := hsessions hstarts
  obtain ⟨log₃, howes, hserve⟩ := run_fuseMain_overSession lib (some sftp)
    (I := Owes [sftp, ssh]) (fun _ _ hlog => hlog.pass _ List.mem_cons_self) address.remoteDir rounds calls
    (t := ⟨host, log₂⟩) howes
  rw [run_mainSsh_connected h hestablish hstart, EStateM.run_bind, hserve]
  cases (serveAll (sshBackend lib address.remoteDir rounds) calls).run (.start host) with
  | ok replies m =>
    obtain ⟨log₄, hclean, hdone⟩ := run_cleanUp (t := ⟨m.backend, log₃⟩) howes
    refine ⟨log₄, ?_, hdone⟩
    dsimp only
    rw [EStateM.run_bind, hclean]
    rfl
  | error f m => exact ⟨log₃, rfl, howes.wellUsed⟩

variable (lib rounds calls host) in
/-- Without one `main` goes on, and the misuse has already happened when the first request comes. -/
theorem run_mainSsh_not_started (h : Connected net sshDir authMethod address)
    (hfails : ¬ (net address.remoteUser address.ipAddr).Starts) :
    ∃ sessions log, (SshBackend.establishSshConnection (net address.remoteUser address.ipAddr) authMethod).run
        ⟨host, []⟩ = .ok sessions ⟨host, log⟩ ∧
      ¬ WellUsed log ∧
      (mainSsh lib net rounds sshDir authMethod calls).run ⟨host, []⟩ = (do
        let replies ← fuseMain (sshBackend (lib.overSession sessions.sftpSession) address.remoteDir rounds) calls
        SshBackend.cleanUp sessions
        return replies).run ⟨host, log⟩ := by
  obtain ⟨ssh, log₁, hestablish, howes⟩ :=
    (SshBackend.run_establishSshConnection (t := ⟨host, []⟩) owes_start).2 h.2
  obtain ⟨sessions, log₂, hstart, -, hmisused⟩ := SshBackend.run_startSftpSession (t := ⟨host, log₁⟩) howes
  exact ⟨sessions, log₂, hestablish.trans hstart, hmisused hfails, run_mainSsh_connected h hestablish hstart⟩

/-- The misuse stays in the log. -/
theorem run_mainSsh_misused {sessions : SshBackend.Sessions} {mountDir : Bytes} {log : CallLog}
    (hlog : ¬ WellUsed log)
    (hmain : (mainSsh lib net rounds sshDir authMethod calls).run ⟨host, []⟩ = (do
      let replies ← fuseMain (sshBackend (lib.overSession sessions.sftpSession) mountDir rounds) calls
      SshBackend.cleanUp sessions
      return replies).run ⟨host, log⟩) :
    ¬ WellUsed ((mainSsh lib net rounds sshDir authMethod calls).left ⟨host, []⟩).log := by
  obtain ⟨log', hmisused, hserve⟩ := run_fuseMain_overSession lib sessions.sftpSession
    (I := fun log => ¬ WellUsed log) (fun _ _ hlog hw => hlog hw.2) mountDir rounds calls (t := ⟨host, log⟩) hlog
  rw [Program.left, hmain, EStateM.run_bind, hserve]
  cases (serveAll (sshBackend lib mountDir rounds) calls).run (.start host) with
  | ok replies m =>
    obtain ⟨log', hclean, hmisused⟩ := run_cleanUp_misused sessions (t := ⟨m.backend, log'⟩) hmisused
    dsimp only
    rw [EStateM.run_bind, hclean]
    exact hmisused
  | error f m => exact hmisused

end Main

/-- Whatever libssh and the host do, a mount has one of three lives. Without a connection it exits before any request.
With a connection on which the sftp session does not start it uses a session that is null or freed, and goes on to the
requests and to `clean_up` all the same. With both it serves the requests as the backend does, and has released each
session once when it returns. -/
theorem ssh_mount_life (lib : Libssh σ) (net : Bytes → Bytes → SftpDialing) (rounds : Nat) (sshDir : StdString)
    (authMethod : Bytes) (calls : List FuseCall) (host : σ) :
    ((∀ address, ¬ Connected net sshDir authMethod address) →
      ∃ t, (mainSsh lib net rounds sshDir authMethod calls).run ⟨host, []⟩ = .error (.exit (-1)) t ∧
        t.session = host ∧ WellUsed t.log) ∧
    ∀ address, Connected net sshDir authMethod address →
      (¬ (net address.remoteUser address.ipAddr).Starts →
        ¬ WellUsed ((mainSsh lib net rounds sshDir authMethod calls).left ⟨host, []⟩).log ∧
        ∃ sessions t, (SshBackend.establishSshConnection (net address.remoteUser address.ipAddr) authMethod).run
            ⟨host, []⟩ = .ok sessions t ∧
          t.session = host ∧ ¬ WellUsed t.log ∧
          (mainSsh lib net rounds sshDir authMethod calls).run ⟨host, []⟩ = (do
            let replies ← fuseMain (sshBackend (lib.overSession sessions.sftpSession) address.remoteDir rounds) calls
            SshBackend.cleanUp sessions
            return replies).run t) ∧
      ((net address.remoteUser address.ipAddr).Starts →
        match (serveAll (sshBackend lib address.remoteDir rounds) calls).run (.start host) with
        | .ok replies m => ∃ t, (mainSsh lib net rounds sshDir authMethod calls).run ⟨host, []⟩ = .ok replies t ∧
            t.session = m.backend ∧ WellUsed t.log ∧ ReleasedOnce t.log
        | .error f m => ∃ t, (mainSsh lib net rounds sshDir authMethod calls).run ⟨host, []⟩ = .error (.fault f) t ∧
            t.session = m.backend ∧ WellUsed t.log) := by
  refine ⟨fun h => ?_, fun address h => ⟨fun hfails => ?_, fun hstarts => ?_⟩⟩
  · obtain ⟨log', hrun, hused⟩ := run_mainSsh_refused lib rounds calls host h
    exact ⟨_, hrun, rfl, hused⟩
  · obtain ⟨sessions, log, hestablish, hlog, hmain⟩ := run_mainSsh_not_started lib rounds calls host h hfails
    exact ⟨run_mainSsh_misused hlog hmain, sessions, _, hestablish, rfl, hlog, hmain⟩
  · have hlife := run_mainSsh_started lib rounds calls host h hstarts
    cases hserve : (serveAll (sshBackend lib address.remoteDir rounds) calls).run (.start host) with
    | ok replies m =>
      rw [hserve] at hlife
      obtain ⟨log', hrun, howes⟩ := hlife
      exact ⟨_, hrun, rfl, owes_nil.mp howes⟩
    | error f m =>
      rw [hserve] at hlife
      obtain ⟨log', hrun, hused⟩ := hlife
      exact ⟨_, hrun, rfl, hused⟩

/-- A network on which every connection is made. -/
def openNet (_remoteUser _ipAddr : Bytes) : SftpDialing where
  sshNew := true
  sshConnect := SSH_OK
  userauthPassword := SSH_OK
  userauthPublickeyAuto := SSH_OK
  sftpNew := true
  sftpInit := SSH_OK
  sftpError := 0

/-- One byte is written through the mount. -/
theorem ssh_mount_life_write :
    ∃ t, (mainSsh hostLibssh openNet 0 ⟨text "root@10.0.0.1:/srv", by decide⟩ (text "key")
        [⟨.plain, .write FilesystemData.mgFile1.toCString (text "X") 1 0⟩]).run ⟨srvHost, []⟩ =
          .ok [.code 1] t ∧ WellUsed t.log ∧ ReleasedOnce t.log := by
  have hconnected : Connected openNet ⟨text "root@10.0.0.1:/srv", by decide⟩ (text "key")
      ⟨text "root", text "10.0.0.1", text "/srv"⟩ := ⟨by decide, rfl, rfl, SSH_OK, by decide, by decide⟩
  obtain ⟨t, hrun, -, hlog⟩ := ((ssh_mount_life hostLibssh openNet 0 ⟨text "root@10.0.0.1:/srv", by decide⟩ (text "key")
    [⟨.plain, .write FilesystemData.mgFile1.toCString (text "X") 1 0⟩] srvHost).2 _ hconnected).2 ⟨rfl, rfl⟩
  exact ⟨t, hrun, hlog⟩

end MGFileSystem
