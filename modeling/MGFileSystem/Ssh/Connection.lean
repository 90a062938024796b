import MGFileSystem.Ssh.TrackedSession

/-! How `ssh_backend` makes and gives up its sessions, in a process that libssh may bring to its end. The functions
for the two methods of authentication stand in `FSmanager` too, in the same words. -/
namespace MGFileSystem
open HandleLog Tracked

def SSH_AUTH_ERROR : Int := -1
def SSH_FX_FILE_ALREADY_EXISTS : Int := 11

/-- How a process can end other than by returning from `main`. -/
inductive Ended where
  | exit (code : Int)
  | fault (f : Fault)
  deriving DecidableEq, Repr

/-- A function that may end the process. -/
abbrev Program (σ α : Type) := EStateM Ended σ α

variable {σ α : Type}

/-- The state a program leaves, whether it returns or ends the process. -/
def Program.left (x : Program σ α) (s : σ) : σ :=
  match x.run s with
  | .ok _ s' => s'
  | .error _ s' => s'

/-- A member function called by a program. -/
def invoke (x : Method σ α) : Program σ α := fun s =>
  match x.run s with
  | .ok a s' => .ok a s'
  | .error f s' => .error (.fault f) s'

theorem run_invoke (x : Method σ α) (s : σ) : (invoke x).run s = match x.run s with
    | .ok a s' => .ok a s'
    | .error f s' => .error (.fault f) s' := rfl

/-- A libssh call with this handle among its arguments. -/
def uses (call : LibsshCall) (h : Option Nat) : Program (Tracked σ) Unit := invoke (note (.pass call h))

/-- A libssh call that frees the handle. -/
def frees (h : Option Nat) : Program (Tracked σ) Unit := invoke (note (.release h))

@[simp] theorem run_uses (call : LibsshCall) (h : Option Nat) (t : Tracked σ) :
    (uses call h).run t = .ok () ⟨t.session, .pass call h :: t.log⟩ := rfl

@[simp] theorem run_frees (h : Option Nat) (t : Tracked σ) :
    (frees h).run t = .ok () ⟨t.session, .release h :: t.log⟩ := rfl

/-- How libssh behaves while a connection is made. -/
structure Dialing where
  /-- Whether `ssh_new` returns a session. -/
  sshNew : Bool
  sshConnect : Int
  userauthPassword : Int
  userauthPublickeyAuto : Int

/-- How it behaves while an sftp session is started on the connection. -/
structure SftpDialing extends Dialing where
  /-- Whether `sftp_new` returns a session. -/
  sftpNew : Bool
  sftpInit : Int
  sftpError : Int

/-- A call that returns a new session, or a null pointer. -/
def newSession (returned : Bool) : Program (Tracked σ) (Option Nat) := do
  let session ← invoke (issuing fun s => (if returned then some () else none, s))
  return session.map (·.number)

@[simp] theorem run_newSession (returned : Bool) (t : Tracked σ) :
    (newSession returned).run t = if returned then .ok (some (fresh t.log)) ⟨t.session, .issue (fresh t.log) :: t.log⟩
      else .ok none t := by
  cases returned <;> rfl

/-- Both methods of authentication treat the result of their libssh call alike. -/
def authenticate (call : LibsshCall) (rc : Int) (session : Option Nat) : Program (Tracked σ) Int := do
  uses call session
  if rc = SSH_AUTH_ERROR then
    uses .sshGetError session
    throw (.exit (-1))
  return rc

def passwordAuthentication (d : Dialing) (session : Option Nat) : Program (Tracked σ) Int :=
  authenticate .sshUserauthPassword d.userauthPassword session

def publicKeyAuthentication (d : Dialing) (session : Option Nat) : Program (Tracked σ) Int :=
  authenticate .sshUserauthPublickeyAuto d.userauthPublickeyAuto session

/-- The branches on the name of the method. -/
def authenticateBy (d : Dialing) (authenticationMethod : Bytes) (session : Option Nat) :
    Program (Tracked σ) (Option Int) := do
  if authenticationMethod = text "pw" then
    return some (← passwordAuthentication d session)
  else if authenticationMethod = text "key" then
    return some (← publicKeyAuthentication d session)
  else
    return none

namespace SshBackend

/-- The members `_session` and `_sftp_session`. -/
structure Sessions where
  session : Option Nat
  sftpSession : Option Nat

/-- Returns the code and the new `_sftp_session`, which a failing `sftp_init` leaves dangling. -/
def initSftpSession (d : SftpDialing) (session : Option Nat) : Program (Tracked σ) (Int × Option Nat) := do
  uses .sftpNew session
  match ← newSession d.sftpNew with
  | none =>
    uses .sshGetError session
    return (-1, none)
  | some sftp =>
    uses .sftpInit (some sftp)
    if d.sftpInit ≠ SSH_OK then
      uses .sftpGetError (some sftp)
      frees (some sftp)
      return (d.sftpInit, some sftp)
    return (SSH_OK, some sftp)

/-- The part of `establish_ssh_connection` that follows the authentication. -/
def startSftpSession (d : SftpDialing) (session : Nat) : Program (Tracked σ) Sessions := do
  let (rc, sftp) ← initSftpSession d (some session)
  if rc ≠ SSH_OK then
    -- For a message, and for the test that follows it.
    uses .sftpGetError sftp
    uses .sftpGetError sftp
    if d.sftpError ≠ SSH_FX_FILE_ALREADY_EXISTS then uses .sshGetError (some session)
  return ⟨some session, sftp⟩

/-- The code of the authentication is not looked at. -/
def establishSshConnection (d : SftpDialing) (authenticationMethod : Bytes) : Program (Tracked σ) Sessions := do
  match ← newSession d.sshNew with
  | none => throw (.exit (-1))
  | some session =>
    -- The host and the user.
    uses .sshOptionsSet (some session)
    uses .sshOptionsSet (some session)
    uses .sshConnect (some session)
    if d.sshConnect ≠ SSH_OK then
      uses .sshGetError (some session)
      throw (.exit (-1))
    match ← authenticateBy d.toDialing authenticationMethod (some session) with
    | none => throw (.exit (-1))
    | some _ => startSftpSession d session

def closeSftpSession (s : Sessions) : Program (Tracked σ) Unit := frees s.sftpSession

def cleanUp (s : Sessions) : Program (Tracked σ) Unit := do
  if s.sftpSession ≠ none then closeSftpSession s
  if s.session ≠ none then
    uses .sshDisconnect s.session
    frees s.session

end SshBackend

/-- The call of a supported method. -/
def userauthCall (authenticationMethod : Bytes) : LibsshCall :=
  if authenticationMethod = text "pw" then .sshUserauthPassword else .sshUserauthPublickeyAuto

namespace Dialing
variable (d : Dialing) (authenticationMethod : Bytes)

/-- What libssh answers to a supported method. -/
def userauth : Option Int :=
  if authenticationMethod = text "pw" then some d.userauthPassword
  else if authenticationMethod = text "key" then some d.userauthPublickeyAuto
  else none

/-- The connection is made, and its authentication does not end the process. -/
def Connects : Prop :=
  d.sshNew = true ∧ d.sshConnect = SSH_OK ∧ ∃ rc, d.userauth authenticationMethod = some rc ∧ rc ≠ SSH_AUTH_ERROR

end Dialing

/-- The sftp session is made and initialised. -/
def SftpDialing.Starts (d : SftpDialing) : Prop := d.sftpNew = true ∧ d.sftpInit = SSH_OK

instance (d : SftpDialing) : Decidable d.Starts := inferInstanceAs (Decidable (_ ∧ _))

/-- The log after a new session was set up and connected. -/
def dialled (log : CallLog) : CallLog :=
  .pass .sshConnect (some (fresh log)) :: .pass .sshOptionsSet (some (fresh log)) ::
    .pass .sshOptionsSet (some (fresh log)) :: .issue (fresh log) :: log

theorem owes_dialled {owed : List Nat} {log : CallLog} (h : Owes owed log) :
    Owes (fresh log :: owed) (dialled log) :=
  (((h.issue (fresh_not_mem log)).pass _ List.mem_cons_self).pass _ List.mem_cons_self).pass _ List.mem_cons_self

theorem run_authenticate (call : LibsshCall) (rc : Int) (session : Option Nat) (t : Tracked σ) :
    (authenticate call rc session).run t =
      if rc = SSH_AUTH_ERROR then
        .error (.exit (-1)) ⟨t.session, .pass .sshGetError session :: .pass call session :: t.log⟩
      else .ok rc ⟨t.session, .pass call session :: t.log⟩ := by
  by_cases h : rc = SSH_AUTH_ERROR
  · simp only [authenticate, EStateM.run_bind, run_uses, if_pos h]
    rfl
  · simp only [authenticate, EStateM.run_bind, run_uses, if_neg h]
    rfl

theorem run_authenticateBy (d : Dialing) (authenticationMethod : Bytes) (session : Option Nat) (t : Tracked σ) :
    (authenticateBy d authenticationMethod session).run t =
      match d.userauth authenticationMethod with
      | none => .ok none t
      | some rc =>
        if rc = SSH_AUTH_ERROR then
          .error (.exit (-1)) ⟨t.session,
            .pass .sshGetError session :: .pass (userauthCall authenticationMethod) session :: t.log⟩
        else .ok (some rc) ⟨t.session, .pass (userauthCall authenticationMethod) session :: t.log⟩ := by
  rw [authenticateBy, Dialing.userauth, userauthCall]
  by_cases hpw : authenticationMethod = text "pw"
  · rw [if_pos hpw, if_pos hpw, if_pos hpw, EStateM.run_bind, passwordAuthentication, run_authenticate]
    by_cases h : d.userauthPassword = SSH_AUTH_ERROR
    · simp only [if_pos h]
    · simp only [if_neg h]
      rfl
  · rw [if_neg hpw, if_neg hpw, if_neg hpw]
    by_cases hkey : authenticationMethod = text "key"
    · rw [if_pos hkey, if_pos hkey, EStateM.run_bind, publicKeyAuthentication, run_authenticate]
      by_cases h : d.userauthPublickeyAuto = SSH_AUTH_ERROR
      · simp only [if_pos h]
      · simp only [if_neg h]
        rfl
    · rw [if_neg hkey, if_neg hkey]
      rfl

namespace SshBackend
variable {d : SftpDialing} {authenticationMethod : Bytes} {t : Tracked σ}

/-- A null pointer, or a session that is freed. -/
theorem run_initSftpSession {ssh : Nat} {owed : List Nat} {t : Tracked σ} (ht : Owes (ssh :: owed) t.log) :
    ∃ rc sftp log', (initSftpSession d (some ssh)).run t = .ok (rc, sftp) ⟨t.session, log'⟩ ∧
      (d.Starts → rc = SSH_OK ∧ ∃ number, sftp = some number ∧ Owes (number :: ssh :: owed) log') ∧
      (¬ d.Starts → rc ≠ SSH_OK ∧ ∀ number, sftp = some number → number ∈ released log') := by
  have hpass := ht.pass (r := ssh) .sftpNew List.mem_cons_self
  simp only [initSftpSession, EStateM.run_bind, run_uses, run_newSession, SftpDialing.Starts]
  cases hnew : d.sftpNew with
  | false => exact ⟨-1, none, _, rfl, fun h => absurd h.1 Bool.noConfusion, fun _ => ⟨by decide, fun _ => nofun⟩⟩
  | true =>
    have hissued := (hpass.issue (fresh_not_mem _)).pass .sftpInit List.mem_cons_self
    by_cases hinit : d.sftpInit = SSH_OK
    · simp only [if_true, EStateM.run_bind, run_uses, hinit, ne_eq, not_true, if_false]
      exact ⟨_, _, _, rfl, fun _ => ⟨rfl, _, rfl, hissued⟩, fun h => absurd ⟨trivial, trivial⟩ h⟩
    · simp only [if_true, EStateM.run_bind, run_uses, hinit, ne_eq, not_false_eq_true, run_frees]
      refine ⟨_, _, _, rfl, fun h => absurd h.2 id, fun _ => ⟨hinit, ?_⟩⟩
      rintro _ ⟨⟩
      exact List.mem_cons_self

/-- Only a started sftp session leaves a log without misuse. -/
theorem run_startSftpSession {ssh : Nat} {t : Tracked σ} (ht : Owes [ssh] t.log) :
    ∃ sessions log', (startSftpSession d ssh).run t = .ok sessions ⟨t.session, log'⟩ ∧
      (d.Starts → ∃ sftp, sessions = ⟨some ssh, some sftp⟩ ∧ Owes [sftp, ssh] log') ∧
      (¬ d.Starts → ¬ WellUsed log') := by
  obtain ⟨rc, sftp, log₁, hrun, hstarts, hfails⟩ := run_initSftpSession (d := d) ht
  rw [startSftpSession, EStateM.run_bind, hrun]
  by_cases h : d.Starts
  · obtain ⟨rfl, number, rfl, howes⟩ := hstarts h
    exact ⟨_, _, rfl, fun _ => ⟨number, rfl, howes⟩, fun hn => absurd h hn⟩
  · obtain ⟨hrc, hgone⟩ := hfails h
    have hmisuse : ¬ WellUsed (.pass .sftpGetError sftp :: .pass .sftpGetError sftp :: log₁) := by
      rintro ⟨⟨number, hnumber, hlive⟩, -⟩
      exact hlive.2 (hgone number hnumber)
    dsimp only
    simp only [if_pos hrc, EStateM.run_bind, run_uses]
    by_cases herror : d.sftpError ≠ SSH_FX_FILE_ALREADY_EXISTS
    · rw [if_pos herror]
      exact ⟨_, _, rfl, fun hs => absurd hs h, fun _ hw => hmisuse hw.2⟩
    · rw [if_neg herror]
      exact ⟨_, _, rfl, fun hs => absurd hs h, fun _ hw => hmisuse hw⟩

/-- The process ends before there is an sftp session, or the session is connected. -/
theorem run_establishSshConnection (ht : Owes [] t.log) :
    (¬ d.Connects authenticationMethod → ∃ log',
      (establishSshConnection d authenticationMethod).run t = .error (.exit (-1)) ⟨t.session, log'⟩ ∧ WellUsed log') ∧
    (d.Connects authenticationMethod → ∃ ssh log',
      (establishSshConnection d authenticationMethod).run t = (startSftpSession d ssh).run ⟨t.session, log'⟩ ∧
        Owes [ssh] log') := by
  simp only [establishSshConnection, EStateM.run_bind, run_newSession, Dialing.Connects]
  cases hnew : d.sshNew with
  | false => exact ⟨fun _ => ⟨_, rfl, ht.wellUsed⟩, fun h => absurd h.1 Bool.noConfusion⟩
  | true =>
    have hdialled := owes_dialled ht
    simp only [if_true, EStateM.run_bind, run_uses, true_and]
    by_cases hconnect : d.sshConnect = SSH_OK
    · simp only [hconnect, ne_eq, not_true, if_false, true_and]
      simp only [EStateM.run_bind, run_authenticateBy]
      cases d.userauth authenticationMethod with
      | none => exact ⟨fun _ => ⟨_, rfl, hdialled.wellUsed⟩, fun ⟨_, h, _⟩ => nomatch h⟩
      | some rc =>
        have hasked := hdialled.pass (r := fresh t.log) (userauthCall authenticationMethod) List.mem_cons_self
        by_cases herror : rc = SSH_AUTH_ERROR
        · simp only [if_pos herror]
          refine ⟨fun _ => ⟨_, rfl, (hasked.pass _ List.mem_cons_self).wellUsed⟩, ?_⟩
          rintro ⟨_, ⟨⟩, hrc⟩
          exact absurd herror hrc
        · simp only [if_neg herror]
          exact ⟨fun h => absurd ⟨rc, rfl, herror⟩ h, fun _ => ⟨_, _, rfl, hasked⟩⟩
    · have hexit := hdialled.pass (r := fresh t.log) .sshGetError List.mem_cons_self
      simp only [ne_eq, hconnect, not_false_eq_true, if_true, EStateM.run_bind, run_uses, false_and, not_false_eq_true]
      exact ⟨fun _ => ⟨_, rfl, hexit.wellUsed⟩, fun h => h.elim⟩

end SshBackend
end MGFileSystem
