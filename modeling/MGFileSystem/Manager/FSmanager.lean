import MGFileSystem.Manager.CheckRound
import MGFileSystem.Ssh.Connection

/-! The object `FSmanager` of the daemon. Its constructor connects to the storage nodes, the main loop checks them round
after round, and its destructor gives the sessions up. What goes to the log file is not modelled. -/
namespace MGFileSystem
open HandleLog Tracked

/-- A member function on what a session leads to, which has a log of its own. -/
def beyond {σ α : Type} (x : Method σ α) : Program (Tracked σ) α := fun t =>
  match x.run t.session with
  | .ok a s => .ok a { t with session := s }
  | .error f s => .error (.fault f) { t with session := s }

theorem run_beyond {σ α : Type} (x : Method σ α) (t : Tracked σ) : (beyond x).run t = match x.run t.session with
    | .ok a s => .ok a { t with session := s }
    | .error f s => .error (.fault f) { t with session := s } := rfl

/-- How libssh behaves while the constructor connects to a node. -/
structure NodeDialing extends Dialing where
  /-- Whether the constructor's own `ssh_new` returns a session. -/
  firstNew : Bool

/-- What a round meets at a node. -/
structure Encounter where
  session : NodeSession
  buffer : Memory

/-- `ssh_channel_new` returns no channel if its session is a null pointer. -/
def NodeSession.on (s : NodeSession) (hasSession : Bool) : NodeSession :=
  { s with channelNew := s.channelNew && hasSession }

/-- The members, without those for client nodes, which nothing fills. -/
structure FSmanager where
  storageNodes : List StorageNode
  storageSessions : List (Option Nat)
  clientSessions : List (Option Nat)

/-- The sessions are logged, and so are the channels on them. -/
abbrev Daemon := Tracked (Tracked Stdout)

namespace FSmanager

/-- Returns what the reference `session` is set to, too. -/
def establishSshConnection (d : Dialing) (authenticationMethod : Bytes) : Program Daemon (Option Nat × Bool) := do
  match ← newSession d.sshNew with
  | none => return (none, false)
  | some session =>
    -- The host and the user.
    uses .sshOptionsSet (some session)
    uses .sshOptionsSet (some session)
    uses .sshConnect (some session)
    if d.sshConnect ≠ SSH_OK then
      uses .sshGetError (some session)
      return (some session, false)
    match ← authenticateBy d authenticationMethod (some session) with
    | none => return (some session, false)
    | some rc =>
      if rc ≠ SSH_OK then
        uses .sshGetError (some session)
        return (some session, false)
      return (some session, true)

/-- The loop of the constructor. The session of its own `ssh_new` is overwritten through the reference, and only the
proofs see it among the results. -/
def connectNodes (dial : Bytes → NodeDialing) :
    List StorageNode → Program Daemon (List StorageNode × List (Option Nat) × List (Option Nat))
  | [] => return ([], [], [])
  | node :: nodes => do
    let new ← newSession (dial node.ip).firstNew
    let (session, connectWorked) ← establishSshConnection (dial node.ip).toDialing (text "key")
    let (nodes', sessions, overwritten) ← connectNodes dial nodes
    return ((if connectWorked then node.mark true else node) :: nodes', session :: sessions, new :: overwritten)

/-- The constructor `storage_node(ip)`. -/
def storageNode (ip : Bytes) : StorageNode := { ip, reachable := false, responsive := false, fsAvailable := false }

def addresses : List Bytes := [text "192.168.122.189", text "192.168.122.252"]

/-- The constructor, which ends the process if it cannot open the log file. -/
def init (logFile : Bool) (dial : Bytes → NodeDialing) : Program Daemon FSmanager := do
  if logFile = false then throw (.exit (-1))
  let (nodes, sessions, _) ← connectNodes dial (addresses.map storageNode)
  return { storageNodes := nodes, storageSessions := sessions, clientSessions := [] }

variable (out : Nat → Nat → Int) (rounds : Nat)

/-- The loop of `check_storage_nodes`, with the sessions that `ssh_channel_new` gets. -/
def checkNodes (round : Bytes → Encounter) : List StorageNode → List (Option Nat) → Program Daemon (List StorageNode)
  | [], _ => return []
  | _ :: _, [] => throw (.fault .badPointer)
  | node :: nodes, session :: sessions => do
    uses .sshChannelNew session
    let e := round node.ip
    let node' ← beyond (checkNode out rounds { node, session := e.session.on session.isSome, buffer := e.buffer })
    return node' :: (← checkNodes round nodes sessions)

def checkStorageNodes (m : FSmanager) (round : Bytes → Encounter) : Program Daemon FSmanager := do
  return { m with storageNodes := ← checkNodes out rounds round m.storageNodes m.storageSessions }

/-- The loop of the daemon, for as many rounds as are given. -/
def mainLoop : List (Bytes → Encounter) → FSmanager → Program Daemon FSmanager
  | [], m => return m
  | round :: later, m => do mainLoop later (← m.checkStorageNodes out rounds round)

/-- A loop of the destructor. -/
def releaseSessions : List (Option Nat) → Program Daemon Unit
  | [] => return ()
  | sess :: sessions => do
    if sess ≠ none then
      uses .sshDisconnect sess
      frees sess
    releaseSessions sessions

/-- The destructor. -/
def destroy (m : FSmanager) : Program Daemon Unit := do
  releaseSessions m.storageSessions
  releaseSessions m.clientSessions

end FSmanager

namespace NodeDialing
variable (d : NodeDialing)

/-- The constructor gets past the node. -/
def Returns : Prop := d.sshNew = true → d.sshConnect = SSH_OK → d.userauthPublickeyAuto ≠ SSH_AUTH_ERROR

/-- The node is connected with its authentication done. -/
def connected : Bool := d.sshNew && decide (d.sshConnect = SSH_OK) && decide (d.userauthPublickeyAuto = SSH_OK)

end NodeDialing

section Constructor
variable {t : Daemon} {owed : List Nat}

/-- The sessions that are not null. -/
def held (sessions : List (Option Nat)) : List Nat := sessions.filterMap id

theorem run_establishSshConnection {d : NodeDialing} (hd : d.Returns) (ht : Owes owed t.log) :
    ∃ session log', (FSmanager.establishSshConnection d.toDialing (text "key")).run t =
        .ok (session, d.connected) ⟨t.session, log'⟩ ∧
      session.isSome = d.sshNew ∧ Owes (held [session] ++ owed) log' := by
  simp only [FSmanager.establishSshConnection, EStateM.run_bind, run_newSession, NodeDialing.connected]
  cases hnew : d.sshNew with
  | false => exact ⟨none, t.log, rfl, rfl, ht⟩
  | true =>
    have hreported : ∀ call, Owes (fresh t.log :: owed) (.pass call (some (fresh t.log)) :: dialled t.log) :=
      fun call => (owes_dialled ht).pass _ List.mem_cons_self
    simp only [if_true, EStateM.run_bind, run_uses, Bool.true_and]
    by_cases hconnect : d.sshConnect = SSH_OK
    · have hne := hd hnew hconnect
      have huserauth : d.userauth (text "key") = some d.userauthPublickeyAuto := by
        rw [Dialing.userauth, if_neg (by decide), if_pos rfl]
      simp only [hconnect, ne_eq, not_true, if_false, EStateM.run_bind, run_authenticateBy, huserauth, if_neg hne,
        decide_true, Bool.true_and]
      by_cases hauth : d.userauthPublickeyAuto = SSH_OK
      · simp only [hauth, not_true, if_false, decide_true]
        exact ⟨_, _, rfl, rfl, hreported _⟩
      · simp only [hauth, not_false_eq_true, if_true, decide_false, EStateM.run_bind, run_uses]
        exact ⟨_, _, rfl, rfl, (hreported _).pass _ List.mem_cons_self⟩
    · simp only [ne_eq, hconnect, not_false_eq_true, if_true, EStateM.run_bind, run_uses, decide_false, Bool.false_and]
      exact ⟨_, _, rfl, rfl, hreported _⟩

theorem establishSshConnection_exits {d : NodeDialing} (hd : ¬ d.Returns) (t : Daemon) :
    ∃ t', (FSmanager.establishSshConnection d.toDialing (text "key")).run t = .error (.exit (-1)) t' := by
  rw [NodeDialing.Returns] at hd
  push Not at hd
  obtain ⟨hnew, hconnect, herror⟩ := hd
  have huserauth : d.userauth (text "key") = some d.userauthPublickeyAuto := by
    rw [Dialing.userauth, if_neg (by decide), if_pos rfl]
  simp only [FSmanager.establishSshConnection, EStateM.run_bind, run_newSession, hnew, if_true, run_uses, hconnect,
    ne_eq, not_true, if_false, run_authenticateBy, huserauth, if_pos herror]
  exact ⟨_, rfl⟩

variable {dial : Bytes → NodeDialing}

/-- The node as the constructor leaves it. -/
def StorageNode.greet (dial : Bytes → NodeDialing) (node : StorageNode) : StorageNode :=
  if (dial node.ip).connected then node.mark true else node

theorem ip_greet (node : StorageNode) : (node.greet dial).ip = node.ip := by
  rw [StorageNode.greet]
  split <;> rfl

theorem run_newSession_owes (returned : Bool) (ht : Owes owed t.log) :
    ∃ new log', (newSession returned).run t = .ok new ⟨t.session, log'⟩ ∧ Owes (held [new] ++ owed) log' ∧
      new.isSome = returned := by
  rw [run_newSession]
  cases returned with
  | false => exact ⟨none, t.log, rfl, ht, rfl⟩
  | true => exact ⟨_, _, rfl, ht.issue (fresh_not_mem t.log), rfl⟩

theorem held_cons (session : Option Nat) (sessions : List (Option Nat)) :
    held (session :: sessions) = held [session] ++ held sessions := List.filterMap_append (l := [session])

/-- The constructor's loop holds a session for each node, or a null pointer, and leaves its own ones behind. -/
theorem run_connectNodes {nodes : List StorageNode} (hd : ∀ node ∈ nodes, (dial node.ip).Returns)
    (ht : Owes owed t.log) :
    ∃ sessions overwritten log', (FSmanager.connectNodes dial nodes).run t =
        .ok (nodes.map (·.greet dial), sessions, overwritten) ⟨t.session, log'⟩ ∧
      sessions.map Option.isSome = nodes.map (fun node => (dial node.ip).sshNew) ∧
      overwritten.map Option.isSome = nodes.map (fun node => (dial node.ip).firstNew) ∧
      Owes (held sessions ++ held overwritten ++ owed) log' := by
  induction nodes generalizing t owed with
  | nil => exact ⟨[], [], t.log, rfl, rfl, rfl, ht⟩
  | cons node nodes ih =>
    obtain ⟨new, log₁, hnew, howes₁, hfirst⟩ := run_newSession_owes (dial node.ip).firstNew ht
    obtain ⟨session, log₂, hestablish, hsome, howes₂⟩ :=
      run_establishSshConnection (t := ⟨t.session, log₁⟩) (hd node List.mem_cons_self) howes₁
    obtain ⟨sessions, overwritten, log₃, hrest, hmap, hfirsts, howes₃⟩ :=
      ih (t := ⟨t.session, log₂⟩) (fun n hn => hd n (List.mem_cons_of_mem _ hn)) howes₂
    refine ⟨session :: sessions, new :: overwritten, log₃, ?_, ?_, ?_, howes₃.perm ?_⟩
    · simp only [FSmanager.connectNodes, EStateM.run_bind, hnew, hestablish, hrest]
      rfl
    · rw [List.map_cons, List.map_cons, hsome, hmap]
    · rw [List.map_cons, List.map_cons, hfirst, hfirsts]
    · rw [held_cons session sessions, held_cons new overwritten, List.perm_iff_count]
      intro r
      simp only [List.count_append]
      omega

theorem connectNodes_exits {nodes : List StorageNode} (hd : ∃ node ∈ nodes, ¬ (dial node.ip).Returns)
    (ht : Owes owed t.log) :
    ∃ t', (FSmanager.connectNodes dial nodes).run t = .error (.exit (-1)) t' := by
  induction nodes generalizing t owed with
  | nil => exact absurd hd (by simp)
  | cons node nodes ih =>
    obtain ⟨first, log₁, hfirst, howes₁, -⟩ := run_newSession_owes (dial node.ip).firstNew ht
    simp only [FSmanager.connectNodes, EStateM.run_bind, hfirst]
    by_cases hnode : (dial node.ip).Returns
    · obtain ⟨session, log₂, hestablish, -, howes₂⟩ := run_establishSshConnection (t := ⟨t.session, log₁⟩) hnode howes₁
      obtain ⟨n, hn, hexits⟩ := hd
      have hlater : ∃ node ∈ nodes, ¬ (dial node.ip).Returns := by
        rcases List.mem_cons.mp hn with rfl | hn
        · exact absurd hnode hexits
        · exact ⟨n, hn, hexits⟩
      obtain ⟨t', hrest⟩ := ih (t := ⟨t.session, log₂⟩) hlater howes₂
      refine ⟨t', ?_⟩
      simp only [hestablish, hrest]
    · obtain ⟨t', hexit⟩ := establishSshConnection_exits hnode ⟨t.session, log₁⟩
      refine ⟨t', ?_⟩
      simp only [hexit]

end Constructor

section Rounds
variable {out : Nat → Nat → Int} {rounds : Nat} {dial : Bytes → NodeDialing} {round : Bytes → Encounter}

/-- The log after each session was passed to a check. -/
def passed : List (Option Nat) → CallLog → CallLog
  | [], log => log
  | session :: sessions, log => passed sessions (.pass .sshChannelNew session :: log)

/-- The node when its turn in the round has come. -/
def Encounter.watched (dial : Bytes → NodeDialing) (round : Bytes → Encounter) (node : StorageNode) : Watched :=
  ⟨node, (round node.ip).session.on (dial node.ip).sshNew, (round node.ip).buffer⟩

/-- The node after the round. -/
def StorageNode.follow (dial : Bytes → NodeDialing) (round : Bytes → Encounter) (node : StorageNode) : StorageNode :=
  (Encounter.watched dial round node).outcome

/-- A round whose writes are full ends, and passes each session once. -/
theorem run_checkNodes (hout : ∀ k n, out k n = n) {nodes : List StorageNode} {sessions : List (Option Nat)}
    (hsessions : sessions.map Option.isSome = nodes.map fun node => (dial node.ip).sshNew)
    (hrounds : ∀ node ∈ nodes, (round node.ip).session.reads.length < rounds) {t : Daemon}
    (ht : Owes [] t.session.log) :
    ∃ inner, Owes [] inner.log ∧ (FSmanager.checkNodes out rounds round nodes sessions).run t =
      .ok (nodes.map (·.follow dial round)) ⟨inner, passed sessions t.log⟩ := by
  induction nodes generalizing sessions t with
  | nil =>
    have hnil : sessions = [] := List.map_eq_nil_iff.mp hsessions
    subst hnil
    exact ⟨t.session, ht, rfl⟩
  | cons node nodes ih =>
    cases sessions with
    | nil => cases hsessions
    | cons session sessions =>
      obtain ⟨hsession, hsessions⟩ := List.cons.inj hsessions
      obtain ⟨log', hcheck, howes⟩ := run_checkNode_full out (w := Encounter.watched dial round node)
        (hrounds node List.mem_cons_self) (writesFull_of_forall hout _ _) ht
      rw [Encounter.watched] at hcheck
      obtain ⟨inner, hinner, hrest⟩ := ih hsessions (fun n hn => hrounds n (List.mem_cons_of_mem _ hn))
        (t := ⟨⟨t.session.session + ((round node.ip).session.on (dial node.ip).sshNew).delivered.length, log'⟩,
          .pass .sshChannelNew session :: t.log⟩) howes
      refine ⟨inner, hinner, ?_⟩
      simp only [FSmanager.checkNodes, EStateM.run_bind, run_uses, run_beyond, hsession, hcheck, hrest]
      rfl

theorem ip_follow (node : StorageNode) : (node.follow dial round).ip = node.ip := by
  rw [StorageNode.follow, Watched.outcome]
  split
  · rw [StorageNode.judge_eq, StorageNode.ip_settle]
    rfl
  · rfl

/-- The log after so many rounds. -/
def passedRounds (sessions : List (Option Nat)) : Nat → CallLog → CallLog
  | 0, log => log
  | n + 1, log => passedRounds sessions n (passed sessions log)

/-- The node after the rounds. -/
def StorageNode.followAll (dial : Bytes → NodeDialing) (rs : List (Bytes → Encounter)) (node : StorageNode) :
    StorageNode :=
  rs.foldl (fun node round => node.follow dial round) node

/-- Rounds whose writes are full end, and pass each session once a round. -/
theorem run_mainLoop (hout : ∀ k n, out k n = n) {rs : List (Bytes → Encounter)} {m : FSmanager}
    (hsessions : m.storageSessions.map Option.isSome = m.storageNodes.map fun node => (dial node.ip).sshNew)
    (hrounds : ∀ round ∈ rs, ∀ node ∈ m.storageNodes, (round node.ip).session.reads.length < rounds)
    {t : Daemon} (ht : Owes [] t.session.log) :
    ∃ inner, Owes [] inner.log ∧ (FSmanager.mainLoop out rounds rs m).run t =
      .ok { m with storageNodes := m.storageNodes.map (·.followAll dial rs) }
        ⟨inner, passedRounds m.storageSessions rs.length t.log⟩ := by
  induction rs generalizing m t with
  | nil =>
    have hid : m.storageNodes.map (·.followAll dial []) = m.storageNodes := List.map_id _
    refine ⟨t.session, ht, ?_⟩
    rw [hid]
    rfl
  | cons round rs ih =>
    obtain ⟨inner, hinner, hcheck⟩ := run_checkNodes hout hsessions (hrounds round List.mem_cons_self) ht
    have hnext : m.storageSessions.map Option.isSome =
        (m.storageNodes.map (·.follow dial round)).map fun node => (dial node.ip).sshNew := by
      rw [hsessions, List.map_map]
      exact List.map_congr_left fun node _ => by rw [Function.comp_apply, ip_follow]
    have hlater : ∀ r ∈ rs, ∀ node ∈ m.storageNodes.map (·.follow dial round),
        (r node.ip).session.reads.length < rounds := by
      intro r hr node hnode
      obtain ⟨node', hnode', rfl⟩ := List.mem_map.mp hnode
      rw [ip_follow]
      exact hrounds r (List.mem_cons_of_mem _ hr) node' hnode'
    obtain ⟨inner', hinner', hrest⟩ := ih (m := { m with storageNodes := m.storageNodes.map (·.follow dial round) })
      hnext hlater (t := ⟨inner, _⟩) hinner
    refine ⟨inner', hinner', ?_⟩
    simp only [FSmanager.mainLoop, FSmanager.checkStorageNodes, EStateM.run_bind, hcheck]
    refine Eq.trans hrest ?_
    rw [List.map_map]
    rfl

end Rounds
end MGFileSystem
