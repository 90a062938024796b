import MGFileSystem.Manager.CheckRound

/-! `send_remote_command`, which `FSmanager` and `ssh_backend` have in the same words. `check_storage_nodes` holds a
third copy of it, in which a write that fails does not return. -/
namespace MGFileSystem
open HandleLog Tracked

def SSH_ERROR : Int := -1

section Command
variable (out : Nat → Nat → Int) (session : NodeSession)

/-- The loop `while (nbytes > 0)` and what follows it, after a read of the first of the chunks, or of the end. -/
def copyAnswer (channel : Numbered Unit) : List ReadChunk → Method (Tracked Stdout) Int
  | [] => do
    if session.lastRead < 0 then
      sshChannelClose channel
      sshChannelFree channel
      return SSH_ERROR
    sshChannelSendEof channel
    sshChannelClose channel
    sshChannelFree channel
    return SSH_OK
  | c :: reads => do
    if (← write out c.data.length) ≠ c.data.length then
      sshChannelClose channel
      sshChannelFree channel
      return SSH_ERROR
    -- The next `ssh_channel_read`.
    note (.pass .sshChannelRead (some channel.number))
    copyAnswer channel reads

def sendRemoteCommand : Method (Tracked Stdout) Int := do
  match ← sshChannelNew session with
  | none => return SSH_ERROR
  | some channel =>
    let rc ← sshChannelOpenSession session channel
    if rc ≠ SSH_OK then
      sshChannelFree channel
      return rc
    let rc ← sshChannelRequestExec session channel
    if rc ≠ SSH_OK then
      sshChannelClose channel
      sshChannelFree channel
      return rc
    note (.pass .sshChannelRead (some channel.number))
    copyAnswer out session channel session.reads

/-- The same command on one session after the other. -/
def sendRemoteCommands : List NodeSession → Method (Tracked Stdout) (List Int)
  | [] => return []
  | session :: sessions => do
    let code ← sendRemoteCommand out session
    return code :: (← sendRemoteCommands sessions)

/-- What the command returns when its first write is the `k`-th of all. -/
def remoteCode (k : Nat) : Int :=
  if session.channelNew = false then SSH_ERROR
  else if session.openSession ≠ SSH_OK then session.openSession
  else if session.requestExec ≠ SSH_OK then session.requestExec
  else if WritesFull out k session.reads ∧ session.lastRead = 0 then SSH_OK
  else SSH_ERROR

/-- How many writes a copy makes; a short one is the last. -/
def writesMade : Nat → List ReadChunk → Nat
  | _, [] => 0
  | k, c :: reads => if out k c.data.length = c.data.length then writesMade (k + 1) reads + 1 else 1

/-- What the commands return, one after the other. -/
def remoteCodes : Nat → List NodeSession → List Int
  | _, [] => []
  | k, session :: sessions => remoteCode out session k :: remoteCodes (k + writesMade out k session.delivered) sessions

variable {out session}

theorem writesMade_of_full {k : Nat} {reads : List ReadChunk} (h : WritesFull out k reads) :
    writesMade out k reads = reads.length := by
  induction reads generalizing k with
  | nil => rfl
  | cons c reads ih => rw [writesMade, if_pos h.1, ih h.2, List.length_cons]

/-- The code tells whether the command was executed and its whole answer copied. -/
theorem remoteCode_eq_ok_iff {k : Nat} :
    remoteCode out session k = SSH_OK ↔ session.Executes ∧ WritesFull out k session.reads ∧ session.lastRead = 0 := by
  have herror : SSH_ERROR ≠ SSH_OK := by decide
  rw [remoteCode, NodeSession.Executes]
  cases hnew : session.channelNew with
  | false => exact iff_of_false herror fun h => nomatch h.1.1
  | true =>
    rw [if_neg Bool.noConfusion]
    by_cases hopen : session.openSession = SSH_OK
    · by_cases hexec : session.requestExec = SSH_OK
      · rw [if_neg (not_not.mpr hopen), if_neg (not_not.mpr hexec)]
        by_cases hfull : WritesFull out k session.reads ∧ session.lastRead = 0
        · rw [if_pos hfull]
          exact iff_of_true rfl ⟨⟨rfl, hopen, hexec⟩, hfull⟩
        · rw [if_neg hfull]
          exact iff_of_false herror fun h => hfull h.2
      · rw [if_neg (not_not.mpr hopen), if_pos hexec]
        exact iff_of_false hexec fun h => hexec h.1.2.2
    · rw [if_pos hopen]
      exact iff_of_false hopen fun h => hopen h.1.2.1

variable (out session) in
/-- However the writes end, the channel is given back. -/
theorem run_copyAnswer (channel : Numbered Unit) (reads : List ReadChunk) {k : Nat} {log : CallLog}
    (hlog : Owes [channel.number] log) :
    ∃ log', (copyAnswer out session channel reads).run ⟨k, log⟩ =
        .ok (if WritesFull out k reads ∧ session.lastRead = 0 then SSH_OK else SSH_ERROR)
          ⟨k + writesMade out k reads, log'⟩ ∧
      Owes [] log' := by
  induction reads generalizing k log with
  | nil =>
    have hended := session.ended
    rw [copyAnswer]
    by_cases hlast : session.lastRead < 0
    · have hne : ¬ (WritesFull out k [] ∧ session.lastRead = 0) := fun h => by omega
      rw [if_pos hlast, if_neg hne]
      exact ⟨_, rfl, (hlog.pass _ List.mem_cons_self).release⟩
    · have hz : WritesFull out k [] ∧ session.lastRead = 0 := ⟨trivial, by omega⟩
      rw [if_neg hlast, if_pos hz]
      exact ⟨_, rfl, ((hlog.pass _ List.mem_cons_self).pass _ List.mem_cons_self).release⟩
  | cons c reads ih =>
    rw [copyAnswer, writesMade]
    simp only [write, EStateM.run_bind, run_onSession]
    by_cases hfull : out k c.data.length = c.data.length
    · obtain ⟨log', hrun, howes⟩ := ih (k := k + 1)
        (hlog.pass (r := channel.number) .sshChannelRead List.mem_cons_self)
      refine ⟨log', ?_, howes⟩
      rw [if_neg (not_not.mpr hfull), if_pos hfull, Nat.add_comm (writesMade out (k + 1) reads), ← Nat.add_assoc]
      simp only [WritesFull, hfull, true_and]
      exact hrun
    · have hshort : ¬ (WritesFull out k (c :: reads) ∧ session.lastRead = 0) := fun h => hfull h.1.1
      rw [if_pos hfull, if_neg hshort, if_neg hfull]
      exact ⟨_, rfl, (hlog.pass _ List.mem_cons_self).release⟩

variable (out) in
/-- A command that is not executed makes no write. -/
theorem run_sendRemoteCommand_refused (h : ¬ session.Executes) (t : Tracked Stdout) :
    ∃ log', (sendRemoteCommand out session).run t = .ok (remoteCode out session t.session) ⟨t.session, log'⟩ ∧
      (Owes [] t.log → Owes [] log') := by
  simp only [sendRemoteCommand, sshChannelNew, EStateM.run_bind, run_issuing, remoteCode]
  cases hnew : session.channelNew with
  | false => exact ⟨_, rfl, id⟩
  | true =>
    by_cases hopen : session.openSession = SSH_OK
    · have hexec : session.requestExec ≠ SSH_OK := fun hexec => h ⟨hnew, hopen, hexec⟩
      refine ⟨_, ?_, fun ht => ((owes_executed ht).pass .sshChannelClose List.mem_cons_self).release⟩
      simp only [if_true, EStateM.run_bind, run_sshChannelOpenSession, hopen, ne_eq, not_true, if_false,
        run_sshChannelRequestExec, hexec, not_false_eq_true]
      rfl
    · refine ⟨_, ?_, fun ht => (owes_opened ht).release⟩
      simp only [if_true, EStateM.run_bind, run_sshChannelOpenSession, ne_eq, hopen, not_false_eq_true]
      rfl

/-- A command that is executed copies its answer. -/
theorem run_sendRemoteCommand_executes (h : session.Executes) (t : Tracked Stdout) :
    (sendRemoteCommand out session).run t = (copyAnswer out session ⟨fresh t.log, ()⟩ session.reads).run
      ⟨t.session, .pass .sshChannelRead (some (fresh t.log)) :: executed t.log⟩ := by
  obtain ⟨hnew, hopen, hexec⟩ := h
  simp only [sendRemoteCommand, sshChannelNew, EStateM.run_bind, run_issuing, hnew, if_true, run_sshChannelOpenSession,
    hopen, run_sshChannelRequestExec, hexec, ne_eq, not_true, if_false, run_note, executed]

theorem remoteCode_of_executes (h : session.Executes) (k : Nat) :
    remoteCode out session k = if WritesFull out k session.reads ∧ session.lastRead = 0 then SSH_OK else SSH_ERROR := by
  obtain ⟨hnew, hopen, hexec⟩ := h
  rw [remoteCode, hnew, if_neg Bool.noConfusion, if_neg (not_not.mpr hopen), if_neg (not_not.mpr hexec)]

variable (out session) in
/-- Every command ends and gives back its channel. -/
theorem run_sendRemoteCommand {t : Tracked Stdout} (ht : Owes [] t.log) :
    ∃ log', (sendRemoteCommand out session).run t = .ok (remoteCode out session t.session)
        ⟨t.session + writesMade out t.session session.delivered, log'⟩ ∧ Owes [] log' := by
  by_cases h : session.Executes
  · obtain ⟨log', hrun, howes⟩ := run_copyAnswer out session ⟨fresh t.log, ()⟩ session.reads
      (k := t.session) ((owes_executed ht).pass _ List.mem_cons_self)
    refine ⟨log', ?_, howes⟩
    rw [run_sendRemoteCommand_executes h, remoteCode_of_executes h, NodeSession.delivered, if_pos h, hrun]
  · obtain ⟨log', hrun, howes⟩ := run_sendRemoteCommand_refused out h t
    refine ⟨log', ?_, howes ht⟩
    rw [hrun, NodeSession.delivered, if_neg h]
    rfl

variable (out) in
theorem run_sendRemoteCommands (sessions : List NodeSession) {t : Tracked Stdout} (ht : Owes [] t.log) :
    ∃ t', (sendRemoteCommands out sessions).run t = .ok (remoteCodes out t.session sessions) t' ∧ Owes [] t'.log := by
  induction sessions generalizing t with
  | nil => exact ⟨t, rfl, ht⟩
  | cons session sessions ih =>
    obtain ⟨log₁, hfirst, howes⟩ := run_sendRemoteCommand out session ht
    obtain ⟨t', hrest, hdone⟩ := ih (t := ⟨t.session + writesMade out t.session session.delivered, log₁⟩) howes
    refine ⟨t', ?_, hdone⟩
    rw [sendRemoteCommands, EStateM.run_bind, hfirst]
    simp only [EStateM.run_bind, hrest]
    rfl

/-- All commands succeed exactly if each is executed, ends without an error and is copied in full. -/
theorem remoteCodes_ok_iff {sessions : List NodeSession} {k : Nat} :
    (∀ code ∈ remoteCodes out k sessions, code = SSH_OK) ↔
      (∀ session ∈ sessions, session.Executes ∧ session.lastRead = 0) ∧
        WritesFull out k (sessions.flatMap NodeSession.delivered) := by
  induction sessions generalizing k with
  | nil => exact iff_of_true (fun _ h => nomatch h) ⟨fun _ h => (nomatch h), trivial⟩
  | cons session sessions ih =>
    rw [remoteCodes, List.forall_mem_cons, List.forall_mem_cons, ih, remoteCode_eq_ok_iff, List.flatMap_cons,
      writesFull_append]
    constructor
    · rintro ⟨⟨hexec, hfull, hlast⟩, hrest, hwrites⟩
      rw [NodeSession.delivered, if_pos hexec] at hwrites ⊢
      rw [writesMade_of_full hfull] at hwrites
      exact ⟨⟨⟨hexec, hlast⟩, hrest⟩, hfull, hwrites⟩
    · rintro ⟨⟨⟨hexec, hlast⟩, hrest⟩, hfull, hwrites⟩
      rw [NodeSession.delivered, if_pos hexec] at hfull hwrites ⊢
      rw [writesMade_of_full hfull]
      exact ⟨⟨hexec, hfull, hlast⟩, hrest, hwrites⟩

end Command

section Inlined
variable {out : Nat → Nat → Int} {session : NodeSession} {channel : Numbered Unit}

theorem replicate_pass (channel : Numbered Unit) (n : Nat) (log : CallLog) :
    List.replicate n (HandleEvent.pass LibsshCall.sshChannelRead (some channel.number)) ++
        .pass .sshChannelRead (some channel.number) :: log =
      List.replicate (n + 1) (.pass .sshChannelRead (some channel.number)) ++ log := by
  rw [List.replicate_succ', List.append_assoc, List.singleton_append]

/-- The trace of the loop of `check_storage_nodes` while the writes are full. -/
theorem run_readLoop_trace {r : Reading} {rounds k : Nat} {l : CallLog} (hr : r.reads.length < rounds)
    (hout : WritesFull out k r.reads) :
    (readLoop out session channel rounds (r.next session)).run ⟨k, l⟩ =
      .ok { node := r.node, reads := [], buffer := fill r.buffer r.reads, nbytes := session.lastRead }
        ⟨k + r.reads.length, List.replicate r.reads.length (.pass .sshChannelRead (some channel.number)) ++ l⟩ := by
  obtain ⟨node, reads, buffer, nbytes⟩ := r
  dsimp only at hr hout ⊢
  induction reads generalizing buffer nbytes rounds k l with
  | nil =>
    cases rounds with
    | zero => exact absurd hr (Nat.not_lt_zero _)
    | succ rounds => exact run_readLoop_end out session channel rfl rounds _
  | cons c reads ih =>
    cases rounds with
    | zero => exact absurd hr (Nat.not_lt_zero _)
    | succ rounds =>
      have hrest := ih (l := .pass .sshChannelRead (some channel.number) :: l)
        (c.data ++ buffer.drop c.data.length) c.data.length (Nat.lt_of_succ_lt_succ hr) hout.2
      rw [run_readLoop_chunk out session channel rfl, if_pos hout.1, List.length_cons, ← replicate_pass,
        Nat.add_comm reads.length, ← Nat.add_assoc]
      exact hrest

/-- The same trace in `send_remote_command`. -/
theorem run_copyAnswer_trace {reads : List ReadChunk} {k : Nat} {l : CallLog}
    (hout : WritesFull out k reads) :
    (copyAnswer out session channel reads).run ⟨k, l⟩ = (copyAnswer out session channel []).run
      ⟨k + reads.length, List.replicate reads.length (.pass .sshChannelRead (some channel.number)) ++ l⟩ := by
  induction reads generalizing k l with
  | nil => rfl
  | cons c reads ih =>
    have hrest := ih (l := .pass .sshChannelRead (some channel.number) :: l) hout.2
    rw [List.length_cons, ← replicate_pass, Nat.add_comm reads.length, ← Nat.add_assoc, ← hrest, copyAnswer]
    simp only [write, EStateM.run_bind, run_onSession, hout.1, ne_eq, not_true, if_false, run_note]

/-- What follows the loops is the same, but for the verdict. -/
theorem run_finishCheck_trace {r : Reading} (hr : r.nbytes = session.lastRead) (t : Tracked Stdout) :
    ∃ node code t', (finishCheck channel r).run t = .ok node t' ∧
      (copyAnswer out session channel []).run t = .ok code t' := by
  rw [finishCheck, copyAnswer, hr]
  by_cases hlast : session.lastRead < 0
  · rw [if_pos hlast, if_pos hlast]
    exact ⟨_, _, _, rfl, rfl⟩
  · rw [if_neg hlast, if_neg hlast]
    exact ⟨_, _, _, rfl, rfl⟩

/-- With full writes the check of a node does what the command does. -/
theorem checkNode_trace {w : Watched} {rounds : Nat} (hr : w.session.reads.length < rounds) {t : Tracked Stdout}
    (hout : WritesFull out t.session w.session.delivered) :
    ∃ node code t', (checkNode out rounds w).run t = .ok node t' ∧
      (sendRemoteCommand out w.session).run t = .ok code t' := by
  by_cases h : w.session.Executes
  · rw [NodeSession.delivered, if_pos h] at hout
    rw [run_checkNode_executes out h, run_sendRemoteCommand_executes h, EStateM.run_bind,
      run_readLoop_trace (r := ⟨w.node, w.session.reads, w.buffer, 0⟩) hr hout, run_copyAnswer_trace hout]
    exact run_finishCheck_trace rfl _
  · simp only [checkNode, sendRemoteCommand, sshChannelNew, EStateM.run_bind, run_issuing]
    cases hnew : w.session.channelNew with
    | false => exact ⟨_, _, _, rfl, rfl⟩
    | true =>
      by_cases hopen : w.session.openSession = SSH_OK
      · have hexec : w.session.requestExec ≠ SSH_OK := fun hexec => h ⟨hnew, hopen, hexec⟩
        simp only [if_true, EStateM.run_bind, run_sshChannelOpenSession, hopen, ne_eq, not_true, if_false,
          run_sshChannelRequestExec, hexec, not_false_eq_true]
        exact ⟨_, _, _, rfl, rfl⟩
      · simp only [if_true, EStateM.run_bind, run_sshChannelOpenSession, ne_eq, hopen, not_false_eq_true]
        exact ⟨_, _, _, rfl, rfl⟩

/-- With full writes a round does what the commands do, one after the other. -/
theorem checkStorageNodes_trace {ws : List Watched} {rounds : Nat} (hr : enoughRounds ws ≤ rounds) {t : Tracked Stdout}
    (hout : WritesFull out t.session (chunksRead ws)) (ht : Owes [] t.log) :
    ∃ nodes codes t', (checkStorageNodes out rounds ws).run t = .ok nodes t' ∧
      (sendRemoteCommands out (ws.map Watched.session)).run t = .ok codes t' := by
  induction ws generalizing t with
  | nil => exact ⟨[], [], t, rfl, rfl⟩
  | cons w ws ih =>
    rw [enoughRounds] at hr
    rw [chunksRead, List.flatMap_cons, writesFull_append] at hout
    have hlt : w.session.reads.length < rounds := by omega
    obtain ⟨node, code, t₁, hnode, hcode⟩ := checkNode_trace hlt hout.1
    obtain ⟨log', hfull, howes⟩ := run_checkNode_full out hlt hout.1 ht
    rw [hnode] at hfull
    cases hfull
    obtain ⟨nodes, codes, t₂, hnodes, hcodes⟩ := ih (t := ⟨_, log'⟩) (by omega) hout.2 howes
    refine ⟨w.outcome :: nodes, code :: codes, t₂, ?_, ?_⟩
    · rw [checkStorageNodes, EStateM.run_bind, hnode]
      simp only [EStateM.run_bind, hnodes]
      rfl
    · rw [List.map_cons, sendRemoteCommands, EStateM.run_bind, hcode]
      simp only [EStateM.run_bind, hcodes]
      rfl

/-- What the code of the command says about the node. -/
def Watched.byCode (w : Watched) (code : Int) : StorageNode :=
  if code = SSH_OK then w.node.judge ((fill w.buffer w.session.reads).headD 0) else w.node.mark false

theorem map_outcome_eq {ws : List Watched} {k : Nat} (hout : WritesFull out k (chunksRead ws)) :
    ws.map Watched.outcome = List.zipWith Watched.byCode ws (remoteCodes out k (ws.map Watched.session)) := by
  induction ws generalizing k with
  | nil => rfl
  | cons w ws ih =>
    rw [chunksRead, List.flatMap_cons, writesFull_append] at hout
    have hcode : remoteCode out w.session k = SSH_OK ↔ w.session.Executes ∧ w.session.lastRead = 0 := by
      rw [remoteCode_eq_ok_iff]
      constructor
      · exact fun h => ⟨h.1, h.2.2⟩
      · intro h
        have hfull := hout.1
        rw [NodeSession.delivered, if_pos h.1] at hfull
        exact ⟨h.1, hfull, h.2⟩
    rw [List.map_cons, List.map_cons, remoteCodes, List.zipWith_cons_cons, writesMade_of_full hout.1, ih hout.2,
      Watched.outcome, Watched.byCode, if_congr hcode rfl rfl]

end Inlined

/-- A round over the nodes leaves the same trace of channels and writes as the commands on their sessions exactly if
every write is full; and then a node is judged by its answer if its command succeeds, and is down if not. -/
theorem check_round_matches_commands_iff (out : Nat → Nat → Int) (ws : List Watched) (k : Nat) :
    ((∃ rounds nodes codes t, (checkStorageNodes out rounds ws).run ⟨k, []⟩ = .ok nodes t ∧
      (sendRemoteCommands out (ws.map Watched.session)).run ⟨k, []⟩ = .ok codes t) ↔
        WritesFull out k (chunksRead ws)) ∧
    ∀ rounds ≥ enoughRounds ws, WritesFull out k (chunksRead ws) → ∃ nodes codes t,
      (checkStorageNodes out rounds ws).run ⟨k, []⟩ = .ok nodes t ∧
      (sendRemoteCommands out (ws.map Watched.session)).run ⟨k, []⟩ = .ok codes t ∧
      nodes = List.zipWith Watched.byCode ws codes := by
  have hstart : Owes [] ([] : CallLog) := owes_nil.mpr ⟨trivial, nofun⟩
  obtain ⟨t₀, hcommands, howes⟩ := run_sendRemoteCommands out (ws.map Watched.session) (t := ⟨k, []⟩) hstart
  refine ⟨⟨?_, fun hout => ?_⟩, fun rounds hr hout => ?_⟩
  · rintro ⟨rounds, nodes, codes, t, hcheck, hsend⟩
    rw [hcommands] at hsend
    cases hsend
    exact writesFull_of_checkStorageNodes out hcheck howes.wellUsed
  · obtain ⟨nodes, codes, t, hcheck, hsend⟩ := checkStorageNodes_trace (Nat.le_refl _) (t := ⟨k, []⟩) hout hstart
    exact ⟨_, nodes, codes, t, hcheck, hsend⟩
  · obtain ⟨nodes, codes, t, hcheck, hsend⟩ := checkStorageNodes_trace hr (t := ⟨k, []⟩) hout hstart
    obtain ⟨t₁, hfull, -⟩ := run_checkStorageNodes_full out hr (t := ⟨k, []⟩) hout hstart
    have hnodes := hcheck
    rw [hfull] at hnodes
    have hcodes := hsend
    rw [hcommands] at hcodes
    cases hnodes
    cases hcodes
    exact ⟨_, _, _, hcheck, hsend, map_outcome_eq hout⟩

end MGFileSystem
