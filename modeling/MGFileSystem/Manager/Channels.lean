import MGFileSystem.Manager.StorageNodes

/-! What becomes of the channels of a check. A write that fails frees the channel inside the
read loop, which then goes on with it. -/
namespace MGFileSystem
open HandleLog Tracked

/-- A method that only adds to the log, whether it returns or fails. -/
def Extends {σ α : Type} (m : Method (Tracked σ) α) : Prop := ∀ t, t.log <:+ (m.left t).log

namespace Extends
variable {σ α β : Type} {m : Method (Tracked σ) α}

theorem pure (a : α) : Extends (σ := σ) (pure a) := fun _ => List.suffix_rfl

theorem throw (e : Fault) : Extends (σ := σ) (α := α) (throw e) := fun _ => List.suffix_rfl

theorem note (e : HandleEvent LibsshCall Nat) : Extends (σ := σ) (note e) := fun _ => List.suffix_cons _ _

theorem onSession (call : σ → α × σ) : Extends (onSession call) := fun _ => List.suffix_rfl

theorem bind (h : Extends m) {f : α → Method (Tracked σ) β} (hf : ∀ a, Extends (f a)) : Extends (m >>= f) := by
  intro t
  have hm := h t
  rw [Method.left] at hm ⊢
  rw [EStateM.run_bind]
  cases hrun : m.run t with
  | ok a t' =>
    rw [hrun] at hm
    exact hm.trans (hf a t')
  | error e t' =>
    rw [hrun] at hm
    exact hm

theorem issuing (call : σ → Option α × σ) : Extends (issuing call) := by
  intro t
  rw [Method.left, run_issuing]
  cases (call t.session).1 with
  | none => exact List.suffix_rfl
  | some a => exact List.suffix_cons _ _

theorem of_ok (h : Extends m) {t t' : Tracked σ} {a : α} (hrun : m.run t = .ok a t') : t.log <:+ t'.log := by
  have hm := h t
  rwa [Method.left, hrun] at hm

end Extends

variable (out : Nat → Nat → Int)

theorem extends_readLoop (session : NodeSession) (channel : Numbered Unit) (rounds : Nat) (r : Reading) :
    Extends (readLoop out session channel rounds r) := by
  induction rounds generalizing r with
  | zero => exact .throw _
  | succ rounds ih =>
    rw [readLoop]
    split
    · apply (Extends.onSession _).bind
      intro n
      split
      · exact (Extends.note _).bind fun _ => (Extends.note _).bind fun _ => ih _
      · exact ((Extends.note _).bind fun _ => .pure _).bind fun r' => ih r'
    · exact .pure _

theorem extends_finishCheck (channel : Numbered Unit) (r : Reading) : Extends (finishCheck channel r) := by
  rw [finishCheck]
  split
  · exact (Extends.note _).bind fun _ => (Extends.note _).bind fun _ => .pure _
  · exact (Extends.note _).bind fun _ => (Extends.note _).bind fun _ => (Extends.note _).bind fun _ => .pure _

theorem extends_checkNode (rounds : Nat) (w : Watched) : Extends (checkNode out rounds w) := by
  apply (Extends.issuing _).bind
  rintro (_ | channel)
  · exact .pure _
  · apply ((Extends.note _).bind fun _ => .pure _).bind
    intro opened
    split
    · exact (Extends.note _).bind fun _ => .pure _
    · apply ((Extends.note _).bind fun _ => .pure _).bind
      intro rc
      split
      · exact (Extends.note _).bind fun _ => (Extends.note _).bind fun _ => .pure _
      · apply ((Extends.note _).bind fun _ => .pure _).bind
        intro r
        exact (extends_readLoop out w.session channel rounds r).bind fun _ => extends_finishCheck channel _

theorem extends_checkStorageNodes (rounds : Nat) (ws : List Watched) : Extends (checkStorageNodes out rounds ws) := by
  induction ws with
  | nil => exact .pure _
  | cons w ws ih => exact (extends_checkNode out rounds w).bind fun _ => ih.bind fun _ => .pure _

/-- The writes of the chunks, the first of them the `k`-th write of all, are full. -/
def WritesFull : Nat → List ReadChunk → Prop
  | _, [] => True
  | k, c :: reads => out k c.data.length = c.data.length ∧ WritesFull (k + 1) reads

instance (k : Nat) (reads : List ReadChunk) : Decidable (WritesFull out k reads) := by
  induction reads generalizing k with
  | nil => exact .isTrue trivial
  | cons c reads ih => exact inferInstanceAs (Decidable (_ ∧ WritesFull out (k + 1) reads))

namespace NodeSession

/-- The channel is opened and executes the command. -/
def Executes (s : NodeSession) : Prop := s.channelNew = true ∧ s.openSession = SSH_OK ∧ s.requestExec = SSH_OK

instance (s : NodeSession) : Decidable s.Executes := inferInstanceAs (Decidable (_ ∧ _ ∧ _))

/-- The chunks that a check reads from the session. -/
def delivered (s : NodeSession) : List ReadChunk := if s.Executes then s.reads else []

end NodeSession

section Loop
variable (session : NodeSession) (channel : Numbered Unit)

theorem run_readLoop_end {r : Reading} (h : r.reads = []) (rounds : Nat) (t : Tracked Stdout) :
    (readLoop out session channel (rounds + 1) (r.next session)).run t = .ok (r.next session) t := by
  have hnbytes : (r.next session).nbytes = session.lastRead := by rw [Reading.next, h]
  have hended := session.ended
  rw [readLoop, if_neg (by omega)]
  rfl

/-- One round after a chunk was read. -/
theorem run_readLoop_chunk {r : Reading} {c : ReadChunk} {reads : List ReadChunk} (h : r.reads = c :: reads)
    (rounds : Nat) (t : Tracked Stdout) :
    (readLoop out session channel (rounds + 1) (r.next session)).run t =
      if out t.session c.data.length = c.data.length then
        (readLoop out session channel rounds ((r.next session).next session)).run
          ⟨t.session + 1, .pass .sshChannelRead (some channel.number) :: t.log⟩
      else
        (readLoop out session channel rounds { r.next session with node := r.node.mark false }).run
          ⟨t.session + 1, .release (some channel.number) :: .pass .sshChannelClose (some channel.number) :: t.log⟩ := by
  have hnbytes : (r.next session).nbytes = c.data.length := by rw [Reading.next, h]
  have hnode : (r.next session).node = r.node := by rw [Reading.next, h]
  have hpos := List.length_pos_iff.mpr c.data_ne
  rw [readLoop, if_pos (by omega), hnbytes, hnode, Int.toNat_natCast]
  simp only [write, EStateM.run_bind, run_onSession]
  by_cases hfull : out t.session c.data.length = c.data.length
  · rw [if_neg (not_not.mpr hfull), if_pos hfull]
    rfl
  · rw [if_pos hfull, if_neg hfull, ← hnbytes]
    rfl

/-- What the buffer holds after the chunks were read. -/
def fill (buffer : Memory) : List ReadChunk → Memory
  | [] => buffer
  | c :: reads => fill (c.data ++ buffer.drop c.data.length) reads

/-- While the writes are full the loop reads to the end of the answer and keeps the channel. -/
theorem run_readLoop_full {r : Reading} {rounds k : Nat} {log : CallLog} (hr : r.reads.length < rounds)
    (hout : WritesFull out k r.reads) (hlog : Owes [channel.number] log) :
    ∃ log', (readLoop out session channel rounds (r.next session)).run ⟨k, log⟩ =
        .ok { node := r.node, reads := [], buffer := fill r.buffer r.reads, nbytes := session.lastRead }
          ⟨k + r.reads.length, log'⟩ ∧ Owes [channel.number] log' := by
  obtain ⟨node, reads, buffer, nbytes⟩ := r
  dsimp only at hr hout ⊢
  induction reads generalizing buffer nbytes rounds k log with
  | nil =>
    cases rounds with
    | zero => exact absurd hr (Nat.not_lt_zero _)
    | succ rounds => exact ⟨log, run_readLoop_end out session channel rfl rounds _, hlog⟩
  | cons c reads ih =>
    cases rounds with
    | zero => exact absurd hr (Nat.not_lt_zero _)
    | succ rounds =>
      have hpass := hlog.pass (r := channel.number) .sshChannelRead List.mem_cons_self
      obtain ⟨log', hrun, howes⟩ := ih hpass (c.data ++ buffer.drop c.data.length) c.data.length
        (Nat.lt_of_succ_lt_succ hr) hout.2
      refine ⟨log', ?_, howes⟩
      rw [run_readLoop_chunk out session channel rfl, if_pos hout.1, List.length_cons, Nat.add_comm reads.length,
        ← Nat.add_assoc]
      exact hrun

/-- Whatever the next write does, a loop whose channel was freed goes on to use it. -/
theorem readLoop_freed {r r' : Reading} {rounds : Nat} {t t' : Tracked Stdout} (hn : 0 < r.nbytes)
    (ht : ¬ Live t.log channel.number) (hrun : (readLoop out session channel rounds r).run t = .ok r' t') :
    ¬ WellUsed t'.log := by
  cases rounds with
  | zero => cases hrun
  | succ rounds =>
    -- Either the channel is closed again, or it is read.
    have huse : ∀ {call : LibsshCall} {l : CallLog}, .pass call (some channel.number) :: t.log <:+ l →
        ¬ WellUsed l := by
      intro call l hl hused
      obtain ⟨⟨x, hx, hlive⟩, -⟩ := hused.of_suffix hl
      cases hx
      exact ht hlive
    rw [readLoop, if_pos hn] at hrun
    simp only [write, EStateM.run_bind, run_onSession] at hrun
    split at hrun
    · have hext := (extends_readLoop out session channel rounds _).of_ok hrun
      exact huse ((List.suffix_cons _ _).trans hext)
    · exact huse ((extends_readLoop out session channel rounds _).of_ok hrun)

/-- With a standard output that refuses every write the loop does not end. -/
theorem readLoop_stuck {r : Reading} {t : Tracked Stdout} (hout : ∀ k n, out k n < 0) (hn : 0 < r.nbytes)
    (rounds : Nat) : ∃ t', (readLoop out session channel rounds r).run t = .error .outOfRounds t' := by
  induction rounds generalizing r t with
  | zero => exact ⟨t, rfl⟩
  | succ rounds ih =>
    have hfail : out t.session r.nbytes.toNat ≠ r.nbytes := by
      have hneg := hout t.session r.nbytes.toNat
      omega
    obtain ⟨t', hrun⟩ := ih (r := { r with node := r.node.mark false })
      (t := ⟨t.session + 1, .release (some channel.number) :: .pass .sshChannelClose (some channel.number) :: t.log⟩) hn
    refine ⟨t', ?_⟩
    rw [readLoop, if_pos hn]
    simp only [write, EStateM.run_bind, run_onSession, if_pos hfail]
    exact hrun

/-- A loop that ends and leaves a well-used log behind had full writes. -/
theorem writesFull_of_readLoop {r r' : Reading} {rounds : Nat} {t t' : Tracked Stdout}
    (hrun : (readLoop out session channel rounds (r.next session)).run t = .ok r' t') (ht : WellUsed t'.log) :
    WritesFull out t.session r.reads ∧ t'.session = t.session + r.reads.length := by
  obtain ⟨node, reads, buffer, nbytes⟩ := r
  dsimp only at hrun ⊢
  induction reads generalizing buffer nbytes rounds t with
  | nil =>
    cases rounds with
    | zero => cases hrun
    | succ rounds =>
      rw [run_readLoop_end out session channel rfl] at hrun
      cases hrun
      exact ⟨trivial, rfl⟩
  | cons c reads ih =>
    cases rounds with
    | zero => cases hrun
    | succ rounds =>
      rw [run_readLoop_chunk out session channel rfl] at hrun
      split at hrun
      · rename_i hfull
        obtain ⟨hrest, hcalls⟩ := ih _ _ hrun
        exact ⟨⟨hfull, hrest⟩, hcalls.trans (Nat.add_right_comm _ _ _)⟩
      · have hpos := List.length_pos_iff.mpr c.data_ne
        refine absurd ht (readLoop_freed out session channel ?_ ?_ hrun)
        · exact Int.natCast_pos.mpr hpos
        · exact fun hlive => hlive.2 List.mem_cons_self

end Loop

/-- The node after its check, when every write was full. -/
def Watched.outcome (w : Watched) : StorageNode :=
  if w.session.Executes ∧ w.session.lastRead = 0 then w.node.judge ((fill w.buffer w.session.reads).headD 0)
  else w.node.mark false

theorem run_finishCheck (channel : Numbered Unit) (r : Reading) (t : Tracked Stdout) :
    ∃ log', (finishCheck channel r).run t =
        .ok (if r.nbytes < 0 then r.node.mark false else r.node.judge (r.buffer.headD 0)) ⟨t.session, log'⟩ ∧
      (Owes [channel.number] t.log → Owes [] log') := by
  rw [finishCheck]
  split
  · exact ⟨_, rfl, fun ht => (ht.pass _ List.mem_cons_self).release⟩
  · exact ⟨_, rfl, fun ht => ((ht.pass _ List.mem_cons_self).pass _ List.mem_cons_self).release⟩

/-- The log after a new channel was opened and the command executed on it. -/
def executed (log : CallLog) : CallLog :=
  .pass .sshChannelRequestExec (some (fresh log)) :: .pass .sshChannelOpenSession (some (fresh log)) ::
    .issue (fresh log) :: log

theorem owes_opened {log : CallLog} (h : Owes [] log) :
    Owes [fresh log] (.pass .sshChannelOpenSession (some (fresh log)) :: .issue (fresh log) :: log) :=
  (h.issue (fresh_not_mem log)).pass _ List.mem_cons_self

theorem owes_executed {log : CallLog} (h : Owes [] log) : Owes [fresh log] (executed log) :=
  (owes_opened h).pass _ List.mem_cons_self

/-- A check that gets no answer returns and keeps no channel. -/
theorem run_checkNode_refused {w : Watched} (h : ¬ w.session.Executes) (rounds : Nat) (t : Tracked Stdout) :
    ∃ log', (checkNode out rounds w).run t = .ok (w.node.mark false) ⟨t.session, log'⟩ ∧
      (Owes [] t.log → Owes [] log') := by
  simp only [checkNode, sshChannelNew, EStateM.run_bind, run_issuing]
  cases hnew : w.session.channelNew with
  | false => exact ⟨_, rfl, id⟩
  | true =>
    by_cases hopen : w.session.openSession = SSH_OK
    · have hexec : w.session.requestExec ≠ SSH_OK := fun hexec => h ⟨hnew, hopen, hexec⟩
      refine ⟨_, ?_, fun ht => ((owes_executed ht).pass .sshChannelClose List.mem_cons_self).release⟩
      simp only [if_true, EStateM.run_bind, run_sshChannelOpenSession, hopen, ne_eq, not_true, if_false,
        run_sshChannelRequestExec, if_pos hexec]
      rfl
    · refine ⟨_, ?_, fun ht => (owes_opened ht).release⟩
      simp only [if_true, EStateM.run_bind, run_sshChannelOpenSession, ne_eq, hopen, not_false_eq_true]
      rfl

/-- A check that gets an answer reads it. -/
theorem run_checkNode_executes {w : Watched} (h : w.session.Executes) (rounds : Nat) (t : Tracked Stdout) :
    (checkNode out rounds w).run t =
      (do finishCheck ⟨fresh t.log, ()⟩ (← readLoop out w.session ⟨fresh t.log, ()⟩ rounds
        (Reading.next ⟨w.node, w.session.reads, w.buffer, 0⟩ w.session))).run
        ⟨t.session, .pass .sshChannelRead (some (fresh t.log)) :: executed t.log⟩ := by
  obtain ⟨hnew, hopen, hexec⟩ := h
  simp only [checkNode, sshChannelNew, EStateM.run_bind, run_issuing, hnew, if_true, run_sshChannelOpenSession, hopen,
    run_sshChannelRequestExec, hexec, ne_eq, not_true, if_false, run_sshChannelRead, executed]

/-- A check with full writes returns and releases its channel. -/
theorem run_checkNode_full {w : Watched} {rounds : Nat} {t : Tracked Stdout} (hr : w.session.reads.length < rounds)
    (hout : WritesFull out t.session w.session.delivered) (ht : Owes [] t.log) :
    ∃ log', (checkNode out rounds w).run t =
        .ok w.outcome ⟨t.session + w.session.delivered.length, log'⟩ ∧ Owes [] log' := by
  by_cases h : w.session.Executes
  · rw [NodeSession.delivered, if_pos h] at hout ⊢
    obtain ⟨log₁, hloop, howes⟩ := run_readLoop_full out w.session ⟨fresh t.log, ()⟩
      (r := ⟨w.node, w.session.reads, w.buffer, 0⟩) hr hout ((owes_executed ht).pass _ List.mem_cons_self)
    obtain ⟨log₂, hfinish, hdone⟩ := run_finishCheck ⟨fresh t.log, ()⟩
      ⟨w.node, [], fill w.buffer w.session.reads, w.session.lastRead⟩
      ⟨t.session + w.session.reads.length, log₁⟩
    refine ⟨log₂, ?_, hdone howes⟩
    rw [run_checkNode_executes out h, EStateM.run_bind, hloop]
    refine hfinish.trans (congrArg (EStateM.Result.ok · _) ?_)
    have hended := w.session.ended
    rw [Watched.outcome]
    by_cases hz : w.session.lastRead = 0
    · rw [if_neg (Int.not_lt.mpr (Int.le_of_eq hz.symm)), if_pos ⟨h, hz⟩]
    · rw [if_pos (Int.lt_iff_le_and_ne.mpr ⟨hended, hz⟩), if_neg fun hc => hz hc.2]
  · obtain ⟨log', hrun, howes⟩ := run_checkNode_refused out h rounds t
    refine ⟨log', ?_, howes ht⟩
    rw [NodeSession.delivered, if_neg h, Watched.outcome, if_neg fun hc => h hc.1, hrun]
    rfl

/-- A check that returns and leaves a well-used log behind had full writes. -/
theorem writesFull_of_checkNode {w : Watched} {rounds : Nat} {t t' : Tracked Stdout} {node : StorageNode}
    (hrun : (checkNode out rounds w).run t = .ok node t') (ht : WellUsed t'.log) :
    WritesFull out t.session w.session.delivered ∧ t'.session = t.session + w.session.delivered.length := by
  by_cases h : w.session.Executes
  · rw [run_checkNode_executes out h, EStateM.run_bind] at hrun
    rw [NodeSession.delivered, if_pos h]
    split at hrun
    · rename_i r t₁ hloop
      obtain ⟨log', hfinish, -⟩ := run_finishCheck ⟨fresh t.log, ()⟩ r t₁
      have hsuffix := (extends_finishCheck _ r).of_ok hrun
      obtain ⟨hfull, hcalls⟩ := writesFull_of_readLoop out w.session _ hloop (ht.of_suffix hsuffix)
      rw [hfinish] at hrun
      cases hrun
      exact ⟨hfull, hcalls⟩
    · cases hrun
  · obtain ⟨log', hrefused, -⟩ := run_checkNode_refused out h rounds t
    rw [hrefused] at hrun
    cases hrun
    rw [NodeSession.delivered, if_neg h]
    exact ⟨trivial, rfl⟩

theorem writesFull_append {k : Nat} {front back : List ReadChunk} :
    WritesFull out k (front ++ back) ↔ WritesFull out k front ∧ WritesFull out (k + front.length) back := by
  induction front generalizing k with
  | nil => exact (and_iff_right trivial).symm
  | cons c front ih =>
    rw [List.cons_append, WritesFull, WritesFull, ih, and_assoc, List.length_cons, Nat.add_comm front.length,
      Nat.add_assoc]

/-- The chunks that a round reads, node after node. -/
def chunksRead (ws : List Watched) : List ReadChunk := ws.flatMap fun w => w.session.delivered

/-- Rounds enough for every read loop. -/
def enoughRounds : List Watched → Nat
  | [] => 0
  | w :: ws => w.session.reads.length + 1 + enoughRounds ws

/-- A round with full writes returns, gives every node its own outcome and releases every channel. -/
theorem run_checkStorageNodes_full {ws : List Watched} {rounds : Nat} {t : Tracked Stdout}
    (hr : enoughRounds ws ≤ rounds) (hout : WritesFull out t.session (chunksRead ws)) (ht : Owes [] t.log) :
    ∃ t', (checkStorageNodes out rounds ws).run t = .ok (ws.map Watched.outcome) t' ∧ Owes [] t'.log := by
  induction ws generalizing t with
  | nil => exact ⟨t, rfl, ht⟩
  | cons w ws ih =>
    rw [enoughRounds] at hr
    rw [chunksRead, List.flatMap_cons, writesFull_append] at hout
    have hloop : w.session.reads.length < rounds := by omega
    obtain ⟨log', hnode, howes⟩ := run_checkNode_full out hloop hout.1 ht
    obtain ⟨t', hrest, hdone⟩ := ih (t := ⟨_, log'⟩) (by omega) hout.2 howes
    refine ⟨t', ?_, hdone⟩
    rw [checkStorageNodes, EStateM.run_bind, hnode]
    simp only [EStateM.run_bind, hrest]
    rfl

theorem writesFull_of_checkStorageNodes {ws : List Watched} {rounds : Nat} {t t' : Tracked Stdout}
    {nodes : List StorageNode} (hrun : (checkStorageNodes out rounds ws).run t = .ok nodes t')
    (ht : WellUsed t'.log) :
    WritesFull out t.session (chunksRead ws) := by
  induction ws generalizing t nodes with
  | nil => trivial
  | cons w ws ih =>
    rw [checkStorageNodes, EStateM.run_bind] at hrun
    split at hrun
    · rename_i node t₁ hnode
      rw [EStateM.run_bind] at hrun
      split at hrun
      · rename_i rest t₂ hrest
        cases hrun
        have hsuffix := (extends_checkStorageNodes out rounds ws).of_ok hrest
        obtain ⟨hfull, hcalls⟩ := writesFull_of_checkNode out hnode (ht.of_suffix hsuffix)
        have htail := ih hrest
        rw [hcalls] at htail
        exact (writesFull_append out).mpr ⟨hfull, htail⟩
      · cases hrun
    · cases hrun

/-- Whatever the nodes answer, a round ends and releases every channel once, using none after that, exactly when
every `write` of the answers is full. -/
theorem check_releases_channels_iff (ws : List Watched) :
    (∃ rounds nodes t, (checkStorageNodes out rounds ws).run ⟨0, []⟩ = .ok nodes t ∧
      WellUsed t.log ∧ ReleasedOnce t.log) ↔ WritesFull out 0 (chunksRead ws) := by
  constructor
  · rintro ⟨rounds, nodes, t, hrun, hused, -⟩
    exact writesFull_of_checkStorageNodes out hrun hused
  · intro hout
    obtain ⟨t, hrun, howes⟩ := run_checkStorageNodes_full out (t := ⟨0, []⟩) (Nat.le_refl _) hout
      (owes_nil.mpr ⟨trivial, nofun⟩)
    exact ⟨_, _, t, hrun, owes_nil.mp howes⟩

/-- A node that answers "0" and a newline in one read. -/
def answering : Watched where
  node := { ip := text "10.0.0.2", reachable := false, responsive := false, fsAvailable := false }
  session :=
    { channelNew := true, openSession := SSH_OK, requestExec := SSH_OK
      reads := [⟨[48, 10], by decide, by decide⟩], lastRead := 0, ended := Int.le_refl 0 }
  buffer := []

/-- The standard output of a daemon may be closed. Then the answer of one node keeps the round going for ever. -/
theorem check_hangs_without_stdout :
    (∀ rounds, ∃ t, (checkStorageNodes (fun _ _ => -1) rounds [answering]).run ⟨0, []⟩ = .error .outOfRounds t) ∧
      ¬ ∃ rounds nodes t, (checkStorageNodes (fun _ _ => -1) rounds [answering]).run ⟨0, []⟩ = .ok nodes t ∧
        WellUsed t.log ∧ ReleasedOnce t.log := by
  have hstuck : ∀ rounds, ∃ t,
      (checkStorageNodes (fun _ _ => -1) rounds [answering]).run ⟨0, []⟩ = .error .outOfRounds t := by
    intro rounds
    obtain ⟨t, hloop⟩ := readLoop_stuck (fun _ _ => -1) answering.session ⟨fresh [], ()⟩
      (r := Reading.next ⟨answering.node, answering.session.reads, answering.buffer, 0⟩ answering.session)
      (t := ⟨0, .pass .sshChannelRead (some (fresh [])) :: executed []⟩)
      (fun _ _ => by decide) (by decide) rounds
    refine ⟨t, ?_⟩
    rw [checkStorageNodes, EStateM.run_bind, run_checkNode_executes _ (by decide), EStateM.run_bind, hloop]
  refine ⟨hstuck, ?_⟩
  rintro ⟨rounds, nodes, t, hrun, -⟩
  obtain ⟨t', ht'⟩ := hstuck rounds
  rw [ht'] at hrun
  cases hrun

end MGFileSystem
