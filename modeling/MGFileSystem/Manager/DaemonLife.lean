import MGFileSystem.Manager.FSmanager
import Mathlib.Data.List.ProdSigma

/-! What the daemon knows of its nodes after any number of rounds, and what becomes of its sessions from the constructor
to the destructor. -/
namespace MGFileSystem
open HandleLog Tracked
open FSmanager (addresses storageNode)

def Daemon.start : Daemon := ⟨⟨0, []⟩, []⟩

section Start
variable {dial : Bytes → NodeDialing}

theorem run_init (h : ∀ ip ∈ addresses, (dial ip).Returns) :
    ∃ sessions overwritten log', (FSmanager.connectNodes dial (addresses.map storageNode)).run .start =
        .ok ((addresses.map storageNode).map (·.greet dial), sessions, overwritten) ⟨⟨0, []⟩, log'⟩ ∧
      (FSmanager.init true dial).run .start =
        .ok ⟨(addresses.map storageNode).map (·.greet dial), sessions, []⟩ ⟨⟨0, []⟩, log'⟩ ∧
      sessions.map Option.isSome = addresses.map (fun ip => (dial ip).sshNew) ∧
      overwritten.map Option.isSome = addresses.map (fun ip => (dial ip).firstNew) ∧
      Owes (held sessions ++ held overwritten) log' := by
  have hnodes : ∀ node ∈ addresses.map storageNode, (dial node.ip).Returns := by
    intro node hnode
    obtain ⟨ip, hip, rfl⟩ := List.mem_map.mp hnode
    exact h ip hip
  obtain ⟨sessions, overwritten, log', hrun, hmap, hfirsts, howes⟩ := run_connectNodes (t := .start) hnodes owes_start
  refine ⟨sessions, overwritten, log', hrun, ?_, ?_, ?_, ?_⟩
  · simp only [FSmanager.init, Bool.true_eq_false, if_false, EStateM.run_bind, hrun]
    rfl
  · rw [hmap, List.map_map]
    rfl
  · rw [hfirsts, List.map_map]
    rfl
  · rwa [List.append_nil] at howes

theorem init_exits {logFile : Bool} (h : ¬ (logFile = true ∧ ∀ ip ∈ addresses, (dial ip).Returns)) :
    ∃ t, (FSmanager.init logFile dial).run .start = .error (.exit (-1)) t := by
  cases logFile with
  | false => exact ⟨_, rfl⟩
  | true =>
    have hnode : ∃ node ∈ addresses.map storageNode, ¬ (dial node.ip).Returns := by
      rw [not_and] at h
      have hip := h rfl
      push Not at hip
      obtain ⟨ip, hip, hexits⟩ := hip
      exact ⟨storageNode ip, List.mem_map_of_mem hip, hexits⟩
    obtain ⟨t, hrun⟩ := connectNodes_exits (t := .start) hnode owes_start
    refine ⟨t, ?_⟩
    simp only [FSmanager.init, Bool.true_eq_false, if_false, EStateM.run_bind, hrun]

end Start

section Flags
variable {dial : Bytes → NodeDialing}

namespace NodeDialing
variable (d : NodeDialing)

/-- What a round says about the node. -/
def verdict (e : Encounter) : Option Bool := if d.sshNew then e.session.verdict else some false

/-- The last verdict of the rounds, or whether the constructor connected. -/
def status (es : List Encounter) : Bool := es.foldl (fun up e => (d.verdict e).getD up) d.connected

end NodeDialing

theorem follow_eq {round : Bytes → Encounter} {node : StorageNode} (h : (round node.ip).session.Answers) :
    node.follow dial round = node.settle ((dial node.ip).verdict (round node.ip)) := by
  have hsame : ∀ e : Encounter, e.session.on true = e.session := by
    rintro ⟨⟨channelNew, _, _, _, _, _⟩, _⟩
    simp only [NodeSession.on, Bool.and_true]
  rw [StorageNode.follow, NodeDialing.verdict]
  cases hnew : (dial node.ip).sshNew with
  | true =>
    rw [Watched.outcome_eq (by rwa [Encounter.watched, hnew, hsame]), Encounter.watched, hnew, hsame]
    rfl
  | false =>
    have hfails : ¬ ((round node.ip).session.on false).Executes := by
      rintro ⟨hchannel, -⟩
      rw [NodeSession.on, Bool.and_false] at hchannel
      cases hchannel
    rw [Encounter.watched, hnew, Watched.outcome, if_neg fun hc => hfails hc.1]
    rfl

/-- Both flags of a node follow the verdicts, and the other members stay. -/
theorem followAll_eq {ip : Bytes} {rs : List (Bytes → Encounter)} (h : ∀ round ∈ rs, (round ip).session.Answers)
    (up : Bool) :
    StorageNode.followAll dial rs ⟨ip, up, up, false⟩ =
      ⟨ip, (rs.map (· ip)).foldl (fun up e => ((dial ip).verdict e).getD up) up,
        (rs.map (· ip)).foldl (fun up e => ((dial ip).verdict e).getD up) up, false⟩ := by
  induction rs generalizing up with
  | nil => rfl
  | cons round rs ih =>
    have hfollow : StorageNode.follow dial round ⟨ip, up, up, false⟩ =
        ⟨ip, ((dial ip).verdict (round ip)).getD up, ((dial ip).verdict (round ip)).getD up, false⟩ := by
      rw [follow_eq (h round List.mem_cons_self)]
      dsimp only
      cases (dial ip).verdict (round ip) <;> rfl
    rw [StorageNode.followAll, List.foldl_cons, hfollow]
    exact ih (fun r hr => h r (List.mem_cons_of_mem _ hr)) _

theorem greet_storageNode (ip : Bytes) :
    (storageNode ip).greet dial = ⟨ip, (dial ip).connected, (dial ip).connected, false⟩ := by
  rw [StorageNode.greet, storageNode]
  cases (dial ip).connected <;> rfl

end Flags

/-- Some number of rounds is enough for the read loops of all the checks. -/
theorem exists_enough (rs : List (Bytes → Encounter)) (ips : List Bytes) :
    ∃ enough, ∀ round ∈ rs, ∀ ip ∈ ips, (round ip).session.reads.length < enough := by
  have hbound : ∀ l : List ((Bytes → Encounter) × Bytes), ∃ n, ∀ e ∈ l, (e.1 e.2).session.reads.length < n := by
    intro l
    induction l with
    | nil => exact ⟨0, fun _ h => nomatch h⟩
    | cons e l ih =>
      obtain ⟨n, hn⟩ := ih
      refine ⟨(e.1 e.2).session.reads.length + 1 + n, fun e' he' => ?_⟩
      rcases List.mem_cons.mp he' with rfl | he'
      · omega
      · have hlt := hn e' he'
        omega
  obtain ⟨n, hn⟩ := hbound (rs.product ips)
  exact ⟨n, fun round hround ip hip => hn (round, ip) (List.pair_mem_product.mpr ⟨hround, hip⟩)⟩

section Life
variable {out : Nat → Nat → Int} {dial : Bytes → NodeDialing} {rs : List (Bytes → Encounter)}

variable (rs) in
/-- The daemon after its constructor and the rounds. -/
theorem run_rounds (hout : ∀ k n, out k n = n) (h : ∀ ip ∈ addresses, (dial ip).Returns) :
    ∃ nodes sessions overwritten t₀ enough,
      (FSmanager.connectNodes dial (addresses.map storageNode)).run .start = .ok (nodes, sessions, overwritten) t₀ ∧
      sessions.map Option.isSome = addresses.map (fun ip => (dial ip).sshNew) ∧
      overwritten.map Option.isSome = addresses.map (fun ip => (dial ip).firstNew) ∧
      Owes (held sessions ++ held overwritten) t₀.log ∧
      ∀ rounds ≥ enough, ∃ inner, Owes [] inner.log ∧
        (do FSmanager.mainLoop out rounds rs (← FSmanager.init true dial)).run .start =
          .ok ⟨addresses.map (fun ip => ((storageNode ip).greet dial).followAll dial rs), sessions, []⟩
            ⟨inner, passedRounds sessions rs.length t₀.log⟩ := by
  obtain ⟨sessions, overwritten, log, hconnect, hinit, hmap, hfirsts, howes⟩ := run_init h
  obtain ⟨enough, henough⟩ := exists_enough rs addresses
  refine ⟨_, sessions, overwritten, _, enough, hconnect, hmap, hfirsts, howes, fun rounds hrounds => ?_⟩
  have hsessions : sessions.map Option.isSome =
      ((addresses.map storageNode).map (·.greet dial)).map fun node => (dial node.ip).sshNew := by
    rw [hmap, List.map_map, List.map_map]
    exact List.map_congr_left fun ip _ => by rw [Function.comp_apply, Function.comp_apply, ip_greet]; rfl
  have hreads : ∀ round ∈ rs, ∀ node ∈ (addresses.map storageNode).map (·.greet dial),
      (round node.ip).session.reads.length < rounds := by
    intro round hround node hnode
    rw [List.map_map] at hnode
    obtain ⟨ip, hip, rfl⟩ := List.mem_map.mp hnode
    rw [Function.comp_apply, ip_greet]
    exact (henough round hround ip hip).trans_le hrounds
  obtain ⟨inner, hinner, hloop⟩ := run_mainLoop hout
    (m := ⟨(addresses.map storageNode).map (·.greet dial), sessions, []⟩) hsessions hreads
    (t := ⟨⟨0, []⟩, log⟩) owes_start
  refine ⟨inner, hinner, ?_⟩
  rw [EStateM.run_bind, hinit]
  refine Eq.trans hloop ?_
  rw [List.map_map, List.map_map]
  rfl

end Life

/-- With a standard output that takes everything, the daemon comes up exactly if its log file opens and no node's
authentication ends in an error. Then every round ends, and after any number of them both flags of each node are the
last verdict that the rounds gave about it, or else whether the constructor connected to it. -/
theorem daemon_follows_verdicts {out : Nat → Nat → Int} (hout : ∀ k n, out k n = n) (logFile : Bool)
    (dial : Bytes → NodeDialing) :
    (¬ (logFile = true ∧ ∀ ip ∈ addresses, (dial ip).Returns) →
      ∃ t, (FSmanager.init logFile dial).run .start = .error (.exit (-1)) t) ∧
    (logFile = true ∧ (∀ ip ∈ addresses, (dial ip).Returns) → ∀ rs : List (Bytes → Encounter),
      (∀ round ∈ rs, ∀ ip ∈ addresses, (round ip).session.Answers) → ∃ enough, ∀ rounds ≥ enough, ∃ m t,
        (do FSmanager.mainLoop out rounds rs (← FSmanager.init logFile dial)).run .start = .ok m t ∧
        m.storageNodes = addresses.map fun ip =>
          { ip, reachable := (dial ip).status (rs.map (· ip)), responsive := (dial ip).status (rs.map (· ip))
            fsAvailable := false }) := by
  refine ⟨init_exits, ?_⟩
  rintro ⟨rfl, h⟩ rs hanswers
  obtain ⟨-, sessions, -, t₀, enough, -, -, -, -, hrun⟩ := run_rounds rs hout h
  refine ⟨enough, fun rounds hrounds => ?_⟩
  obtain ⟨inner, -, hrun⟩ := hrun rounds hrounds
  refine ⟨_, _, hrun, List.map_congr_left fun ip hip => ?_⟩
  rw [greet_storageNode]
  exact followAll_eq (fun round hround => hanswers round hround ip hip) _

/-- A network on which both nodes are reached. -/
def openDial (_ip : Bytes) : NodeDialing where
  firstNew := true
  sshNew := true
  sshConnect := SSH_OK
  userauthPassword := SSH_OK
  userauthPublickeyAuto := SSH_OK

theorem openDial_returns (ip : Bytes) : (openDial ip).Returns :=
  fun _ _ h => absurd (a := SSH_OK = SSH_AUTH_ERROR) h (by decide)

/-- A round in which both nodes answer "0". -/
def bothAnswer (_ip : Bytes) : Encounter := ⟨answering.session, []⟩

/-- A round in which the second node is gone. -/
def secondGone (ip : Bytes) : Encounter :=
  if ip = text "192.168.122.189" then bothAnswer ip else ⟨unreached.session, []⟩

/-- A node that goes away between two rounds. -/
theorem daemon_follows_verdicts_gone :
    ∃ enough, ∀ rounds ≥ enough, ∃ m t,
      (do FSmanager.mainLoop (fun _ n => n) rounds [bothAnswer, secondGone] (← FSmanager.init true openDial)).run
        .start = .ok m t ∧
      m.storageNodes =
        [⟨text "192.168.122.189", true, true, false⟩, ⟨text "192.168.122.252", false, false, false⟩] := by
  have hanswering : answering.session.Answers := fun _ _ => List.cons_ne_nil _ _
  have hanswers : ∀ round ∈ [bothAnswer, secondGone], ∀ ip ∈ addresses, (round ip).session.Answers := by
    intro round hround ip _
    simp only [List.mem_cons, List.not_mem_nil, or_false] at hround
    rcases hround with rfl | rfl
    · exact hanswering
    · rw [secondGone]
      split
      · exact hanswering
      · exact fun hexec => absurd hexec (by decide)
  obtain ⟨enough, hrun⟩ := (@daemon_follows_verdicts (fun _ n => n) (fun _ _ => rfl) true openDial).2
    ⟨rfl, fun ip _ => openDial_returns ip⟩ [bothAnswer, secondGone] hanswers
  refine ⟨enough, fun rounds hrounds => ?_⟩
  obtain ⟨m, t, hlife, hnodes⟩ := hrun rounds hrounds
  exact ⟨m, t, hlife, hnodes.trans (by decide)⟩

section Sessions
variable {sessions : List (Option Nat)} {owed : List Nat} {log : CallLog}

theorem suffix_passed (sessions : List (Option Nat)) (log : CallLog) : log <:+ passed sessions log := by
  induction sessions generalizing log with
  | nil => exact List.suffix_rfl
  | cons session sessions ih => exact (List.suffix_cons _ _).trans (ih _)

theorem suffix_passedRounds (sessions : List (Option Nat)) (n : Nat) (log : CallLog) :
    log <:+ passedRounds sessions n log := by
  induction n generalizing log with
  | zero => exact List.suffix_rfl
  | succ n ih => exact (suffix_passed sessions log).trans (ih _)

theorem not_wellUsed_passed (h : none ∈ sessions) : ¬ WellUsed (passed sessions log) := by
  induction sessions generalizing log with
  | nil => cases h
  | cons session sessions ih =>
    rcases List.mem_cons.mp h with rfl | h
    · intro hused
      obtain ⟨⟨_, hr, _⟩, _⟩ := hused.of_suffix (suffix_passed sessions (.pass .sshChannelNew none :: log))
      cases hr
    · exact ih h

/-- A round with a null session spoils the log for good. -/
theorem not_wellUsed_passedRounds (h : none ∈ sessions) {n : Nat} (hn : n ≠ 0) :
    ¬ WellUsed (passedRounds sessions n log) := by
  obtain ⟨m, rfl⟩ := Nat.exists_eq_succ_of_ne_zero hn
  exact fun hw => not_wellUsed_passed h (hw.of_suffix (suffix_passedRounds sessions m _))

theorem owes_passed (h : Owes owed log) (hs : ∀ session ∈ sessions, ∃ r ∈ owed, session = some r) :
    Owes owed (passed sessions log) := by
  induction sessions generalizing log with
  | nil => exact h
  | cons session sessions ih =>
    obtain ⟨r, hr, rfl⟩ := hs session List.mem_cons_self
    exact ih (h.pass _ hr) fun s hm => hs s (List.mem_cons_of_mem _ hm)

theorem owes_passedRounds (n : Nat) (h : Owes owed log) (hs : ∀ session ∈ sessions, ∃ r ∈ owed, session = some r) :
    Owes owed (passedRounds sessions n log) := by
  induction n generalizing log with
  | zero => exact h
  | succ n ih => exact ih (owes_passed h hs)

theorem mem_held (h : none ∉ sessions) : ∀ session ∈ sessions, ∃ r ∈ held sessions, session = some r := by
  rintro (_ | r) hm
  · exact absurd hm h
  · exact ⟨r, List.mem_filterMap.mpr ⟨some r, hm, rfl⟩, rfl⟩

theorem none_not_mem_iff {ips : List Bytes} {dial : Bytes → NodeDialing}
    (h : sessions.map Option.isSome = ips.map fun ip => (dial ip).sshNew) :
    none ∉ sessions ↔ ∀ ip ∈ ips, (dial ip).sshNew = true := by
  have hall : (∀ b ∈ sessions.map Option.isSome, b = true) ↔ ∀ b ∈ ips.map (fun ip => (dial ip).sshNew), b = true := by
    rw [h]
  rw [List.forall_mem_map, List.forall_mem_map] at hall
  rw [← hall]
  constructor
  · intro hn session hm
    obtain ⟨r, -, rfl⟩ := mem_held hn session hm
    rfl
  · exact fun hsome hm => Bool.false_ne_true (hsome none hm)

/-- The destructor frees what is held. -/
theorem run_releaseSessions {t : Daemon} (ht : Owes (held sessions ++ owed) t.log) :
    ∃ log', (FSmanager.releaseSessions sessions).run t = .ok () ⟨t.session, log'⟩ ∧ Owes owed log' := by
  induction sessions generalizing t with
  | nil => exact ⟨t.log, rfl, ht⟩
  | cons session sessions ih =>
    cases session with
    | none => exact ih ht
    | some r =>
      have hpassed : Owes (r :: (held sessions ++ owed)) (.pass .sshDisconnect (some r) :: t.log) :=
        ht.pass _ List.mem_cons_self
      obtain ⟨log', hrun, howes⟩ :=
        ih (t := ⟨t.session, .release (some r) :: .pass .sshDisconnect (some r) :: t.log⟩) hpassed.release
      exact ⟨log', hrun, howes⟩

theorem run_releaseSessions_misused (sessions : List (Option Nat)) {t : Daemon} (ht : ¬ WellUsed t.log) :
    ∃ log', (FSmanager.releaseSessions sessions).run t = .ok () ⟨t.session, log'⟩ ∧ ¬ WellUsed log' := by
  induction sessions generalizing t with
  | nil => exact ⟨t.log, rfl, ht⟩
  | cons session sessions ih =>
    cases session with
    | none => exact ih ht
    | some r =>
      exact ih (t := ⟨t.session, .release (some r) :: .pass .sshDisconnect (some r) :: t.log⟩) fun hw => ht hw.2.2

end Sessions

/-- With a standard output that takes everything, a manager that comes up, makes any number of rounds and is destroyed
has released every channel once. It has used its sessions rightly exactly if there were no rounds or each node got a
session; and then it has released all of them once but those that the constructor's own `ssh_new` returned, which
are lost. -/
theorem daemon_loses_first_sessions {out : Nat → Nat → Int} (hout : ∀ k n, out k n = n) {dial : Bytes → NodeDialing}
    (h : ∀ ip ∈ addresses, (dial ip).Returns) (rs : List (Bytes → Encounter)) :
    ∃ nodes sessions overwritten t₀,
      (FSmanager.connectNodes dial (addresses.map storageNode)).run .start = .ok (nodes, sessions, overwritten) t₀ ∧
      overwritten.map Option.isSome = addresses.map (fun ip => (dial ip).firstNew) ∧
      ∃ enough, ∀ rounds ≥ enough, ∃ t,
        (do FSmanager.destroy (← FSmanager.mainLoop out rounds rs (← FSmanager.init true dial))).run .start = .ok () t ∧
        WellUsed t.session.log ∧ ReleasedOnce t.session.log ∧
        (WellUsed t.log ↔ rs = [] ∨ ∀ ip ∈ addresses, (dial ip).sshNew = true) ∧
        (WellUsed t.log → Owes (held overwritten) t.log) := by
  obtain ⟨nodes, sessions, overwritten, t₀, enough, hconnect, hmap, hfirsts, howes, hrun⟩ := run_rounds rs hout h
  refine ⟨nodes, sessions, overwritten, t₀, hconnect, hfirsts, enough, fun rounds hrounds => ?_⟩
  obtain ⟨inner, hinner, hrun⟩ := hrun rounds hrounds
  have hdestroy : ∀ log', (FSmanager.releaseSessions sessions).run
        ⟨inner, passedRounds sessions rs.length t₀.log⟩ = .ok () ⟨inner, log'⟩ →
      (do FSmanager.destroy (← FSmanager.mainLoop out rounds rs (← FSmanager.init true dial))).run .start =
        .ok () ⟨inner, log'⟩ := by
    intro log' hrelease
    rw [← bind_assoc, EStateM.run_bind, hrun]
    dsimp only
    rw [FSmanager.destroy, EStateM.run_bind, hrelease]
    rfl
  have hchannels := owes_nil.mp hinner
  have hnull := none_not_mem_iff hmap
  by_cases hused : rs = [] ∨ none ∉ sessions
  · have howes' : Owes (held sessions ++ held overwritten) (passedRounds sessions rs.length t₀.log) := by
      rcases hused with rfl | hsessions
      · exact howes
      · refine owes_passedRounds rs.length howes fun session hm => ?_
        obtain ⟨r, hr, he⟩ := mem_held hsessions session hm
        exact ⟨r, List.mem_append_left _ hr, he⟩
    obtain ⟨log', hrelease, hdone⟩ := run_releaseSessions (t := ⟨inner, _⟩) howes'
    refine ⟨⟨inner, log'⟩, hdestroy log' hrelease, hchannels.1, hchannels.2, ?_, fun _ => hdone⟩
    exact iff_of_true hdone.wellUsed (hused.imp_right hnull.mp)
  · rw [not_or, not_not] at hused
    have hmisused : ¬ WellUsed (passedRounds sessions rs.length t₀.log) :=
      not_wellUsed_passedRounds hused.2 (mt List.length_eq_zero_iff.mp hused.1)
    obtain ⟨log', hrelease, hdone⟩ := run_releaseSessions_misused sessions (t := ⟨inner, _⟩) hmisused
    refine ⟨⟨inner, log'⟩, hdestroy log' hrelease, hchannels.1, hchannels.2, ?_, fun hw => absurd hw hdone⟩
    refine iff_of_false hdone fun hor => ?_
    rcases hor with hnil | hall
    · exact hused.1 hnil
    · exact hnull.mpr hall hused.2

/-- Two nodes, two sessions lost: the first and the third that were made. -/
theorem daemon_loses_first_sessions_two :
    ∃ enough, ∀ rounds ≥ enough, ∃ t,
      (do
        let m ← FSmanager.mainLoop (fun _ n => n) rounds [bothAnswer] (← FSmanager.init true openDial)
        m.destroy).run .start = .ok () t ∧ Owes [0, 2] t.log := by
  obtain ⟨nodes, sessions, overwritten, t₀, hconnect, -, enough, hrun⟩ :=
    @daemon_loses_first_sessions (fun _ n => n) (fun _ _ => rfl) openDial (fun ip _ => openDial_returns ip) [bothAnswer]
  have hfirst : overwritten = [some 0, some 2] := by
    have hown : ∀ r t, (FSmanager.connectNodes openDial (addresses.map storageNode)).run .start = .ok r t →
        r.2.2 = [some 0, some 2] := by
      intro r t hr
      cases hr
      rfl
    exact hown _ _ hconnect
  refine ⟨enough, fun rounds hrounds => ?_⟩
  obtain ⟨t, hlife, -, -, hused, hlost⟩ := hrun rounds hrounds
  have howes := hlost (hused.mpr (.inr fun _ _ => rfl))
  rw [hfirst] at howes
  exact ⟨t, hlife, howes⟩

end MGFileSystem
