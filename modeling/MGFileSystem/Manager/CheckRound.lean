import MGFileSystem.Manager.Channels

/-! A round whose writes are all full: what every node's own session says decides about
that node alone, and a session that fails marks it as down. -/
namespace MGFileSystem
open HandleLog Tracked

/-- What a byte of the answer says: up, down, or nothing. -/
def verdictOf (b : Byte) : Option Bool := if b = 48 then some true else if b = 49 then some false else none

namespace StorageNode

def flags (node : StorageNode) : Bool × Bool := (node.reachable, node.responsive)

/-- The node after a verdict; without one it keeps its flags. -/
def settle (node : StorageNode) : Option Bool → StorageNode
  | some up => node.mark up
  | none => node

theorem judge_eq (node : StorageNode) (b : Byte) : node.judge b = node.settle (verdictOf b) := by
  rw [judge, verdictOf]
  split
  · rfl
  · split <;> rfl

theorem ip_settle (node : StorageNode) (v : Option Bool) : (node.settle v).ip = node.ip := by
  cases v <;> rfl

end StorageNode

namespace NodeSession
variable (s : NodeSession)

/-- The command fails at some stage: no channel, no session on it, no command, or a read with an error. -/
def Fails : Prop := ¬ s.Executes ∨ s.lastRead < 0

/-- An answer that ends without an error has some byte. -/
def Answers : Prop := s.Executes → s.lastRead = 0 → s.reads ≠ []

/-- What the session says about its node. -/
def verdict : Option Bool :=
  if s.Executes ∧ s.lastRead = 0 then s.reads.getLast?.bind fun c => verdictOf (c.data.headD 0) else some false

variable {s}

theorem Fails.verdict_eq (h : s.Fails) : s.verdict = some false := by
  rw [verdict, if_neg]
  rintro ⟨hexec, hz⟩
  rcases h with h | h
  · exact h hexec
  · omega

theorem verdict_of_single {c : ReadChunk} (h : s.Executes) (hz : s.lastRead = 0) (hc : s.reads = [c]) :
    s.verdict = verdictOf (c.data.headD 0) := by
  rw [verdict, if_pos ⟨h, hz⟩, hc]
  rfl

end NodeSession

/-- The first byte of the buffer comes from the last chunk. -/
theorem headD_fill (reads : List ReadChunk) (c : ReadChunk) (buffer : Memory) :
    (fill buffer (reads ++ [c])).headD 0 = c.data.headD 0 := by
  induction reads generalizing buffer with
  | nil =>
    obtain ⟨b, data, hc⟩ := List.exists_cons_of_ne_nil c.data_ne
    rw [List.nil_append, fill, fill, hc]
    rfl
  | cons c' reads ih => exact ih _

theorem Watched.outcome_eq {w : Watched} (h : w.session.Answers) : w.outcome = w.node.settle w.session.verdict := by
  rw [outcome, NodeSession.verdict]
  by_cases hc : w.session.Executes ∧ w.session.lastRead = 0
  · rw [if_pos hc, if_pos hc, StorageNode.judge_eq]
    have hlast := List.dropLast_concat_getLast (h hc.1 hc.2)
    rw [← hlast, headD_fill, List.getLast?_concat]
    rfl
  · rw [if_neg hc, if_neg hc]
    rfl

theorem writesFull_of_forall {out : Nat → Nat → Int} (hout : ∀ k n, out k n = n) (k : Nat) (reads : List ReadChunk) :
    WritesFull out k reads := by
  induction reads generalizing k with
  | nil => trivial
  | cons c reads ih => exact ⟨hout k _, ih (k + 1)⟩

/-- A round whose writes are full settles every node by its own session. -/
theorem run_checkStorageNodes {out : Nat → Nat → Int} (hout : ∀ k n, out k n = n) (ws : List Watched) (k : Nat)
    {rounds : Nat} (hr : enoughRounds ws ≤ rounds) :
    ∃ t, (checkStorageNodes out rounds ws).run ⟨k, []⟩ = .ok (ws.map Watched.outcome) t := by
  obtain ⟨t, hrun, -⟩ := run_checkStorageNodes_full out (t := ⟨k, []⟩) hr (writesFull_of_forall hout k _)
    (owes_nil.mpr ⟨trivial, nofun⟩)
  exact ⟨t, hrun⟩

/-- In a round whose writes are full every node keeps its place and its address, and its own session alone decides
about its flags: a failed one marks it as down, a single chunk that starts with '0' as up. -/
theorem check_round_fail_safe {out : Nat → Nat → Int} (hout : ∀ k n, out k n = n) {ws : List Watched}
    (hws : ∀ w ∈ ws, w.session.Answers) (k : Nat) :
    ∃ nodes, (∃ enough, ∀ rounds ≥ enough, ∃ t, (checkStorageNodes out rounds ws).run ⟨k, []⟩ = .ok nodes t) ∧
      nodes.map StorageNode.ip = ws.map (fun w => w.node.ip) ∧
      nodes = ws.map (fun w => w.node.settle w.session.verdict) ∧
      ∀ w ∈ ws, (w.session.Fails → (w.node.settle w.session.verdict).flags = (false, false)) ∧
        ∀ c, w.session.Executes → w.session.lastRead = 0 → w.session.reads = [c] → c.data.head? = some 48 →
          (w.node.settle w.session.verdict).flags = (true, true) := by
  have houtcome : ws.map Watched.outcome = ws.map (fun w => w.node.settle w.session.verdict) :=
    List.map_congr_left fun w hw => Watched.outcome_eq (hws w hw)
  refine ⟨ws.map (fun w => w.node.settle w.session.verdict), ⟨enoughRounds ws, fun rounds hr => ?_⟩, ?_, rfl,
    fun w _ => ⟨fun hfails => ?_, fun c hexec hz hc hzero => ?_⟩⟩
  · rw [← houtcome]
    exact run_checkStorageNodes hout ws k hr
  · rw [List.map_map]
    exact List.map_congr_left fun w _ => w.node.ip_settle _
  · rw [hfails.verdict_eq]
    rfl
  · have hbyte : c.data.headD 0 = 48 := by rw [List.headD_eq_head?_getD, hzero]; rfl
    rw [NodeSession.verdict_of_single hexec hz hc, hbyte]
    rfl

/-- A node to which no channel can be made, with flags from an earlier round. -/
def unreached : Watched where
  node := { ip := text "10.0.0.3", reachable := true, responsive := true, fsAvailable := false }
  session :=
    { channelNew := false, openSession := -1, requestExec := -1, reads := [], lastRead := -1, ended := by decide }
  buffer := [48]

/-- A node that answers beside one that is gone. -/
theorem check_round_fail_safe_pair :
    ∃ enough, ∀ rounds ≥ enough, ∃ t,
      (checkStorageNodes (fun _ n => n) rounds [answering, unreached]).run ⟨0, []⟩ =
        .ok [answering.node.mark true, unreached.node.mark false] t := by
  have hws : ∀ w ∈ [answering, unreached], w.session.Answers := by
    intro w hw
    simp only [List.mem_cons, List.not_mem_nil, or_false] at hw
    rcases hw with rfl | rfl
    · exact fun _ _ => List.cons_ne_nil _ _
    · exact fun hexec => absurd hexec (by decide)
  have hout : ∀ k n : Nat, (fun _ n => n : Nat → Nat → Int) k n = n := fun _ _ => rfl
  obtain ⟨nodes, hrun, -, rfl, -⟩ := check_round_fail_safe hout hws 0
  exact hrun

end MGFileSystem
