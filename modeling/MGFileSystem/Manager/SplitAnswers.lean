import MGFileSystem.Manager.CheckRound

/-! How the flags of a node depend on the way its answer is cut into reads: the first byte
of the last read decides, and that can be any of the last 256 bytes. -/
namespace MGFileSystem
open HandleLog Tracked

/-- The bytes at which the last read can start. -/
def lastBytes (answer : Bytes) : Bytes := answer.drop (answer.length - 256)

theorem mem_lastBytes {answer : Bytes} {b : Byte} :
    b ∈ lastBytes answer ↔ ∃ front back, answer = front ++ b :: back ∧ (b :: back).length ≤ 256 := by
  constructor
  · intro hb
    obtain ⟨front, back, hsplit⟩ := List.append_of_mem hb
    refine ⟨answer.take (answer.length - 256) ++ front, back, ?_, ?_⟩
    · rw [List.append_assoc, ← hsplit, lastBytes, List.take_append_drop]
    · have hlength := congrArg List.length hsplit
      rw [lastBytes, List.length_drop, List.length_append] at hlength
      omega
  · rintro ⟨front, back, rfl, hfits⟩
    have hstart : (front ++ b :: back).length - 256 ≤ front.length := by
      rw [List.length_append]
      omega
    rw [lastBytes, List.drop_append_of_le_length hstart]
    exact List.mem_append_right _ List.mem_cons_self

/-- A read of one byte. -/
def ReadChunk.single (b : Byte) : ReadChunk := ⟨[b], List.cons_ne_nil _ _, by rw [List.length_singleton]; decide⟩

theorem flatten_single (bytes : Bytes) : ((bytes.map ReadChunk.single).map ReadChunk.data).flatten = bytes := by
  induction bytes with
  | nil => rfl
  | cons b bytes ih => exact congrArg (b :: ·) ih

/-- The session executes the command and its reads make up the answer. -/
structure NodeSession.Delivers (s : NodeSession) (answer : Bytes) : Prop where
  executes : s.Executes
  ends : s.lastRead = 0
  whole : (s.reads.map ReadChunk.data).flatten = answer

namespace NodeSession.Delivers
variable {s : NodeSession} {answer : Bytes}

theorem reads_ne (h : s.Delivers answer) (hne : answer ≠ []) : s.reads ≠ [] := by
  intro hnil
  have hwhole := h.whole
  rw [hnil] at hwhole
  exact hne hwhole.symm

/-- The byte that decides is one of the last 256. -/
theorem exists_byte (h : s.Delivers answer) (hne : answer ≠ []) :
    ∃ b ∈ lastBytes answer, s.verdict = verdictOf b := by
  have hlast := List.dropLast_concat_getLast (h.reads_ne hne)
  obtain ⟨b, back, hdata⟩ := List.exists_cons_of_ne_nil (s.reads.getLast (h.reads_ne hne)).data_ne
  refine ⟨b, mem_lastBytes.mpr ⟨(s.reads.dropLast.map ReadChunk.data).flatten, back, ?_, ?_⟩, ?_⟩
  · rw [← h.whole, ← hdata]
    conv_lhs => rw [← hlast]
    rw [List.map_append, List.flatten_append, List.map_singleton, List.flatten_singleton]
  · rw [← hdata]
    exact (s.reads.getLast (h.reads_ne hne)).fits
  · rw [verdict, if_pos ⟨h.executes, h.ends⟩, List.getLast?_eq_some_getLast (h.reads_ne hne), Option.bind_some, hdata]
    rfl

end NodeSession.Delivers

/-- Every one of the last 256 bytes starts the last read of some split. -/
theorem exists_delivers {answer : Bytes} {b : Byte} (hb : b ∈ lastBytes answer) :
    ∃ s : NodeSession, s.Delivers answer ∧ s.verdict = verdictOf b := by
  obtain ⟨front, back, rfl, hfits⟩ := mem_lastBytes.mp hb
  refine ⟨{ channelNew := true, openSession := SSH_OK, requestExec := SSH_OK
            reads := front.map ReadChunk.single ++ [⟨b :: back, List.cons_ne_nil _ _, hfits⟩]
            lastRead := 0, ended := Int.le_refl 0 }, ⟨⟨rfl, rfl, rfl⟩, rfl, ?_⟩, ?_⟩
  · rw [List.map_append, List.flatten_append, flatten_single]
    simp
  · rw [NodeSession.verdict, if_pos ⟨⟨rfl, rfl, rfl⟩, rfl⟩, List.getLast?_concat]
    rfl

/-- In every round over the nodes that lets the loops end, the node at the place comes out as given. -/
def Leaves (out : Nat → Nat → Int) (k : Nat) (ws : List Watched) (i : Nat) (node : StorageNode) : Prop :=
  ∃ enough, ∀ rounds ≥ enough, ∃ nodes t, (checkStorageNodes out rounds ws).run ⟨k, []⟩ = .ok nodes t ∧
    nodes[i]? = some node

theorem leaves_iff {out : Nat → Nat → Int} (hout : ∀ k n, out k n = n) {k : Nat} {front back : List Watched}
    {w : Watched} {node : StorageNode} :
    Leaves out k (front ++ w :: back) front.length node ↔ node = w.outcome := by
  have hplace : ((front ++ w :: back).map Watched.outcome)[front.length]? = some w.outcome := by simp
  constructor
  · rintro ⟨enough, hrun⟩
    obtain ⟨nodes, t, hnodes, hnode⟩ := hrun _ (Nat.le_max_left enough (enoughRounds (front ++ w :: back)))
    obtain ⟨t', ht'⟩ := run_checkStorageNodes hout (front ++ w :: back) k (Nat.le_max_right enough _)
    rw [ht'] at hnodes
    cases hnodes
    rw [hplace] at hnode
    exact (Option.some.inj hnode).symm
  · rintro rfl
    refine ⟨enoughRounds (front ++ w :: back), fun rounds hr => ?_⟩
    obtain ⟨t, hrun⟩ := run_checkStorageNodes hout (front ++ w :: back) k hr
    exact ⟨_, t, hrun, hplace⟩

/-- The bytes say the same about a node with these flags. -/
def OneStatus (flags : Bool × Bool) (bytes : Bytes) : Prop :=
  (∀ b ∈ bytes, verdictOf b = none) ∨
    ∃ up, ∀ b ∈ bytes, verdictOf b = some up ∨ (verdictOf b = none ∧ flags = (up, up))

theorem oneStatus_iff (node : StorageNode) (bytes : Bytes) :
    OneStatus node.flags bytes ↔ ∀ b ∈ bytes, ∀ b' ∈ bytes,
      (node.settle (verdictOf b)).flags = (node.settle (verdictOf b')).flags := by
  constructor
  · rintro (hnone | ⟨up, hup⟩) b hb b' hb'
    · rw [hnone b hb, hnone b' hb']
    · have hflags : ∀ x ∈ bytes, (node.settle (verdictOf x)).flags = (up, up) := by
        intro x hx
        rcases hup x hx with hx | ⟨hx, he⟩
        · rw [hx]
          rfl
        · rw [hx]
          exact he
      rw [hflags b hb, hflags b' hb']
  · intro hsame
    by_cases hnone : ∀ b ∈ bytes, verdictOf b = none
    · exact .inl hnone
    · rw [not_forall] at hnone
      obtain ⟨b, hb⟩ := hnone
      rw [Classical.not_imp, ← ne_eq, Option.ne_none_iff_exists'] at hb
      obtain ⟨hb, up, hup⟩ := hb
      refine .inr ⟨up, fun b' hb' => ?_⟩
      have hflags := hsame b' hb' b hb
      rw [hup] at hflags
      cases hv : verdictOf b' with
      | none =>
        rw [hv] at hflags
        exact .inr ⟨rfl, hflags⟩
      | some up' =>
        rw [hv] at hflags
        exact .inl (congrArg (fun flags => some flags.1) hflags)

/-- With full writes a non-empty answer leaves a node with the same flags in every split, wherever the node stands in
the round, exactly when the last 256 bytes of the answer say the same about it. -/
theorem status_same_in_every_split_iff {out : Nat → Nat → Int} (hout : ∀ k n, out k n = n) {answer : Bytes}
    (hne : answer ≠ []) (node : StorageNode) (front back : List Watched) (k : Nat) :
    (∀ s₁ s₂ : NodeSession, s₁.Delivers answer → s₂.Delivers answer → ∀ buffer₁ buffer₂ : Memory, ∃ n₁ n₂,
      Leaves out k (front ++ ⟨node, s₁, buffer₁⟩ :: back) front.length n₁ ∧
      Leaves out k (front ++ ⟨node, s₂, buffer₂⟩ :: back) front.length n₂ ∧ n₁.flags = n₂.flags) ↔
      OneStatus node.flags (lastBytes answer) := by
  have houtcome : ∀ {s : NodeSession}, s.Delivers answer → ∀ buffer,
      (Watched.mk node s buffer).outcome = node.settle s.verdict :=
    fun hs buffer => Watched.outcome_eq fun _ _ => hs.reads_ne hne
  rw [oneStatus_iff]
  constructor
  · intro hsame b hb b' hb'
    obtain ⟨s₁, hs₁, hv₁⟩ := exists_delivers hb
    obtain ⟨s₂, hs₂, hv₂⟩ := exists_delivers hb'
    obtain ⟨n₁, n₂, hn₁, hn₂, hflags⟩ := hsame s₁ s₂ hs₁ hs₂ [] []
    rw [leaves_iff hout] at hn₁ hn₂
    rwa [hn₁, hn₂, houtcome hs₁, houtcome hs₂, hv₁, hv₂] at hflags
  · intro hsame s₁ s₂ hs₁ hs₂ buffer₁ buffer₂
    refine ⟨_, _, (leaves_iff hout).mpr rfl, (leaves_iff hout).mpr rfl, ?_⟩
    obtain ⟨b₁, hb₁, hv₁⟩ := hs₁.exists_byte hne
    obtain ⟨b₂, hb₂, hv₂⟩ := hs₂.exists_byte hne
    rw [houtcome hs₁, houtcome hs₂, hv₁, hv₂]
    exact hsame b₁ hb₁ b₂ hb₂

/-- Three zeros in one read. -/
def threeZeros : NodeSession := { answering.session with reads := [⟨text "000", by decide, by decide⟩] }

/-- The same in a read for each. -/
def zeroByZero : NodeSession := { answering.session with reads := [.single 48, .single 48, .single 48] }

/-- Wherever an answer of zeros is split, the node comes out with the same flags. -/
theorem status_same_in_every_split_iff_zeros :
    threeZeros.Delivers (text "000") ∧ zeroByZero.Delivers (text "000") ∧
      ∀ s₁ s₂ : NodeSession, s₁.Delivers (text "000") → s₂.Delivers (text "000") → ∀ buffer₁ buffer₂ : Memory, ∃ n₁ n₂,
        Leaves (fun _ n => n) 0 ([] ++ ⟨answering.node, s₁, buffer₁⟩ :: [unreached]) 0 n₁ ∧
        Leaves (fun _ n => n) 0 ([] ++ ⟨answering.node, s₂, buffer₂⟩ :: [unreached]) 0 n₂ ∧ n₁.flags = n₂.flags := by
  have hout : ∀ k n : Nat, (fun _ n => n : Nat → Nat → Int) k n = n := fun _ _ => rfl
  have hne : text "000" ≠ [] := by decide
  refine ⟨⟨by decide, rfl, rfl⟩, ⟨by decide, rfl, rfl⟩,
    (status_same_in_every_split_iff hout hne answering.node [] [unreached] 0).mpr (.inr ⟨true, ?_⟩)⟩
  have hzeros : lastBytes (text "000") = List.replicate 3 48 := rfl
  intro b hb
  rw [hzeros] at hb
  rw [List.eq_of_mem_replicate hb]
  decide

/-- The answer of `answering`, in a read for each of its bytes. -/
def inTwoReads : NodeSession := { answering.session with reads := [.single 48, .single 10] }

/-- In one read the answer marks the node as up; in two the newline decides, and the node stays down. -/
theorem zero_answer_lost_in_two_reads :
    (Leaves (fun _ n => n) 0 [⟨answering.node, answering.session, []⟩] 0 (answering.node.mark true) ∧
      Leaves (fun _ n => n) 0 [⟨answering.node, inTwoReads, []⟩] 0 answering.node) ∧
    ¬ ∀ s₁ s₂ : NodeSession, s₁.Delivers [48, 10] → s₂.Delivers [48, 10] → ∀ buffer₁ buffer₂ : Memory, ∃ n₁ n₂,
      Leaves (fun _ n => n) 0 ([] ++ ⟨answering.node, s₁, buffer₁⟩ :: []) 0 n₁ ∧
      Leaves (fun _ n => n) 0 ([] ++ ⟨answering.node, s₂, buffer₂⟩ :: []) 0 n₂ ∧ n₁.flags = n₂.flags := by
  have hout : ∀ k n : Nat, (fun _ n => n : Nat → Nat → Int) k n = n := fun _ _ => rfl
  have hleaves : ∀ w node, Leaves (fun _ n => n) 0 ([] ++ w :: []) ([] : List Watched).length node ↔ node = w.outcome :=
    fun _ _ => leaves_iff hout
  refine ⟨⟨(hleaves _ _).mpr rfl, (hleaves _ _).mpr rfl⟩, fun h => ?_⟩
  obtain ⟨n₁, n₂, hn₁, hn₂, hflags⟩ := h answering.session inTwoReads ⟨by decide, rfl, rfl⟩ ⟨by decide, rfl, rfl⟩ [] []
  rw [(hleaves _ _).mp hn₁, (hleaves _ _).mp hn₂] at hflags
  exact absurd hflags (by decide)

end MGFileSystem
