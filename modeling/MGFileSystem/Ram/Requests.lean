import MGFileSystem.Ram.Commutation

/-! What was asked for each object, followed through a run. `create_directory` ignores the
mode it is given and the caller of the request. -/
namespace MGFileSystem
open FilesystemData

/-- The type bits of a mode. -/
def S_IFMT : UInt32 := 0o170000

/-- The last mode asked for, the caller that made the object, and whether the object was chowned. -/
structure Request where
  mode : UInt32
  user : UInt32
  group : UInt32
  chowned : Bool

/-- Attributes as they were asked for, with the type bits of the object. -/
structure Request.HonouredBy (r : Request) (type : UInt32) (st : Stat) : Prop where
  permissions : st.mode &&& 0o7777 = r.mode &&& 0o7777
  type : st.mode &&& S_IFMT = type
  user : r.chowned = false → st.uid = r.user
  group : r.chowned = false → st.gid = r.group

inductive Origin where
  | constructor
  | request (r : Request)

def Origin.map (f : Request → Request) : Origin → Origin
  | constructor => constructor
  | request r => request (f r)

/-- Where the object at each path comes from. -/
abbrev History := AbsPath → Option Origin

/-- The constructor makes the root, a directory and a file. -/
def initialHistory : History := fun p =>
  if p = .root ∨ p = mgDir1 ∨ p = mgFile1 then some .constructor else none

namespace Operation

/-- What a call adds to the history: a rename takes the record of its source along. -/
def record (ctx : CallContext) (op : Operation) (H : History) : History :=
  match op with
  | create p mode | mkdir p mode =>
    Function.update H p (some (.request ⟨mode, ctx.callerUid, ctx.callerGid, false⟩))
  | unlink p => Function.update H p none
  | rename p q => Function.update (Function.update H p none) q (H p)
  | chmod p mode => Function.update H p ((H p).map (.map fun r => { r with mode := mode }))
  | chown p _ _ => Function.update H p ((H p).map (.map fun r => { r with chowned := true }))
  | write .. | truncate .. | utimens .. => H

theorem record_of_not_mem {ctx : CallContext} {op : Operation} {q : AbsPath} (hq : q ∉ op.paths) (H : History) :
    op.record ctx H q = H q := by
  cases op <;> simp only [paths, List.mem_cons, List.not_mem_nil, or_false, not_or] at hq
  case rename => rw [record, Function.update_of_ne hq.2, Function.update_of_ne hq.1]
  case write | truncate | utimens => rfl
  all_goals rw [record, Function.update_of_ne hq]

/-- FUSE passes the type bits of a file with every mode but that of `mg_mkdir`. -/
def TypedByFuse : Operation → Prop
  | create _ mode | chmod _ mode => mode &&& S_IFMT = S_IFREG
  | _ => True

/-- A directory is asked for with the mode and the owner that `create_directory` gives it. -/
def MkdirAsMade (ctx : CallContext) : Operation → Prop
  | mkdir _ mode => mode &&& 0o7777 = 0o775 ∧ ctx.callerUid = ctx.uid ∧ ctx.callerGid = ctx.gid
  | _ => True

end Operation

/-- The history of a run from the constructor's state. -/
def historyOf (calls : List Call) : History :=
  calls.foldl (fun H c => c.operation.record c.ctx H) initialHistory

/-- Every object that `mg_getattr` reports was made by the constructor, or its mode and owner are those asked for. -/
def RequestsHonoured (s : FilesystemData) (H : History) : Prop :=
  ∀ (p : AbsPath) ctx st st', (mgGetattr (filesystemData ctx) ctx p.toCString st).answer s = .ok (0, st') →
    ∃ origin, H p = some origin ∧ ∀ r, origin = .request r →
      (FileAt s p → r.HonouredBy S_IFREG st') ∧ (DirectoryAt s p → r.HonouredBy S_IFDIR st')

/-- The object has the mode and the owner asked for. -/
def Object.Honours (o : Object) (r : Request) : Prop :=
  r.HonouredBy (if o.isDirectory then S_IFDIR else S_IFREG) o.stat

/-- The object is recorded, and honours its request when it is a file. -/
def RecordedAt (found : Option Object) (origin : Option Origin) : Prop :=
  ∀ o, found = some o → ∃ g, origin = some g ∧ (o.isDirectory = false → ∀ r, g = .request r → o.Honours r)

/-- The object honours its request when it is a directory. -/
def DirectoryHonouredAt (found : Option Object) (origin : Option Origin) : Prop :=
  ∀ o, found = some o → o.isDirectory = true → ∀ r, origin = some (.request r) → o.Honours r

/-- The objects and the history of a run: every object is recorded, the files are as they were asked for. -/
structure Recorded (A : ObjectMap) (H : History) : Prop where
  objects : ∀ p, RecordedAt (A p) (H p)
  root : H .root = some .constructor

/-- The directories are as they were asked for. -/
def DirectoriesHonoured (A : ObjectMap) (H : History) : Prop := ∀ p, DirectoryHonouredAt (A p) (H p)

theorem Object.Honours.of_attributes {o o' : Object} {r : Request} (h : o.Honours r)
    (hk : o'.isDirectory = o.isDirectory) (hm : o'.mode = o.mode) (hu : o'.user = o.user) (hg : o'.group = o.group) :
    o'.Honours r where
  permissions := (congrArg (· &&& 0o7777) hm).trans h.permissions
  type := by
    rw [hk]
    exact (congrArg (· &&& S_IFMT) hm).trans h.type
  user hc := hu.trans (h.user hc)
  group hc := hg.trans (h.group hc)

theorem RecordedAt.none (origin : Option Origin) : RecordedAt none origin := nofun

theorem RecordedAt.map {found : Option Object} {origin : Option Origin} (h : RecordedAt found origin)
    {f : Object → Object} {t : Request → Request} (hk : ∀ o, (f o).isDirectory = o.isDirectory)
    (hf : ∀ o r, o.isDirectory = false → o.Honours r → (f o).Honours (t r)) :
    RecordedAt (found.map f) (origin.map (.map t)) := by
  intro o' ho'
  obtain ⟨o, ho, rfl⟩ := Option.map_eq_some_iff.mp ho'
  obtain ⟨g, rfl, hg⟩ := h o ho
  refine ⟨g.map t, rfl, fun hd r hr => ?_⟩
  cases g with
  | constructor => cases hr
  | request r₀ =>
    cases hr
    have hd₀ : o.isDirectory = false := (hk o).symm.trans hd
    exact hf o r₀ hd₀ (hg hd₀ r₀ rfl)

/-- An edit of other fields keeps the record. -/
theorem RecordedAt.edit {found : Option Object} {origin : Option Origin} (h : RecordedAt found origin)
    {f : Object → Object} (hf : ∀ o, (f o).isDirectory = o.isDirectory ∧ (f o).mode = o.mode ∧
      (f o).user = o.user ∧ (f o).group = o.group) : RecordedAt (found.map f) origin := by
  intro o' ho'
  obtain ⟨o, ho, rfl⟩ := Option.map_eq_some_iff.mp ho'
  obtain ⟨hk, hm, hu, hg⟩ := hf o
  obtain ⟨g, hrec, hhon⟩ := h o ho
  exact ⟨g, hrec, fun hd r hr => (hhon (hk.symm.trans hd) r hr).of_attributes hk hm hu hg⟩

namespace Operation
variable {ctx : CallContext} {op : Operation} {A : ObjectMap} {H : History}

/-- A guarded operation leaves a record for every object at its paths, and honours it for the files. -/
theorem recordedAt (hg : op.GuardOn A) (ht : op.TypedByFuse) (h : ∀ p, RecordedAt (A p) (H p)) {q : AbsPath}
    (hq : q ∈ op.paths) : RecordedAt (op.effect ctx A q) (op.record ctx H q) := by
  cases op with
  | create p mode =>
    obtain rfl := List.mem_singleton.mp hq
    rw [effect, record, Function.update_self, Function.update_self]
    rintro o ⟨⟩
    refine ⟨_, rfl, fun _ r hr => ?_⟩
    cases hr
    exact ⟨rfl, ht, fun _ => rfl, fun _ => rfl⟩
  | mkdir p mode =>
    obtain rfl := List.mem_singleton.mp hq
    rw [effect, record, Function.update_self, Function.update_self]
    rintro o ⟨⟩
    refine ⟨_, rfl, fun hd => ?_⟩
    cases hd
  | unlink p =>
    obtain rfl := List.mem_singleton.mp hq
    rw [effect, Function.update_self]
    exact RecordedAt.none _
  | rename p r =>
    rcases List.mem_pair.mp hq with rfl | rfl
    · rw [effect, Function.update_of_ne hg.2.1, Function.update_self]
      exact RecordedAt.none _
    · rw [effect, record, Function.update_self, Function.update_self]
      exact h p
  | write p | truncate p | utimens p =>
    obtain rfl := List.mem_singleton.mp hq
    rw [effect, record, Function.update_self]
    exact (h q).edit fun o => ⟨rfl, rfl, rfl, rfl⟩
  | chmod p mode =>
    obtain rfl := List.mem_singleton.mp hq
    rw [effect, record, Function.update_self, Function.update_self]
    apply (h q).map
    · exact fun _ => rfl
    · intro o r hd ho
      refine ⟨rfl, ?_, ho.user, ho.group⟩
      simp only [hd]
      exact ht
  | chown p user group =>
    obtain rfl := List.mem_singleton.mp hq
    rw [effect, record, Function.update_self, Function.update_self]
    apply (h q).map
    · exact fun _ => rfl
    · intro o r _ ho
      refine ⟨ho.permissions, ho.type, fun hc => ?_, fun hc => ?_⟩ <;> cases hc

/-- A guarded operation leaves the directories at its paths as they were asked for unless it is `mkdir`. -/
theorem directoryHonouredAt_iff (hg : op.GuardOn A) :
    (∀ q ∈ op.paths, DirectoryHonouredAt (op.effect ctx A q) (op.record ctx H q)) ↔ op.MkdirAsMade ctx := by
  by_cases hm : ∃ p mode, op = mkdir p mode
  · obtain ⟨p, mode, rfl⟩ := hm
    have hmade : (S_IFDIR ||| 0o775) &&& 0o7777 = (0o775 : UInt32) := by decide
    have htype : (S_IFDIR ||| 0o775) &&& S_IFMT = S_IFDIR := by decide
    simp only [paths, List.mem_singleton, forall_eq, effect, record, Function.update_self]
    constructor
    · intro hd
      have ho := hd _ rfl rfl _ rfl
      exact ⟨ho.permissions.symm.trans hmade, (ho.user rfl).symm, (ho.group rfl).symm⟩
    · rintro ⟨hperm, hu, hgrp⟩ o ⟨⟩ - r ⟨⟩
      exact ⟨hmade.trans hperm.symm, htype, fun _ => hu.symm, fun _ => hgrp.symm⟩
  · have hmade : op.MkdirAsMade ctx := by
      cases op with
      | mkdir p mode => exact absurd ⟨p, mode, rfl⟩ hm
      | _ => trivial
    refine iff_of_true (fun q hq o ho hd => ?_) hmade
    have hk : kindOf (op.effect ctx A) q = some true := by
      rw [kindOf, ho, Option.map_some, hd]
    obtain ⟨mode, hop⟩ := eq_mkdir_of_kindOf hg hq hk
    exact absurd ⟨q, mode, hop⟩ hm

/-- The directories stay as they were asked for exactly when no call makes one that is not. -/
theorem directoriesHonoured_iff (hg : op.GuardOn A) :
    DirectoriesHonoured (op.effect ctx A) (op.record ctx H) ↔ DirectoriesHonoured A H ∧ op.MkdirAsMade ctx := by
  have hkeep : ∀ q ∉ op.paths, (DirectoryHonouredAt (op.effect ctx A q) (op.record ctx H q) ↔
      DirectoryHonouredAt (A q) (H q)) := by
    intro q hq
    rw [effect_of_not_mem hq, record_of_not_mem hq]
  have hbefore : ∀ q ∈ op.paths, DirectoryHonouredAt (A q) (H q) := by
    intro q hq o ho hd
    have hk : kindOf A q = some true := by
      rw [kindOf, ho, Option.map_some, hd]
    exact absurd hk (kindOf_of_mem_paths hg hq)
  rw [← directoryHonouredAt_iff (H := H) hg]
  constructor
  · intro h
    refine ⟨fun q => ?_, fun q _ => h q⟩
    by_cases hq : q ∈ op.paths
    · exact hbefore q hq
    · exact (hkeep q hq).mp (h q)
  · rintro ⟨h, hpaths⟩ q
    by_cases hq : q ∈ op.paths
    · exact hpaths q hq
    · exact (hkeep q hq).mpr (h q)

end Operation

theorem Recorded.step {A : ObjectMap} {H : History} (h : Recorded A H) {ctx : CallContext} {op : Operation}
    (hroot : kindOf A .root = some true) (hg : op.GuardOn A) (ht : op.TypedByFuse) :
    Recorded (op.effect ctx A) (op.record ctx H) := by
  constructor
  · intro q
    by_cases hq : q ∈ op.paths
    · exact Operation.recordedAt hg ht h.objects hq
    · rw [Operation.effect_of_not_mem hq, Operation.record_of_not_mem hq]
      exact h.objects q
  · have hq : AbsPath.root ∉ op.paths := fun hq => Operation.kindOf_of_mem_paths hg hq hroot
    rw [Operation.record_of_not_mem hq, h.root]

namespace FilesystemData.WellFormed
variable {s : FilesystemData} (h : s.WellFormed)
include h

theorem kindOf_root : kindOf s.objects .root = some true :=
  h.directoryAt_iff_kind.mp (h.directoryAt_iff.mpr h.root)

/-- Over a run the files stay recorded, and the directories are as they were asked for when all calls make them so. -/
theorem exec_recorded (calls : List Call) {H : History} (hrec : Recorded s.objects H)
    (hg : ramSystem.Along ramSystem.guard calls s) (ht : ∀ c ∈ calls, c.operation.TypedByFuse) :
    let H' := calls.foldl (fun H c => c.operation.record c.ctx H) H
    ∃ s', ramSystem.exec calls s = some s' ∧ s'.WellFormed ∧ Recorded s'.objects H' ∧
      (DirectoriesHonoured s'.objects H' ↔
        DirectoriesHonoured s.objects H ∧ ∀ c ∈ calls, c.operation.MkdirAsMade c.ctx) := by
  induction calls generalizing s H with
  | nil => exact ⟨s, rfl, h, hrec, by simp⟩
  | cons c calls ih =>
    obtain ⟨m, hm, hw, ho⟩ := h.step_guarded hg.1
    have hgo := h.guard_iff.mp hg.1
    have hstep : Recorded m.objects (c.operation.record c.ctx H) := by
      rw [ho]
      exact hrec.step h.kindOf_root hgo (ht c List.mem_cons_self)
    obtain ⟨s', hs, hw', hrec', hdirs⟩ := ih hw hstep (hg.2 m hm) fun d hd => ht d (List.mem_cons_of_mem _ hd)
    refine ⟨s', GuardedSystem.exec_cons.mpr ⟨m, hm, hs⟩, hw', hrec', ?_⟩
    rw [List.foldl_cons, hdirs, ho, Operation.directoriesHonoured_iff hgo, List.forall_mem_cons, and_assoc]

/-- Since the files are as they were asked for, what remains is the directories. -/
theorem requestsHonoured_iff {H : History} (hrec : Recorded s.objects H) :
    RequestsHonoured s H ↔ DirectoriesHonoured s.objects H := by
  constructor
  · intro hr p o ho hd r hH
    have hp : p ≠ .root := by
      rintro rfl
      cases hrec.root.symm.trans hH
    obtain ⟨g, hg, hon⟩ := hr p .plain ⟨0, 0, 0, 0, 0, 0, 0⟩ o.stat ((answer_mgGetattr_zero hp).mpr ⟨o, ho, rfl⟩)
    have hk : DirectoryAt s p := by
      rw [h.directoryAt_iff_kind, kindOf, ho, Option.map_some, hd]
    have hdir := (hon r (Option.some.inj (hg.symm.trans hH))).2 hk
    rwa [Object.Honours, hd]
  · intro hdirs p ctx st st' hans
    by_cases hp : p = .root
    · subst hp
      refine ⟨_, hrec.root, fun r hr => ?_⟩
      cases hr
    obtain ⟨o, ho, rfl⟩ := (answer_mgGetattr_zero hp).mp hans
    obtain ⟨g, hg, hfile⟩ := hrec.objects p o ho
    refine ⟨g, hg, ?_⟩
    rintro r rfl
    have hdir := hdirs p o ho
    rw [h.fileAt_iff_kind, h.directoryAt_iff_kind, kindOf, ho, Option.map_some]
    cases hd : o.isDirectory with
    | false =>
      have hon := hfile hd r rfl
      rw [Object.Honours, hd] at hon
      refine ⟨fun _ => hon, fun hk => ?_⟩
      cases hk
    | true =>
      have hon := hdir hd r hg
      rw [Object.Honours, hd] at hon
      refine ⟨fun hk => ?_, fun _ => hon⟩
      cases hk

end FilesystemData.WellFormed

theorem initialHistory_ne_request (p : AbsPath) (r : Request) : initialHistory p ≠ some (.request r) := by
  unfold initialHistory
  split <;> nofun

theorem initialHistory_of_objects {ctx : CallContext} {p : AbsPath} {o : Object} (ho : (init ctx).objects p = some o) :
    initialHistory p = some .constructor := by
  have hk : kindOf (init ctx).objects p ≠ none := by
    rw [kindOf, ho, Option.map_some]
    exact Option.some_ne_none _
  rw [(wellFormed_init ctx).kindOf_objects, filePaths_init, dirPaths_init] at hk
  apply if_pos
  by_contra hp
  rw [not_or, not_or] at hp
  have hne : ∀ q : AbsPath, p ≠ q → p.bytes ≠ q.bytes := fun q hq he => hq (AbsPath.ext he)
  simp [hne _ hp.1, hne _ hp.2.1, hne _ hp.2.2] at hk

theorem recorded_init (ctx : CallContext) : Recorded (init ctx).objects initialHistory where
  objects _ _ ho := ⟨.constructor, initialHistory_of_objects ho, fun _ _ hr => nomatch hr⟩
  root := rfl

/-- In a guarded run every object has the mode and the owner asked for exactly when each `mg_mkdir` asks for mode
0775 and is called by the owner of the process. -/
theorem requests_honoured_iff (ctx : CallContext) {calls : List Call}
    (hg : ramSystem.Along ramSystem.guard calls (init ctx)) (ht : ∀ c ∈ calls, c.operation.TypedByFuse) :
    ∃ s, ramSystem.exec calls (init ctx) = some s ∧
      (RequestsHonoured s (historyOf calls) ↔ ∀ c ∈ calls, c.operation.MkdirAsMade c.ctx) := by
  obtain ⟨s, hs, hw, hrec, hdirs⟩ := (wellFormed_init ctx).exec_recorded calls (recorded_init ctx) hg ht
  have hstart : DirectoriesHonoured (init ctx).objects initialHistory :=
    fun p _ _ _ r hr => absurd hr (initialHistory_ne_request p r)
  refine ⟨s, hs, (hw.requestsHonoured_iff hrec).trans (hdirs.trans ?_)⟩
  exact and_iff_right hstart

theorem requests_honoured_iff_mkdir :
    ∃ s, ramSystem.exec [⟨.plain, .mkdir notes 0o775⟩] (init .plain) = some s ∧
      (RequestsHonoured s (historyOf [⟨.plain, .mkdir notes 0o775⟩]) ↔
        ∀ c ∈ [(⟨.plain, .mkdir notes 0o775⟩ : Call)], c.operation.MkdirAsMade c.ctx) :=
  requests_honoured_iff .plain ⟨guard_create_notes, fun _ _ => trivial⟩ (by simp [Operation.TypedByFuse])

/-- A directory asked for with mode 0700 is open to the group and readable by all. -/
theorem mgMkdir_ignores_mode :
    ramSystem.Along ramSystem.guard [⟨.plain, .mkdir notes 0o700⟩] (init .plain) ∧
      ∃ s st, ramSystem.exec [⟨.plain, .mkdir notes 0o700⟩] (init .plain) = some s ∧
        (mgGetattr (filesystemData .plain) .plain notes.toCString ⟨0, 0, 0, 0, 0, 0, 0⟩).answer s = .ok (0, st) ∧
        st.mode = S_IFDIR ||| 0o775 ∧ ¬ RequestsHonoured s (historyOf [⟨.plain, .mkdir notes 0o700⟩]) := by
  refine ⟨⟨guard_create_notes, fun _ _ => trivial⟩, _, _, rfl, rfl, rfl, fun h => ?_⟩
  obtain ⟨g, hg, hon⟩ := h notes .plain ⟨0, 0, 0, 0, 0, 0, 0⟩ _ rfl
  cases hg
  have hperm := ((hon _ rfl).2 rfl).permissions
  exact absurd hperm (by decide)

end MGFileSystem
