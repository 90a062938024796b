import MGFileSystem.Ram.OneFile
import MGFileSystem.Foundations.OptionalUpdates

/-! Partial changes of ownership. libfuse passes the id -1 for one that is to stay, and
`change_ownership` stores it like any other. -/
namespace MGFileSystem
open FilesystemData OptionalUpdates

/-- `(uid_t)-1` and `(gid_t)-1`. -/
def keepId : UInt32 := 4294967295

/-- A call of `mg_chown`, in which either id may be missing. -/
structure OwnershipChange where
  ctx : CallContext
  user : Option (Value keepId)
  group : Option (Value keepId)

def OwnershipChange.call (p : AbsPath) (c : OwnershipChange) : Call :=
  ⟨c.ctx, .chown p (encode c.user) (encode c.group)⟩

/-- The step gives no object the id that stands for a missing one. -/
def GivesRealIds (s : FilesystemData) (c : Call) : Prop :=
  ∀ s' q o o', ramSystem.step c s = some s' → s.objects q = some o → s'.objects q = some o' →
    (o'.user = keepId → o.user = keepId) ∧ (o'.group = keepId → o.group = keepId)

/-- The calls leave the last user and the last group given, and no object ever gets the id that stands for a missing
one. -/
structure LastIdsGiven (p : AbsPath) (changes : List OwnershipChange) (s : FilesystemData) : Prop where
  last : ∃ s' o o', ramSystem.exec (changes.map (·.call p)) s = some s' ∧ s.objects p = some o ∧
    s'.objects p = some o' ∧ o'.user = lastGiven o.user (changes.map (·.user)) ∧
    o'.group = lastGiven o.group (changes.map (·.group))
  never : ramSystem.Along GivesRealIds (changes.map (·.call p)) s

/-- What the calls make of the object: each stores both of its ids. -/
def storeIds (changes : List OwnershipChange) (o : Object) : Object :=
  { o with
    user := lastStored o.user (changes.map (·.user))
    group := lastStored o.group (changes.map (·.group)) }

theorem HoldsFile.exec_chowns {p : AbsPath} (changes : List OwnershipChange) {o : Object} {s : FilesystemData}
    (h : HoldsFile p o s) :
    ∃ s', ramSystem.exec (changes.map (·.call p)) s = some s' ∧ HoldsFile p (storeIds changes o) s' := by
  induction changes generalizing o s with
  | nil => exact ⟨s, rfl, h⟩
  | cons c changes ih =>
    obtain ⟨m, hm, hc⟩ := h.step_chown c.ctx (encode c.user) (encode c.group)
    obtain ⟨s', hs, hc'⟩ := ih hc
    exact ⟨s', GuardedSystem.exec_cons.mpr ⟨m, hm, hs⟩, hc'⟩

/-- One call gives real ids exactly if each id is given or was missing before. -/
theorem HoldsFile.givesRealIds_iff {p : AbsPath} {o : Object} {s : FilesystemData} (h : HoldsFile p o s)
    (c : OwnershipChange) : GivesRealIds s (c.call p) ↔
      (encode c.user = keepId → o.user = keepId) ∧ (encode c.group = keepId → o.group = keepId) := by
  constructor
  · intro hgives
    obtain ⟨m, hm, hc⟩ := h.step_chown c.ctx (encode c.user) (encode c.group)
    exact hgives m p _ _ hm h.object hc.object
  · intro hids s' q a a' hs ha ha'
    obtain ⟨-, ho⟩ := h.wellFormed.of_step (c := c.call p) h.fileAt hs
    by_cases hq : q = p
    · subst hq
      rw [ho, OwnershipChange.call, Operation.effect, Function.update_self, h.object] at ha'
      rw [h.object] at ha
      cases ha
      cases ha'
      exact hids
    · rw [ho, Operation.effect_of_not_mem (by simpa [OwnershipChange.call, Operation.paths] using hq), ha] at ha'
      cases ha'
      exact ⟨id, id⟩

theorem HoldsFile.along_givesRealIds_iff {p : AbsPath} (changes : List OwnershipChange) {o : Object}
    {s : FilesystemData} (h : HoldsFile p o s) :
    ramSystem.Along GivesRealIds (changes.map (·.call p)) s ↔
      Complete o.user (changes.map (·.user)) ∧ Complete o.group (changes.map (·.group)) := by
  rw [← neverUnset_iff_complete, ← neverUnset_iff_complete]
  induction changes generalizing o s with
  | nil => exact iff_of_true trivial ⟨trivial, trivial⟩
  | cons c changes ih =>
    obtain ⟨m, hm, hc⟩ := h.step_chown c.ctx (encode c.user) (encode c.group)
    have hstep : ramSystem.step (c.call p) s = some m := hm
    simp only [List.map_cons, GuardedSystem.Along, hstep, Option.some.injEq, forall_eq', h.givesRealIds_iff, ih hc,
      NeverUnset]
    exact and_and_and_comm

/-- Calls of `mg_chown` leave the last ids given, and give no object the id -1, exactly when every call gives both ids,
but for an id that is -1 when the call comes. -/
theorem chowns_compose_iff {s : FilesystemData} (h : ramSystem.Reachable s) {p : AbsPath} (hf : FileAt s p)
    (changes : List OwnershipChange) :
    ∃ s' o, ramSystem.exec (changes.map (·.call p)) s = some s' ∧ s.objects p = some o ∧
      (LastIdsGiven p changes s ↔
        Complete o.user (changes.map (·.user)) ∧ Complete o.group (changes.map (·.group))) := by
  obtain ⟨o, hfile⟩ := (wellFormed_of_reachable h).holdsFile hf
  obtain ⟨s', hs, hfile'⟩ := hfile.exec_chowns changes
  have hnever := hfile.along_givesRealIds_iff changes
  refine ⟨s', o, hs, hfile.object, fun hids => hnever.mp hids.never, fun hcomplete => ⟨?_, hnever.mpr hcomplete⟩⟩
  exact ⟨s', o, _, hs, hfile.object, hfile'.object, lastStored_eq_lastGiven hcomplete.1,
    lastStored_eq_lastGiven hcomplete.2⟩

/-- Only the user is given. -/
def giveUser : OwnershipChange := ⟨.plain, some ⟨7, by decide⟩, none⟩

/-- Both are given. -/
def giveBoth : OwnershipChange := ⟨.plain, some ⟨7, by decide⟩, some ⟨8, by decide⟩⟩

theorem chowns_compose_iff_init :
    ∃ s' o, ramSystem.exec [giveUser.call mgFile1, giveBoth.call mgFile1] (init .plain) = some s' ∧
      (init .plain).objects mgFile1 = some o ∧
      (LastIdsGiven mgFile1 [giveUser, giveBoth] (init .plain) ↔
        Complete o.user [giveUser.user, giveBoth.user] ∧ Complete o.group [giveUser.group, giveBoth.group]) :=
  have hf : FileAt (init .plain) mgFile1 := rfl
  chowns_compose_iff (.start ⟨.plain, rfl⟩) hf [giveUser, giveBoth]

/-- A change of the user alone loses the group. -/
theorem mgChown_loses_group :
    ramSystem.Reachable (init .plain) ∧ FileAt (init .plain) mgFile1 ∧
      ∃ s' o o', ramSystem.exec [giveUser.call mgFile1] (init .plain) = some s' ∧
        (init .plain).objects mgFile1 = some o ∧ s'.objects mgFile1 = some o' ∧
        o.group = 0 ∧ o'.group = 4294967295 ∧ ¬ LastIdsGiven mgFile1 [giveUser] (init .plain) := by
  refine ⟨.start ⟨.plain, rfl⟩, rfl, _, _, _, rfl, rfl, rfl, rfl, rfl, fun h => ?_⟩
  obtain ⟨s', o, o', hs, ho, ho', -, hgroup⟩ := h.last
  cases hs
  cases ho
  cases ho'
  exact absurd hgroup (by decide)

end MGFileSystem
