import Mathlib.Data.List.Basic

/-! Handles that are issued, passed on and released: a log of what happens to them, and the
rules for the handles that still have to be released. -/
namespace MGFileSystem

/-- What happens to a handle, which is passed on to calls of some kind. A null pointer in its place is `none`. -/
inductive HandleEvent (κ ρ : Type*) where
  | issue (r : ρ)
  | pass (call : κ) (h : Option ρ)
  | release (h : Option ρ)

/-- The events so far, the last one first. -/
abbrev HandleLog (κ ρ : Type*) := List (HandleEvent κ ρ)

namespace HandleLog
variable {κ ρ : Type*}

def issued : HandleLog κ ρ → List ρ
  | [] => []
  | .issue r :: log => r :: issued log
  | .pass _ _ :: log | .release _ :: log => issued log

def released : HandleLog κ ρ → List ρ
  | [] => []
  | .release (some r) :: log => r :: released log
  | .release none :: log | .pass _ _ :: log | .issue _ :: log => released log

def Live (log : HandleLog κ ρ) (r : ρ) : Prop := r ∈ issued log ∧ r ∉ released log

/-- Only live handles are passed on and released, and no null pointer is. -/
def WellUsed : HandleLog κ ρ → Prop
  | [] => True
  | .issue _ :: log => WellUsed log
  | .pass _ h :: log | .release h :: log => (∃ r, h = some r ∧ Live log r) ∧ WellUsed log

theorem WellUsed.mem_issued {log : HandleLog κ ρ} (h : WellUsed log) {r : ρ} (hr : r ∈ released log) :
    r ∈ issued log := by
  induction log with
  | nil => exact hr
  | cons e log ih =>
    cases e with
    | issue r' => exact List.mem_cons_of_mem _ (ih h hr)
    | pass => exact ih h.2 hr
    | release =>
      obtain ⟨⟨r', rfl, hlive⟩, h⟩ := h
      rcases List.mem_cons.mp hr with rfl | hr
      · exact hlive.1
      · exact ih h hr

/-- A misuse stays in the log. -/
theorem WellUsed.of_suffix {log log' : HandleLog κ ρ} (h : WellUsed log') (hs : log <:+ log') : WellUsed log := by
  obtain ⟨front, rfl⟩ := hs
  induction front with
  | nil => exact h
  | cons e front ih =>
    cases e with
    | issue => exact ih h
    | pass | release => exact ih h.2

variable [DecidableEq ρ]

def ReleasedOnce (log : HandleLog κ ρ) : Prop := ∀ r ∈ issued log, (released log).count r = 1

/-- The log is well used, and every handle was released once but those owed, which are live. -/
structure Owes (owed : List ρ) (log : HandleLog κ ρ) : Prop where
  wellUsed : WellUsed log
  nodup : owed.Nodup
  live : ∀ r ∈ owed, Live log r
  settled : ∀ r ∈ issued log, r ∉ owed → (released log).count r = 1

theorem owes_nil {log : HandleLog κ ρ} : Owes [] log ↔ WellUsed log ∧ ReleasedOnce log := by
  constructor
  · exact fun h => ⟨h.wellUsed, fun r hr => h.settled r hr List.not_mem_nil⟩
  · exact fun h => ⟨h.1, List.nodup_nil, nofun, fun r hr _ => h.2 r hr⟩

theorem owes_start : Owes [] ([] : HandleLog κ ρ) := owes_nil.mpr ⟨trivial, fun _ h => nomatch h⟩

namespace Owes
variable {owed : List ρ} {log : HandleLog κ ρ} {r : ρ}

theorem perm {owed' : List ρ} (h : Owes owed log) (hp : owed.Perm owed') : Owes owed' log where
  wellUsed := h.wellUsed
  nodup := hp.nodup_iff.mp h.nodup
  live := fun r hr => h.live r (hp.mem_iff.mpr hr)
  settled := fun r hr hn => h.settled r hr fun hm => hn (hp.mem_iff.mp hm)

theorem issue (h : Owes owed log) (hr : r ∉ issued log) : Owes (r :: owed) (.issue r :: log) where
  wellUsed := h.wellUsed
  nodup := List.nodup_cons.mpr ⟨fun hm => hr (h.live r hm).1, h.nodup⟩
  live := by
    intro r' hm
    rcases List.mem_cons.mp hm with rfl | hm
    · exact ⟨List.mem_cons_self, fun hrel => hr (h.wellUsed.mem_issued hrel)⟩
    · exact ⟨List.mem_cons_of_mem _ (h.live r' hm).1, (h.live r' hm).2⟩
  settled := by
    intro r' hm hne
    rw [List.mem_cons, not_or] at hne
    exact h.settled r' ((List.mem_cons.mp hm).resolve_left hne.1) hne.2

theorem pass (h : Owes owed log) (call : κ) (hr : r ∈ owed) : Owes owed (.pass call (some r) :: log) where
  wellUsed := ⟨⟨r, rfl, h.live r hr⟩, h.wellUsed⟩
  nodup := h.nodup
  live := h.live
  settled := h.settled

theorem release (h : Owes (r :: owed) log) : Owes owed (.release (some r) :: log) where
  wellUsed := ⟨⟨r, rfl, h.live r List.mem_cons_self⟩, h.wellUsed⟩
  nodup := (List.nodup_cons.mp h.nodup).2
  live := by
    intro r' hm
    have hlive := h.live r' (List.mem_cons_of_mem _ hm)
    have hne : r' ≠ r := fun he => (List.nodup_cons.mp h.nodup).1 (he ▸ hm)
    exact ⟨hlive.1, fun hrel => (List.mem_cons.mp hrel).elim hne hlive.2⟩
  settled := by
    intro r' hm hne
    rw [released]
    by_cases he : r' = r
    · subst he
      rw [List.count_cons_self, List.count_eq_zero.mpr (h.live r' List.mem_cons_self).2]
    · rw [List.count_cons_of_ne (Ne.symm he)]
      exact h.settled r' hm fun hcons => (List.mem_cons.mp hcons).elim he hne

/-- A handle that is owed was not released. -/
theorem not_releasedOnce (h : Owes (r :: owed) log) : ¬ ReleasedOnce log := by
  intro hro
  have hlive := h.live r List.mem_cons_self
  have hcount := hro r hlive.1
  rw [List.count_eq_zero.mpr hlive.2] at hcount
  omega

end Owes
end HandleLog
end MGFileSystem
