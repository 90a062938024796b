import Mathlib.Logic.Basic

/-! Guarded deterministic systems: a step may be refused by its guard and may
fail. A simulation carries its invariant, so results about runs only cite it. -/
namespace MGFileSystem

structure GuardedSystem (σ ι : Type*) where
  initial : σ → Prop
  guard : σ → ι → Prop
  /-- `none` is a step that fails. -/
  step : ι → σ → Option σ

namespace GuardedSystem
variable {σ ι τ : Type*} (M : GuardedSystem σ ι)

inductive Reachable : σ → Prop
  | start {s : σ} : M.initial s → Reachable s
  | next {s s' : σ} {i : ι} : Reachable s → M.guard s i → M.step i s = some s' → Reachable s'

def exec : List ι → σ → Option σ
  | [], s => some s
  | i :: is, s => (M.step i s).bind (exec is)

/-- The condition holds before every step that the run takes. -/
def Along (P : σ → ι → Prop) : List ι → σ → Prop
  | [], _ => True
  | i :: is, s => P s i ∧ ∀ s', M.step i s = some s' → Along P is s'

/-- The property holds of every state that the run goes through. -/
def Always (P : σ → Prop) : List ι → σ → Prop
  | [], s => P s
  | i :: is, s => P s ∧ ∀ s', M.step i s = some s' → Always P is s'

variable {M}

theorem exec_cons {i : ι} {is : List ι} {s s' : σ} :
    M.exec (i :: is) s = some s' ↔ ∃ m, M.step i s = some m ∧ M.exec is m = some s' := by
  simp only [exec, Option.bind_eq_some_iff]

theorem Reachable.invariant {I : σ → Prop} (hinit : ∀ s, M.initial s → I s)
    (hstep : ∀ s i s', I s → M.guard s i → M.step i s = some s' → I s') {s : σ}
    (h : M.Reachable s) : I s := by
  induction h with
  | start h => exact hinit _ h
  | next _ hg hs ih => exact hstep _ _ _ ih hg hs

theorem Along.of_forall {P : σ → ι → Prop} {is : List ι} (h : ∀ i ∈ is, ∀ s, P s i) (s : σ) : M.Along P is s := by
  induction is generalizing s with
  | nil => trivial
  | cons i is ih => exact ⟨h i List.mem_cons_self s, fun s' _ => ih (fun j hj => h j (List.mem_cons_of_mem _ hj)) s'⟩

theorem Along.imp {P Q : σ → ι → Prop} (hpq : ∀ s i, P s i → Q s i) {is : List ι} {s : σ}
    (h : M.Along P is s) : M.Along Q is s := by
  induction is generalizing s with
  | nil => trivial
  | cons i is ih => exact ⟨hpq s i h.1, fun s' hs => ih (h.2 s' hs)⟩

theorem Along.and {P Q : σ → ι → Prop} {is : List ι} {s : σ} (hp : M.Along P is s) (hq : M.Along Q is s) :
    M.Along (fun s i => P s i ∧ Q s i) is s := by
  induction is generalizing s with
  | nil => trivial
  | cons i is ih => exact ⟨⟨hp.1, hq.1⟩, fun s' hs => ih (hp.2 s' hs) (hq.2 s' hs)⟩

theorem Always.head {P : σ → Prop} {is : List ι} {s : σ} (h : M.Always P is s) : P s := by
  cases is with
  | nil => exact h
  | cons i is => exact h.1

section Runs
variable {I P : σ → Prop} {G C : σ → ι → Prop} {is : List ι} {s : σ}

/-- A run succeeds if every step does. -/
theorem exec_of_along (hstep : ∀ s i, I s → G s i → ∃ s', M.step i s = some s' ∧ I s') (hI : I s)
    (hG : M.Along G is s) : ∃ s', M.exec is s = some s' ∧ I s' := by
  induction is generalizing s with
  | nil => exact ⟨s, rfl, hI⟩
  | cons i is ih =>
    obtain ⟨m, hm, hIm⟩ := hstep s i hI hG.1
    obtain ⟨s', hs, hI'⟩ := ih hIm (hG.2 m hm)
    exact ⟨s', exec_cons.mpr ⟨m, hm, hs⟩, hI'⟩

/-- A property that each step keeps exactly under a condition holds throughout a run exactly if the condition holds
before every step. -/
theorem always_iff_along
    (hstep : ∀ s i, I s → P s → G s i → ∃ s', M.step i s = some s' ∧ I s' ∧ (P s' ↔ C s i)) (hI : I s) (hP : P s)
    (hG : M.Along G is s) : M.Always P is s ↔ M.Along C is s := by
  induction is generalizing s with
  | nil => exact iff_of_true hP trivial
  | cons i is ih =>
    obtain ⟨m, hm, hIm, hiff⟩ := hstep s i hI hP hG.1
    have hGm := hG.2 m hm
    simp only [Always, Along, hm, Option.some.injEq, forall_eq']
    constructor
    · rintro ⟨-, halways⟩
      have hPm := halways.head
      exact ⟨hiff.mp hPm, (ih hIm hPm hGm).mp halways⟩
    · rintro ⟨hC, halong⟩
      exact ⟨hP, (ih hIm (hiff.mpr hC) hGm).mpr halong⟩

end Runs

end GuardedSystem

/-- An abstract account of a guarded system: guarded steps of states that satisfy
the invariant succeed, keep it, and act on the abstract state as `effect` says. -/
structure Simulation {σ ι : Type*} (M : GuardedSystem σ ι) (τ : Type*) where
  inv : σ → Prop
  abs : σ → τ
  effect : ι → τ → τ
  start : ∀ s, M.initial s → inv s
  step : ∀ s i, inv s → M.guard s i → ∃ s', M.step i s = some s' ∧ inv s' ∧ abs s' = effect i (abs s)

namespace Simulation
variable {σ ι τ : Type*} {M : GuardedSystem σ ι} (S : Simulation M τ)

theorem inv_of_reachable {s : σ} (h : M.Reachable s) : S.inv s :=
  h.invariant S.start fun s i s' hI hg hs => by
    obtain ⟨t, ht, hI', _⟩ := S.step s i hI hg
    rw [hs] at ht
    exact Option.some.inj ht ▸ hI'

theorem step_eq {s s' : σ} {i : ι} (hI : S.inv s) (hg : M.guard s i) (hs : M.step i s = some s') :
    S.inv s' ∧ S.abs s' = S.effect i (S.abs s) := by
  obtain ⟨t, ht, hI', ha⟩ := S.step s i hI hg
  rw [hs] at ht
  obtain rfl := Option.some.inj ht
  exact ⟨hI', ha⟩

/-- Guarded runs never fail and act on the abstract state as their effects in order. -/
theorem exec_run (is : List ι) {s : σ} (hI : S.inv s) (hg : M.Along M.guard is s) :
    ∃ s', M.exec is s = some s' ∧ S.inv s' ∧ S.abs s' = is.foldl (fun t i => S.effect i t) (S.abs s) := by
  induction is generalizing s with
  | nil => exact ⟨s, rfl, hI, rfl⟩
  | cons i is ih =>
    obtain ⟨m, hm, hIm, ham⟩ := S.step s i hI hg.1
    obtain ⟨s', hs', hI', ha'⟩ := ih hIm (hg.2 m hm)
    refine ⟨s', GuardedSystem.exec_cons.mpr ⟨m, hm, hs'⟩, hI', ?_⟩
    rw [ha', List.foldl_cons, ham]

/-- Steps whose effects commute and whose guards survive the exchange reach
states of one abstraction in either order. -/
theorem two_orders {s : σ} {i j : ι} (hI : S.inv s) (hij : M.Along M.guard [i, j] s)
    (hji : M.Along M.guard [j, i] s)
    (hc : S.effect j (S.effect i (S.abs s)) = S.effect i (S.effect j (S.abs s))) :
    ∃ s₁ s₂, M.exec [i, j] s = some s₁ ∧ M.exec [j, i] s = some s₂ ∧
      S.inv s₁ ∧ S.inv s₂ ∧ S.abs s₁ = S.abs s₂ := by
  obtain ⟨s₁, h₁, hI₁, ha₁⟩ := S.exec_run [i, j] hI hij
  obtain ⟨s₂, h₂, hI₂, ha₂⟩ := S.exec_run [j, i] hI hji
  exact ⟨s₁, s₂, h₁, h₂, hI₁, hI₂, by rw [ha₁, ha₂]; exact hc⟩

end Simulation
end MGFileSystem
