import Mathlib.Data.Finset.Max
import Mathlib.Data.Set.Finite.Basic

/-! Partial functions that are defined at finitely many arguments, taken apart one entry at a time. -/
namespace MGFileSystem.FiniteMaps
variable {α β : Type*} [DecidableEq α]

/-- Where a partial function is defined. -/
def support (f : α → Option β) : Set α := {a | f a ≠ none}

theorem mem_support_update {f : α → Option β} {a c : α} {v : Option β} :
    c ∈ support (Function.update f a v) ↔ if c = a then v ≠ none else c ∈ support f := by
  by_cases h : c = a
  · rw [if_pos h, h, support, Set.mem_ofPred_eq, Function.update_self]
  · rw [if_neg h, support, Set.mem_ofPred_eq, Function.update_of_ne h]
    rfl

theorem finite_update {f : α → Option β} (h : (support f).Finite) (a : α) (v : Option β) :
    (support (Function.update f a v)).Finite := by
  refine (h.insert a).subset fun c hc => ?_
  rw [mem_support_update] at hc
  split at hc
  next he => exact .inl he
  next => exact .inr hc

/-- Induction over the finite functions of a class. Outside the base an entry of largest rank comes last. -/
theorem induction_on_rank (rank : α → Nat) (base : α → Prop) {I P : (α → Option β) → Prop}
    (bare : ∀ f, I f → (∀ a ∈ support f, base a) → P f)
    (add : ∀ f a b, I f → ¬ base a → f a = some b → (∀ c ∈ support f, ¬ base c → rank c ≤ rank a) →
      I (Function.update f a none) ∧ (P (Function.update f a none) → P f))
    {f : α → Option β} (hI : I f) (hf : (support f).Finite) : P f := by
  suffices hcovered : ∀ (S : Finset α) (f : α → Option β), I f → (∀ a ∈ support f, ¬ base a → a ∈ S) → P f from
    hcovered hf.toFinset f hI fun a ha _ => hf.mem_toFinset.mpr ha
  clear hI hf f
  intro S
  induction S using Finset.induction_on_max_value rank with
  | empty =>
    intro f hI hcover
    exact bare f hI fun a ha => not_not.mp fun hb => Finset.notMem_empty a (hcover a ha hb)
  | insert a S _ hmax ih =>
    intro f hI hcover
    have hrest : ∀ c ∈ support f, ¬ base c → c ≠ a → c ∈ S := fun c hc hb hne =>
      (Finset.mem_insert.mp (hcover c hc hb)).resolve_left hne
    by_cases hb : base a
    · refine ih f hI fun c hc hcb => hrest c hc hcb ?_
      rintro rfl
      exact hcb hb
    · cases ha : f a with
      | none =>
        refine ih f hI fun c hc hcb => hrest c hc hcb ?_
        rintro rfl
        exact hc ha
      | some b =>
        obtain ⟨hI', hP⟩ := add f a b hI hb ha fun c hc hcb => by
          rcases eq_or_ne c a with rfl | hne
          · exact Nat.le_refl _
          · exact hmax c (hrest c hc hcb hne)
        refine hP (ih _ hI' fun c hc hcb => ?_)
        rw [mem_support_update] at hc
        split at hc
        next => exact absurd rfl hc
        next hne => exact hrest c hc hcb hne

end MGFileSystem.FiniteMaps
