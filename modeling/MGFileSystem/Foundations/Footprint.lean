import Mathlib.Data.Set.Defs

/-! Transformations of a map that read and write within a set of keys. Two of them
with disjoint sets commute. -/
namespace MGFileSystem
variable {κ α : Type*} {f g : (κ → α) → κ → α} {S T : Set κ}

/-- `f` keeps the map outside `S`, and what it makes of `S` depends on nothing else. -/
structure Footprint (f : (κ → α) → κ → α) (S : Set κ) : Prop where
  outside : ∀ A, ∀ k ∉ S, f A k = A k
  inside : ∀ A B, (∀ k ∈ S, A k = B k) → ∀ k ∈ S, f A k = f B k

theorem Footprint.comm (hf : Footprint f S) (hg : Footprint g T) (hST : ∀ k ∈ S, k ∉ T) (A : κ → α) :
    f (g A) = g (f A) := by
  have hTS : ∀ k ∈ T, k ∉ S := fun k hT hS => hST k hS hT
  funext k
  by_cases hS : k ∈ S
  · rw [hf.inside (g A) A (fun k hk => hg.outside A k (hST k hk)) k hS, hg.outside _ k (hST k hS)]
  · rw [hf.outside _ k hS]
    by_cases hT : k ∈ T
    · exact (hg.inside (f A) A (fun k hk => hf.outside A k (hTS k hk)) k hT).symm
    · rw [hg.outside _ k hT, hg.outside _ k hT, hf.outside _ k hS]

end MGFileSystem
