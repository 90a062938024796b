import Mathlib.Data.List.Basic

/-! Paths by the rules of POSIX: split at a separator, with empty components and single dots
without effect, and a double dot that takes the last component away. -/
namespace MGFileSystem.PosixPath
variable {α : Type*} [DecidableEq α] (sep dot : α)

def components (s : List α) : List (List α) := (s.splitOn sep).filter fun c => decide (c ≠ [])

/-- One component further from a directory. -/
def walk (dir : List (List α)) (c : List α) : List (List α) :=
  if c = [dot] then dir
  else if c = [dot, dot] then dir.dropLast
  else dir ++ [c]

/-- The components below the root that a path leads to. -/
def resolve (s : List α) : List (List α) := (components sep s).foldl (walk dot) []

/-- No component stands for another directory. -/
def Plain (s : List α) : Prop := ∀ c ∈ components sep s, c ≠ [dot] ∧ c ≠ [dot, dot]

instance (s : List α) : Decidable (Plain sep dot s) := inferInstanceAs (Decidable (∀ c ∈ components sep s, _))

/-- The path with a separator before every component. -/
def spell (cs : List (List α)) : List α := cs.flatMap (sep :: ·)

variable {sep dot}

/-- Splitting does not see whether a separator is doubled. -/
theorem components_append (a b : List α) : components sep (a ++ sep :: b) = components sep a ++ components sep b := by
  rw [components, List.splitOn_append_cons_self, List.filter_append]
  rfl

theorem components_nil : components sep [] = [] := by
  rw [components, List.splitOn_nil]
  rfl

theorem components_cons (b : List α) : components sep (sep :: b) = components sep b := by
  have happend : components sep ([] ++ sep :: b) = components sep [] ++ components sep b := components_append [] b
  rwa [components_nil] at happend

theorem components_of_not_mem {n : List α} (h : sep ∉ n) (hne : n ≠ []) : components sep n = [n] := by
  rw [components, List.splitOn_eq_singleton h]
  simp [hne]

theorem foldl_walk {dir cs : List (List α)} (h : ∀ c ∈ cs, c ≠ [dot] ∧ c ≠ [dot, dot]) :
    cs.foldl (walk dot) dir = dir ++ cs := by
  induction cs generalizing dir with
  | nil => exact (List.append_nil dir).symm
  | cons c cs ih =>
    obtain ⟨hdot, hdots⟩ := h c List.mem_cons_self
    rw [List.foldl_cons, walk, if_neg hdot, if_neg hdots, ih fun x hx => h x (List.mem_cons_of_mem _ hx),
      List.append_assoc, List.singleton_append]

/-- A path without dots only goes down from where the path before it leads. -/
theorem resolve_append {a b : List α} (h : Plain sep dot b) :
    resolve sep dot (a ++ sep :: b) = resolve sep dot a ++ components sep b := by
  rw [resolve, components_append, List.foldl_append, foldl_walk h]
  rfl

end MGFileSystem.PosixPath
