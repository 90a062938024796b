import Mathlib.Data.List.Basic

/-! A register under updates that may leave it as it is, and the same register where a
missing value is stored as the sentinel that stands for it. -/
namespace MGFileSystem.OptionalUpdates
variable {α : Type*} {unset : α}

/-- A value that is not the sentinel. -/
abbrev Value (unset : α) := { a : α // a ≠ unset }

/-- How an optional value is passed. -/
def encode : Option (Value unset) → α
  | none => unset
  | some a => a

/-- The last value given, or the former one if none was given. -/
def lastGiven (former : α) : List (Option (Value unset)) → α
  | [] => former
  | none :: given => lastGiven former given
  | some a :: given => lastGiven a given

/-- What remains where every value passed is stored, the sentinel too. -/
def lastStored (former : α) (given : List (Option (Value unset))) : α :=
  given.foldl (fun _ g => encode g) former

/-- Where every value passed is stored, the sentinel replaces nothing but itself. -/
def NeverUnset (former : α) : List (Option (Value unset)) → Prop
  | [] => True
  | g :: given => (encode g = unset → former = unset) ∧ NeverUnset (encode g) given

/-- An update leaves the value out only while the register holds the sentinel. -/
def Complete (former : α) : List (Option (Value unset)) → Prop
  | [] => True
  | none :: given => former = unset ∧ Complete former given
  | some a :: given => Complete a.val given

theorem neverUnset_iff_complete (former : α) (given : List (Option (Value unset))) :
    NeverUnset former given ↔ Complete former given := by
  induction given generalizing former with
  | nil => exact Iff.rfl
  | cons g given ih =>
    rw [NeverUnset, ih]
    cases g with
    | none =>
      constructor
      · rintro ⟨hformer, hrest⟩
        obtain rfl := hformer rfl
        exact ⟨rfl, hrest⟩
      · rintro ⟨rfl, hrest⟩
        exact ⟨id, hrest⟩
    | some a => exact and_iff_right fun ha => absurd ha a.property

/-- If no value is left out, what is stored last is what was given last. -/
theorem lastStored_eq_lastGiven {former : α} {given : List (Option (Value unset))} (h : Complete former given) :
    lastStored former given = lastGiven former given := by
  induction given generalizing former with
  | nil => rfl
  | cons g given ih =>
    cases g with
    | none =>
      obtain ⟨rfl, hrest⟩ := h
      exact ih hrest
    | some a => exact ih h

end MGFileSystem.OptionalUpdates
