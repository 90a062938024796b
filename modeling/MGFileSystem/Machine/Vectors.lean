import Mathlib.Data.List.Basic

/-! `std::vector` with the storage its elements live in. Growth moves the elements
to new storage, and a pointer taken before no longer designates any of them. -/
namespace MGFileSystem

/-- How much storage a full vector asks for: any policy with room for one more. -/
structure GrowthPolicy where
  next : Nat → Nat
  grows : ∀ n, n < next n

/-- Room for exactly one more element. -/
def GrowthPolicy.tight : GrowthPolicy := ⟨Nat.succ, Nat.lt_succ_self⟩

/-- Room for eight more. -/
def GrowthPolicy.roomy : GrowthPolicy := ⟨(· + 8), fun _ => Nat.lt_add_of_pos_right (by decide)⟩

structure StdVector (α : Type) where
  elems : List α
  capacity : Nat
  /-- Number of the storage block that holds the elements. -/
  storage : Nat
  fits : elems.length ≤ capacity

/-- A pointer to a slot of a storage block. -/
structure ElementPtr where
  storage : Nat
  slot : Nat
  deriving DecidableEq, Repr

namespace StdVector
variable {α : Type}

def empty : StdVector α := ⟨[], 0, 0, Nat.le_refl 0⟩

/-- `push_back` moves the elements exactly when `size() == capacity()`. -/
def pushBack (g : GrowthPolicy) (v : StdVector α) (a : α) : StdVector α :=
  if h : v.elems.length = v.capacity then
    ⟨v.elems ++ [a], g.next v.elems.length, v.storage + 1, by
      rw [List.length_append, List.length_singleton]
      exact g.grows _⟩
  else
    ⟨v.elems ++ [a], v.capacity, v.storage, by
      rw [List.length_append, List.length_singleton]
      exact Nat.lt_of_le_of_ne v.fits h⟩

def eraseIdx (v : StdVector α) (i : Nat) : StdVector α :=
  ⟨v.elems.eraseIdx i, v.capacity, v.storage, Nat.le_trans (List.length_eraseIdx_le _ _) v.fits⟩

/-- Assignment through `v[i]`. -/
def modify (v : StdVector α) (i : Nat) (f : α → α) : StdVector α :=
  ⟨v.elems.modify i f, v.capacity, v.storage, by simpa using v.fits⟩

/-- `&v[i]`. -/
def ptr (v : StdVector α) (i : Nat) : ElementPtr := ⟨v.storage, i⟩

/-- `&v.back()`. -/
def backPtr (v : StdVector α) : ElementPtr := v.ptr (v.elems.length - 1)

/-- Assignment through a pointer; it reaches the vector only in its present storage. -/
def modifyAt (v : StdVector α) (p : ElementPtr) (f : α → α) : StdVector α :=
  if p.storage = v.storage then v.modify p.slot f else v

@[simp] theorem elems_empty : (empty : StdVector α).elems = [] := rfl

@[simp] theorem elems_pushBack (g : GrowthPolicy) (v : StdVector α) (a : α) :
    (v.pushBack g a).elems = v.elems ++ [a] := by
  unfold pushBack
  split <;> rfl

@[simp] theorem elems_modify (v : StdVector α) (i : Nat) (f : α → α) :
    (v.modify i f).elems = v.elems.modify i f := rfl

/-- After an assignment to a slot every element is the assigned one or stands in another slot, as before. -/
theorem slot_of_mem_modify {l : List α} {i : Nat} {a x : α} {f : α → α} (ha : l[i]? = some a)
    (hx : x ∈ l.modify i f) : x = f a ∨ ∃ j, i ≠ j ∧ l[j]? = some x := by
  obtain ⟨j, hj⟩ := List.mem_iff_getElem?.mp hx
  by_cases hij : i = j
  · subst hij
    rw [List.getElem?_modify_eq, ha] at hj
    exact .inl (Option.some.inj hj).symm
  · rw [List.getElem?_modify_ne _ _ hij] at hj
    exact .inr ⟨j, hij, hj⟩

/-- Without growth the storage, and with it every pointer, stays valid. -/
theorem storage_pushBack_of_lt {g : GrowthPolicy} {v : StdVector α} {a : α}
    (h : v.elems.length < v.capacity) : (v.pushBack g a).storage = v.storage := by
  rw [pushBack, dif_neg (Nat.ne_of_lt h)]

theorem storage_pushBack_of_full {g : GrowthPolicy} {v : StdVector α} {a : α}
    (h : ¬ v.elems.length < v.capacity) : (v.pushBack g a).storage = v.storage + 1 := by
  rw [pushBack, dif_pos (Nat.le_antisymm v.fits (Nat.le_of_not_lt h))]

theorem modifyAt_of_eq {v : StdVector α} {p : ElementPtr} {f : α → α} (h : p.storage = v.storage) :
    v.modifyAt p f = v.modify p.slot f := if_pos h

theorem modifyAt_of_ne {v : StdVector α} {p : ElementPtr} {f : α → α} (h : p.storage ≠ v.storage) :
    v.modifyAt p f = v := if_neg h

/-- An assignment that can be followed on a property of the elements. -/
theorem map_modify_of_comm {β : Type} {g : α → β} {f : α → α} {k : β → β} (h : ∀ a, g (f a) = k (g a)) {l : List α}
    {i : Nat} : (l.modify i f).map g = (l.map g).modify i k := by
  apply List.ext_getElem?
  intro j
  simp only [List.getElem?_map, List.getElem?_modify]
  cases l[j]? <;> simp [apply_ite g, h]

section Map
variable {β : Type} {g : α → β} {f : α → α} (hf : ∀ a, g (f a) = g a)
include hf

/-- An assignment that keeps a property of the elements keeps the list of these properties. -/
theorem map_modify (v : StdVector α) (i : Nat) : (v.modify i f).elems.map g = v.elems.map g := by
  rw [elems_modify, map_modify_of_comm (k := id) hf, List.modify_id]

theorem map_modifyAt (v : StdVector α) (p : ElementPtr) : (v.modifyAt p f).elems.map g = v.elems.map g := by
  unfold modifyAt
  split
  · exact map_modify hf v p.slot
  · rfl

end Map
end StdVector
end MGFileSystem
