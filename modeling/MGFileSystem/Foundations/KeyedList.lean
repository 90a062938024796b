import Mathlib.Data.List.Nodup
import Mathlib.Logic.Function.Basic

/-! Lists searched by a key, the first match winning. With distinct keys every
edit at a found position is a point update of the finite map the list stands for. -/
namespace MGFileSystem.KeyedList
variable {α κ : Type*} [DecidableEq κ] (key : α → κ)

/-- Slot of the first element carrying the key. -/
def position (l : List α) (k : κ) : Option Nat := l.findIdx? (fun a => decide (key a = k))

/-- The element a search for the key returns. -/
def lookup (l : List α) (k : κ) : Option α := l.find? (fun a => decide (key a = k))

variable {key}

theorem position_eq_none {l : List α} {k : κ} : position key l k = none ↔ k ∉ l.map key := by
  simp only [position, List.findIdx?_eq_none_iff, decide_eq_false_iff_not, List.mem_map, not_exists,
    not_and]

theorem lookup_eq_none {l : List α} {k : κ} : lookup key l k = none ↔ k ∉ l.map key := by
  simp only [lookup, List.find?_eq_none, decide_eq_true_eq, List.mem_map, not_exists, not_and]

/-- A found slot splits the list at its first match. -/
theorem position_split {l : List α} {k : κ} {i : Nat} (h : position key l k = some i) :
    ∃ front a back, l = front ++ a :: back ∧ front.length = i ∧ key a = k ∧ k ∉ front.map key := by
  obtain ⟨hi, ha, hfirst⟩ := List.findIdx?_eq_some_iff_getElem.mp h
  refine ⟨l.take i, l[i], l.drop (i + 1), ?_, ?_, by simpa using ha, ?_⟩
  · rw [List.getElem_cons_drop, List.take_append_drop]
  · exact List.length_take_of_le (Nat.le_of_lt hi)
  · intro hm
    obtain ⟨b, hb, hk⟩ := List.mem_map.mp hm
    obtain ⟨j, hj, he⟩ := List.mem_take_iff_getElem.mp hb
    have := hfirst j (by omega)
    simp [he, hk] at this

/-- The first element with its key is found at its slot. -/
theorem position_of_split {front back : List α} {a : α} (h : key a ∉ front.map key) :
    position key (front ++ a :: back) (key a) = some front.length := by
  have hfront : front.findIdx? (fun b => decide (key b = key a)) = none := position_eq_none.mpr h
  rw [position, List.findIdx?_append, hfront, List.findIdx?_cons]
  simp

theorem lookup_split {front back : List α} {a : α} (k : κ) :
    lookup key (front ++ a :: back) k =
      (lookup key front k).or (if key a = k then some a else lookup key back k) := by
  rw [lookup, List.find?_append, List.find?_cons]
  by_cases h : key a = k <;> simp [h, lookup]

/-- The slot found by a search holds the element found by the search. -/
theorem getElem?_position {l : List α} {k : κ} {i : Nat} (h : position key l k = some i) :
    ∃ a, l[i]? = some a ∧ lookup key l k = some a := by
  obtain ⟨front, a, back, rfl, rfl, rfl, hf⟩ := position_split h
  refine ⟨a, by simp, ?_⟩
  rw [lookup_split, lookup_eq_none.mpr hf]
  simp

theorem lookup_of_position_none {l : List α} {k : κ} (h : position key l k = none) :
    lookup key l k = none := lookup_eq_none.mpr (position_eq_none.mp h)

theorem position_isSome {l : List α} {k : κ} : (position key l k).isSome ↔ k ∈ l.map key := by
  rw [Option.isSome_iff_ne_none, ne_eq, position_eq_none, not_not]

theorem position_eq_findIdx? (key : α → κ) (l : List α) (k : κ) :
    position key l k = (l.map key).findIdx? (fun x => decide (x = k)) := by
  rw [List.findIdx?_map]
  rfl

/-- The slots that searches find depend on the keys alone. -/
theorem position_congr {β : Type*} {key' : β → κ} {l : List α} {l' : List β} (h : l.map key = l'.map key') :
    position key l = position key' l' := by
  funext k
  rw [position_eq_findIdx?, position_eq_findIdx?, h]

theorem lookup_map {β : Type*} {key : β → κ} (g : α → β) (l : List α) (k : κ) :
    lookup key (l.map g) k = (lookup (fun a => key (g a)) l k).map g := by
  rw [lookup, List.find?_map]
  rfl

theorem isSome_lookup (l : List α) (k : κ) : (lookup key l k).isSome = (position key l k).isSome := by
  cases h : position key l k with
  | none => rw [lookup_of_position_none h]; rfl
  | some i =>
    obtain ⟨a, _, hl⟩ := getElem?_position h
    rw [hl]
    rfl

theorem lookup_append_fresh {l : List α} {a : α} (h : key a ∉ l.map key) :
    lookup key (l ++ [a]) = Function.update (lookup key l) (key a) (some a) := by
  funext k
  rw [lookup_split]
  rcases eq_or_ne k (key a) with rfl | hk
  · simp [lookup_eq_none.mpr h]
  · rw [if_neg hk.symm, Function.update_of_ne hk, show lookup key [] k = none from rfl, Option.or_none]

section Edits
variable {l : List α} {k : κ} {i : Nat} (hi : position key l k = some i)
include hi

theorem map_eraseIdx_position [BEq κ] [LawfulBEq κ] : (l.eraseIdx i).map key = (l.map key).erase k := by
  obtain ⟨front, a, back, rfl, rfl, rfl, hf⟩ := position_split hi
  rw [List.eraseIdx_append_of_length_le (Nat.le_refl _), Nat.sub_self, List.eraseIdx_cons_zero, List.map_append,
    List.map_append, List.map_cons, List.erase_append_right _ hf, List.erase_cons_head]

/-- Removing the found slot forgets exactly the searched key. -/
theorem lookup_eraseIdx (hn : (l.map key).Nodup) :
    lookup key (l.eraseIdx i) = Function.update (lookup key l) k none := by
  funext k'
  rcases eq_or_ne k' k with rfl | hk
  · rw [Function.update_self, lookup_eq_none, map_eraseIdx_position hi]
    exact hn.not_mem_erase
  · obtain ⟨front, a, back, rfl, rfl, rfl, hf⟩ := position_split hi
    rw [Function.update_of_ne hk, lookup_split, if_neg hk.symm,
      List.eraseIdx_append_of_length_le (Nat.le_refl _), Nat.sub_self, List.eraseIdx_cons_zero, lookup,
      List.find?_append]
    rfl

theorem modify_position (f : α → α) :
    ∃ front a back, l = front ++ a :: back ∧ key a = k ∧ k ∉ front.map key ∧
      l.modify i f = front ++ f a :: back := by
  obtain ⟨front, a, back, rfl, rfl, hk, hf⟩ := position_split hi
  refine ⟨front, a, back, rfl, hk, hf, ?_⟩
  rw [List.modify_eq_take_cons_drop (by simp)]
  simp

/-- Editing the found slot without touching its key changes the record of that key only. -/
theorem lookup_modify {f : α → α} (hf : ∀ a, key (f a) = key a) :
    lookup key (l.modify i f) = Function.update (lookup key l) k ((lookup key l k).map f) := by
  obtain ⟨front, a, back, rfl, rfl, hfront, he⟩ := modify_position hi f
  rw [he]
  funext k'
  simp only [lookup_split, hf]
  rcases eq_or_ne k' (key a) with rfl | hk
  · simp [lookup_eq_none.mpr hfront]
  · rw [Function.update_of_ne hk, if_neg hk.symm, lookup_split, if_neg hk.symm]

/-- Rekeying the found slot to an unused key moves its record there. -/
theorem lookup_rekey {f : α → α} {k' : κ} (hf : ∀ a, key (f a) = k') (hn : (l.map key).Nodup)
    (hk' : k' ∉ l.map key) :
    lookup key (l.modify i f) =
      Function.update (Function.update (lookup key l) k none) k' ((lookup key l k).map f) := by
  obtain ⟨front, a, back, rfl, rfl, hfront, he⟩ := modify_position hi f
  have hback : key a ∉ back.map key := by
    rw [List.map_append, List.map_cons, List.nodup_append, List.nodup_cons] at hn
    exact hn.2.1.1
  simp only [List.map_append, List.map_cons, List.mem_append, List.mem_cons, not_or] at hk'
  rw [he]
  funext q
  rw [lookup_split, hf]
  rcases eq_or_ne q k' with rfl | hq
  · simp [lookup_eq_none.mpr hk'.1, lookup_split, lookup_eq_none.mpr hfront]
  · rw [Function.update_of_ne hq, if_neg hq.symm]
    rcases eq_or_ne q (key a) with rfl | hqa
    · rw [Function.update_self, lookup_eq_none.mpr hfront, lookup_eq_none.mpr hback]
      rfl
    · rw [Function.update_of_ne hqa, lookup_split, if_neg hqa.symm]

theorem map_rekey_perm [BEq κ] [LawfulBEq κ] {f : α → α} {k' : κ} (hf : ∀ a, key (f a) = k') :
    ((l.modify i f).map key).Perm (k' :: (l.map key).erase k) := by
  obtain ⟨front, a, back, rfl, rfl, hfront, he⟩ := modify_position hi f
  rw [he, List.map_append, List.map_append, List.map_cons, List.map_cons, hf,
    List.erase_append_right _ hfront, List.erase_cons_head]
  exact List.perm_middle

end Edits
end MGFileSystem.KeyedList
