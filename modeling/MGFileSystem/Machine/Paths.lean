import MGFileSystem.Machine.CStrings
import Mathlib.Data.List.Infix

/-! Normalised absolute paths, the only paths the kernel hands to a FUSE callback. -/
namespace MGFileSystem

/-- A leading slash, no empty component, and no trailing slash except for the root. -/
def Normalised (b : Bytes) : Prop :=
  b = [slash] ∨ (b.head? = some slash ∧ b.getLast? ≠ some slash ∧ ¬ [slash, slash] <:+: b)

instance : DecidablePred Normalised := fun b =>
  inferInstanceAs (Decidable (b = [slash] ∨
    (b.head? = some slash ∧ b.getLast? ≠ some slash ∧ ¬ [slash, slash] <:+: b)))

/-- The string before the last slash, which for a child of the root is the root itself. -/
def parentBytes (b : Bytes) : Bytes :=
  let d := b.take ((findLastOf slash b).getD 0)
  if d = [] then [slash] else d

/-- The string after the last slash. -/
def baseBytes (b : Bytes) : Bytes := b.drop (after (findLastOf slash b))

theorem parentBytes_split {d n : Bytes} (h : slash ∉ n) :
    parentBytes (d ++ slash :: n) = if d = [] then [slash] else d := by
  simp only [parentBytes, findLastOf_split d h, Option.getD_some, List.take_left]

theorem baseBytes_split {d n : Bytes} (h : slash ∉ n) : baseBytes (d ++ slash :: n) = n := by
  rw [baseBytes, findLastOf_split d h, after, ← List.drop_drop, List.drop_left]
  rfl

/-- A normalised path other than the root is a directory, a slash and a name. -/
theorem Normalised.split {b : Bytes} (h : Normalised b) (hr : b ≠ [slash]) :
    ∃ d n, b = d ++ slash :: n ∧ slash ∉ n ∧ n ≠ [] ∧ (d = [] ∨ (Normalised d ∧ d ≠ [slash])) := by
  obtain ⟨hhead, hlast, hdouble⟩ := h.resolve_left hr
  obtain ⟨d, n, rfl, hn⟩ := exists_last_split (List.mem_of_mem_head? hhead)
  have hne : n ≠ [] := by
    rintro rfl
    exact hlast (by simp)
  refine ⟨d, n, rfl, hn, hne, ?_⟩
  rcases List.eq_nil_or_concat d with rfl | ⟨d, c, rfl⟩
  · exact .inl rfl
  · have hc : c ≠ slash := by
      rintro rfl
      exact hdouble ⟨d, n, by simp⟩
    refine .inr ⟨.inr ⟨?_, by simpa using hc, fun hd => hdouble (hd.trans (List.infix_append' [] _ _))⟩, ?_⟩
    · rwa [List.head?_append_of_ne_nil _ (by simp)] at hhead
    · intro he
      have : c = slash := by simpa using congrArg List.getLast? he
      exact hc this

/-- Induction on the depth of a path below the root. -/
theorem Normalised.induction {P : Bytes → Prop} (top : ∀ n, slash ∉ n → n ≠ [] → P (slash :: n))
    (below : ∀ d n, Normalised d → d ≠ [slash] → slash ∉ n → n ≠ [] → P d → P (d ++ slash :: n)) {b : Bytes}
    (h : Normalised b) (hr : b ≠ [slash]) : P b := by
  induction hl : b.length using Nat.strong_induction_on generalizing b with
  | _ l ih =>
    obtain ⟨d, n, rfl, hn, hne, hd⟩ := h.split hr
    rcases hd with rfl | ⟨hd, hdr⟩
    · exact top n hn hne
    · refine below d n hd hdr hn hne (ih d.length ?_ hd hdr rfl)
      rw [← hl, List.length_append, List.length_cons]
      omega

theorem normalised_parentBytes {b : Bytes} (h : Normalised b) : Normalised (parentBytes b) := by
  by_cases hr : b = [slash]
  · subst hr
    exact .inl rfl
  · obtain ⟨d, n, rfl, hn, _, hd⟩ := h.split hr
    rw [parentBytes_split hn]
    split
    · exact .inl rfl
    · exact (hd.resolve_left ‹_›).1

theorem nul_free_parentBytes {b : Bytes} (h : 0 ∉ b) : 0 ∉ parentBytes b := by
  unfold parentBytes
  dsimp only
  split
  · decide
  · exact fun hm => h (List.mem_of_mem_take hm)

structure AbsPath extends CString where
  normalised : Normalised bytes
  deriving DecidableEq

namespace AbsPath

@[ext] theorem ext {p q : AbsPath} (h : p.bytes = q.bytes) : p = q := by
  obtain ⟨⟨p, _⟩, _⟩ := p
  obtain ⟨⟨q, _⟩, _⟩ := q
  obtain rfl : p = q := h
  rfl

def root : AbsPath := ⟨⟨[slash], by decide⟩, .inl rfl⟩

def parent (p : AbsPath) : AbsPath :=
  ⟨⟨parentBytes p.bytes, nul_free_parentBytes p.nul_free⟩, normalised_parentBytes p.normalised⟩

/-- The last component; the root has none. -/
def base (p : AbsPath) : Bytes := baseBytes p.bytes

theorem bytes_injective {p q : AbsPath} : p.bytes = q.bytes ↔ p = q := ⟨ext, fun h => h ▸ rfl⟩

theorem ne_nil (p : AbsPath) : p.bytes ≠ [] := by
  intro h
  have := p.normalised
  rw [h] at this
  exact absurd this (by decide)

theorem parent_root : root.parent = root := ext (by decide)

theorem bytes_ne_root {p : AbsPath} (h : p ≠ root) : p.bytes ≠ [slash] := fun he => h (ext he)

/-- Any other path than the root, cut at its last slash. -/
theorem split {p : AbsPath} (h : p ≠ root) :
    ∃ d n, p.bytes = d ++ slash :: n ∧ slash ∉ n ∧ n ≠ [] ∧ p.base = n ∧
      p.parent.bytes = (if d = [] then [slash] else d) ∧ (d = [] ∨ (Normalised d ∧ d ≠ [slash])) := by
  obtain ⟨d, n, he, hn, hne, hd⟩ := p.normalised.split (bytes_ne_root h)
  refine ⟨d, n, he, hn, hne, ?_, ?_, hd⟩
  · rw [base, he, baseBytes_split hn]
  · rw [parent, ← parentBytes_split hn, ← he]

/-- Only the root ends in a slash. -/
theorem getLast?_ne {p : AbsPath} (h : p ≠ root) : p.bytes.getLast? ≠ some slash :=
  (p.normalised.resolve_left (bytes_ne_root h)).2.1

end AbsPath
end MGFileSystem
