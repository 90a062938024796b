import MGFileSystem.Foundations.Overlay
import Mathlib.Data.List.TakeWhile

/-! Bytes as the C++ code sees them: `std::string` values, NUL-terminated C strings
and the raw memory that a `char*` points into. -/
namespace MGFileSystem
abbrev Byte := UInt8

/-- A `std::string`. It may hold any bytes; its length is not bounded here. -/
abbrev Bytes := List Byte

/-- The bytes from a pointer on. Past the end of the list memory holds NULs, so
every pointer has some later NUL, however far away the list puts it. -/
abbrev Memory := List Byte

def slash : Byte := 47

/-- A string literal of the source. -/
def text (s : String) : Bytes := s.toList.map (fun c => UInt8.ofNat c.toNat)

/-- `std::string(pointer)`: the bytes up to the first NUL. -/
def cStr (m : Memory) : Bytes := m.takeWhile (fun b => decide (b ≠ 0))

def strlen (m : Memory) : Nat := (cStr m).length

/-- What `strcpy(m, s.c_str())` makes of the memory at `m`: the text of `s` up to
its first NUL and a terminator, whether or not the block at `m` has room for it. -/
def strcpy (m : Memory) (s : Bytes) : Memory := cStr s ++ 0 :: m.drop ((cStr s).length + 1)

/-- The `size` bytes that `memcpy` takes from `m + offset`. -/
def load (m : Memory) (offset size : Nat) : Bytes := Overlay.fit 0 size (m.drop offset)

/-- A `const char*` argument: a byte string without NUL. -/
@[ext] structure CString where
  bytes : Bytes
  nul_free : 0 ∉ bytes
  deriving DecidableEq

/-- Conversion of a `size_t` to `int`, which keeps the low 32 bits. -/
def toCInt (n : Nat) : Int := (n : Int).bmod 4294967296

theorem toCInt_le (n : Nat) : toCInt n ≤ n := by
  unfold toCInt
  rw [Int.bmod_def]
  split <;> omega

theorem toCInt_eq_self {n : Nat} : toCInt n = n ↔ n < 2147483648 := by
  unfold toCInt
  rw [Int.bmod_def]
  split <;> omega

theorem toCInt_succ_ne (n : Nat) : toCInt (n + 1) ≠ toCInt n := by
  unfold toCInt
  rw [Int.bmod_def, Int.bmod_def]
  split <;> split <;> omega

theorem cStr_nul_free (m : Memory) : 0 ∉ cStr m := by
  intro h
  simpa using List.mem_takeWhile_imp h

theorem cStr_of_nul_free {m : Memory} (h : 0 ∉ m) : cStr m = m := by
  rw [cStr, List.takeWhile_eq_self_iff]
  intro b hb
  simpa using fun he : b = 0 => h (he ▸ hb)

theorem cStr_append {d : Bytes} (h : 0 ∉ d) (m : Memory) : cStr (d ++ m) = d ++ cStr m := by
  rw [cStr, List.takeWhile_append_of_pos]
  · rfl
  · intro b hb
    simpa using fun he : b = 0 => h (he ▸ hb)

/-- Text with a NUL in it is cut there, so its C string is shorter. -/
theorem length_cStr_lt {m : Memory} (h : 0 ∈ m) : (cStr m).length < m.length := by
  have hs : (cStr m).Sublist m := List.takeWhile_sublist _
  apply lt_of_le_of_ne hs.length_le
  intro he
  have hm := hs.eq_of_length he
  exact cStr_nul_free m (by rwa [hm])

theorem cStr_append_of_mem {d : Bytes} (h : 0 ∈ d) (m : Memory) : cStr (d ++ m) = cStr d := by
  rw [cStr, List.takeWhile_append, if_neg]
  · rfl
  · exact (length_cStr_lt h).ne

theorem cStr_eq_self {m : Memory} : cStr m = m ↔ 0 ∉ m :=
  ⟨fun h => h ▸ cStr_nul_free m, cStr_of_nul_free⟩

theorem length_cStr_le (m : Memory) : (cStr m).length ≤ m.length := (List.takeWhile_sublist _).length_le

/-- The text of the first `d.length` bytes depends on these alone, also where the text runs past them. -/
theorem take_cStr_append (d : Bytes) (m : Memory) : (cStr (d ++ m)).take d.length = cStr d := by
  by_cases hd : 0 ∈ d
  · rw [cStr_append_of_mem hd, List.take_of_length_le (length_cStr_le d)]
  · rw [cStr_append hd, List.take_left, cStr_of_nul_free hd]

def CString.ofBytes (s : Bytes) : CString := ⟨cStr s, cStr_nul_free s⟩

theorem CString.ofBytes_bytes {s : Bytes} (h : 0 ∉ s) : (CString.ofBytes s).bytes = s := cStr_of_nul_free h

theorem CString.cStr_bytes (p : CString) : cStr p.bytes = p.bytes := cStr_of_nul_free p.nul_free

theorem CString.ofBytes_self (p : CString) : CString.ofBytes p.bytes = p := CString.ext p.cStr_bytes

@[simp] theorem length_load (m : Memory) (offset size : Nat) : (load m offset size).length = size := by
  simp [load]

/-- A window that starts with `d` and reaches past it. -/
theorem load_append {d : Bytes} {size : Nat} (h : d.length ≤ size) (m : Memory) :
    load (d ++ m) 0 size = d ++ load m 0 (size - d.length) := by
  simp only [load, List.drop_zero, Overlay.fit, List.take_append, List.take_of_length_le h, List.length_append,
    Nat.sub_sub, List.append_assoc]

/-- Cutting the text at a pointer to `size` bytes yields the text of the `size` bytes at the pointer. -/
theorem take_cStr_eq (m : Memory) (size : Nat) : (cStr m).take size = cStr (load m 0 size) := by
  rw [load, List.drop_zero]
  rcases Nat.lt_or_ge m.length size with hlt | hle
  · rw [Overlay.fit_of_ge 0 hlt.le, List.take_of_length_le ((length_cStr_le m).trans hlt.le)]
    obtain ⟨k, hk⟩ : ∃ k, size - m.length = k + 1 := ⟨size - m.length - 1, by omega⟩
    by_cases hm : 0 ∈ m
    · rw [cStr_append_of_mem hm]
    · rw [cStr_append hm, cStr_of_nul_free hm, hk, List.replicate_succ]
      exact (List.append_nil m).symm
  · have hcut := take_cStr_append (m.take size) (m.drop size)
    rwa [List.take_append_drop, List.length_take, Nat.min_eq_left hle, ← Overlay.fit_of_le 0 hle] at hcut

theorem load_append_length (d : Bytes) (m : Memory) : load (d ++ m) 0 d.length = d := by
  rw [load_append (Nat.le_refl _), Nat.sub_self]
  simp [load, Overlay.fit]

/-- `std::string::find_last_of` of one byte; `none` is `npos`. -/
def findLastOf (c : Byte) : Bytes → Option Nat
  | [] => none
  | b :: s => match findLastOf c s with
    | some i => some (i + 1)
    | none => if b = c then some 0 else none

/-- The position `found + 1`, which is 0 when `found` is `npos`. -/
def after : Option Nat → Nat
  | none => 0
  | some i => i + 1

theorem findLastOf_eq_none {c : Byte} {s : Bytes} : findLastOf c s = none ↔ c ∉ s := by
  induction s with
  | nil => simp [findLastOf]
  | cons b s ih =>
    rw [findLastOf, List.mem_cons, not_or, ← ih]
    cases findLastOf c s with
    | some i => simp
    | none => simp [eq_comm]

theorem findLastOf_split {c : Byte} (d : Bytes) {n : Bytes} (h : c ∉ n) :
    findLastOf c (d ++ c :: n) = some d.length := by
  induction d with
  | nil => simp [findLastOf, findLastOf_eq_none.mpr h]
  | cons b d ih => simp [findLastOf, ih]

/-- A byte that occurs splits the string at its last occurrence. -/
theorem exists_last_split {c : Byte} {s : Bytes} (h : c ∈ s) : ∃ d n, s = d ++ c :: n ∧ c ∉ n := by
  induction s with
  | nil => cases h
  | cons b s ih =>
    by_cases hs : c ∈ s
    · obtain ⟨d, n, rfl, hn⟩ := ih hs
      exact ⟨b :: d, n, rfl, hn⟩
    · obtain rfl : c = b := by simpa [hs] using h
      exact ⟨[], s, rfl, hs⟩

end MGFileSystem
