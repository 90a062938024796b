import MGFileSystem.Backend.StorageBackend
import MGFileSystem.Foundations.KeyedList

/-! The argument of an ssh mount. `main` cuts it at the first `@` and the first `:`, with
positions of type `size_t` that are computed before it is known whether either occurs. -/
namespace MGFileSystem

/-- `std::string::npos`. -/
def npos : UInt64 := 18446744073709551615

/-- A `std::string` with the bound that its `max_size` puts on the length. -/
structure StdString where
  bytes : Bytes
  length_lt : bytes.length < 9223372036854775808

namespace StdString

def size (s : StdString) : UInt64 := .ofNat s.bytes.length

/-- `find` of a single byte. -/
def find (s : StdString) (b : Byte) : UInt64 :=
  match KeyedList.position id s.bytes b with
  | some i => .ofNat i
  | none => npos

/-- `substr` throws `std::out_of_range` past the end and cuts the count to what is there. -/
def substr (s : StdString) (pos count : UInt64) : Except Fault Bytes :=
  if s.bytes.length < pos.toNat then .error .outOfRange
  else .ok ((s.bytes.drop pos.toNat).take count.toNat)

end StdString

def atSign : Byte := 64
def colon : Byte := 58

structure RemoteAddress where
  remoteUser : Bytes
  ipAddr : Bytes
  remoteDir : Bytes
  deriving DecidableEq, Repr

/-- How `main` can end on the argument. -/
inductive MountFailure where
  /-- "ssh mount argument missing" -/
  | missing
  /-- "bad ssh mount argument" -/
  | bad
  | thrown (f : Fault)
  deriving DecidableEq, Repr

/-- What `main` makes of `ssh_dir`, an address of form `<user>@<ip-addr>:<directory>`. -/
def parseSshDir (sshDir : StdString) : Except MountFailure RemoteAddress := do
  if sshDir.size = 0 then throw .missing
  let remoteUser ← (sshDir.substr 0 (sshDir.find atSign)).mapError .thrown
  let ipAddr ← (sshDir.substr (sshDir.find atSign + 1)
    (sshDir.find colon - sshDir.find atSign - 1)).mapError .thrown
  let remoteDir ← (sshDir.substr (sshDir.find colon + 1) (sshDir.size - sshDir.find colon)).mapError .thrown
  if remoteUser.length = 0 ∨ ipAddr.length = 0 ∨ remoteDir.length = 0 then throw .bad
  return ⟨remoteUser, ipAddr, remoteDir⟩

namespace StdString
variable {s : StdString} {b : Byte} {i : Nat}

theorem toNat_size (s : StdString) : s.size.toNat = s.bytes.length := by
  have hlt := s.length_lt
  rw [size, UInt64.toNat_ofNat']
  omega

theorem toNat_find (h : KeyedList.position id s.bytes b = some i) :
    (s.find b).toNat = i ∧ i < s.bytes.length := by
  obtain ⟨front, a, back, he, rfl, -⟩ := KeyedList.position_split h
  have hlen : front.length < s.bytes.length := by
    rw [he, List.length_append, List.length_cons]
    omega
  have hlt := s.length_lt
  rw [find, h, UInt64.toNat_ofNat']
  omega

theorem toNat_find_none (h : KeyedList.position id s.bytes b = none) : (s.find b).toNat = 18446744073709551615 := by
  rw [find, h]
  rfl

theorem toNat_find_succ (s : StdString) (b : Byte) :
    (s.find b + 1).toNat = ((s.find b).toNat + 1) % 18446744073709551616 := UInt64.toNat_add _ _

/-- The count of the middle part, computed modulo 2^64. -/
theorem toNat_gap (a c : UInt64) :
    (c - a - 1).toNat = (18446744073709551615 + (18446744073709551616 - a.toNat + c.toNat)) % 18446744073709551616 := by
  have ha := a.toNat_lt
  rw [UInt64.toNat_sub, UInt64.toNat_sub, UInt64.toNat_one]
  omega

theorem toNat_find_succ_le (s : StdString) (b : Byte) : (s.find b + 1).toNat ≤ s.bytes.length := by
  have hlt := s.length_lt
  have hpos := s.toNat_find_succ b
  cases h : KeyedList.position id s.bytes b with
  | some i =>
    have hfind := toNat_find h
    omega
  | none =>
    have hfind := toNat_find_none h
    omega

theorem substr_of_le {pos count : UInt64} (h : pos.toNat ≤ s.bytes.length) :
    s.substr pos count = .ok ((s.bytes.drop pos.toNat).take count.toNat) := by
  rw [substr, if_neg (Nat.not_lt.mpr h)]

/-- A count that reaches the end takes the rest of the string. -/
theorem substr_rest {pos count : UInt64} (h : pos.toNat ≤ s.bytes.length)
    (hcount : s.bytes.length ≤ pos.toNat + count.toNat) : s.substr pos count = .ok (s.bytes.drop pos.toNat) := by
  rw [substr_of_le h, List.take_of_length_le]
  rw [List.length_drop]
  omega

end StdString

namespace RemoteAddress

/-- The parts of an argument whose first `@` and `:` are at the given positions, if anywhere. Without its
separator a part reaches to one end of the argument. -/
def cut (s : Bytes) : Option Nat → Option Nat → RemoteAddress
  | some i, some j =>
    ⟨s.take i, if i < j then (s.drop (i + 1)).take (j - i - 1) else s.drop (i + 1), s.drop (j + 1)⟩
  | some i, none => ⟨s.take i, s.drop (i + 1), s⟩
  | none, some j => ⟨s, s.take j, s.drop (j + 1)⟩
  | none, none => ⟨s, s, s⟩

/-- No part is empty. -/
def Complete (r : RemoteAddress) : Prop := r.remoteUser ≠ [] ∧ r.ipAddr ≠ [] ∧ r.remoteDir ≠ []

instance (r : RemoteAddress) : Decidable r.Complete := inferInstanceAs (Decidable (_ ∧ _ ∧ _))

end RemoteAddress

namespace StdString
variable (s : StdString)

/-- The parts of the argument that `main` cuts out. -/
def parts : RemoteAddress :=
  .cut s.bytes (KeyedList.position id s.bytes atSign) (KeyedList.position id s.bytes colon)

theorem substr_remoteUser : s.substr 0 (s.find atSign) = .ok s.parts.remoteUser := by
  have hlt := s.length_lt
  rw [parts]
  cases hi : KeyedList.position id s.bytes atSign with
  | some i =>
    rw [substr_of_le (Nat.zero_le _), (toNat_find hi).1]
    cases KeyedList.position id s.bytes colon <;> rfl
  | none =>
    have hfind := toNat_find_none hi
    rw [substr_rest (Nat.zero_le _) (by omega)]
    cases KeyedList.position id s.bytes colon <;> rfl

omit s in
theorem position_ne {b : Bytes} {i j : Nat} (hi : KeyedList.position id b atSign = some i)
    (hj : KeyedList.position id b colon = some j) : i ≠ j := by
  rintro rfl
  obtain ⟨hlt, ha, -⟩ := List.findIdx?_eq_some_iff_getElem.mp hi
  obtain ⟨hlt', hc, -⟩ := List.findIdx?_eq_some_iff_getElem.mp hj
  have hac : atSign = colon := (of_decide_eq_true ha).symm.trans (of_decide_eq_true hc)
  exact absurd hac (by decide)

theorem substr_ipAddr :
    s.substr (s.find atSign + 1) (s.find colon - s.find atSign - 1) = .ok s.parts.ipAddr := by
  have hlt := s.length_lt
  have hpos := s.toNat_find_succ atSign
  have hcount := toNat_gap (s.find atSign) (s.find colon)
  rw [parts]
  cases hi : KeyedList.position id s.bytes atSign with
  | some i =>
    obtain ⟨hfind, hlen⟩ := toNat_find hi
    have hstart : (s.find atSign + 1).toNat = i + 1 := by omega
    cases hj : KeyedList.position id s.bytes colon with
    | some j =>
      obtain ⟨hfind', hlen'⟩ := toNat_find hj
      dsimp only [RemoteAddress.cut]
      split
      · have hlength : (s.find colon - s.find atSign - 1).toNat = j - i - 1 := by omega
        rw [substr_of_le (by omega), hstart, hlength]
      · -- The difference wraps around, and the count reaches past the end.
        have hne : i ≠ j := position_ne hi hj
        rw [substr_rest (by omega) (by omega), hstart]
    | none =>
      have hfind' := toNat_find_none hj
      rw [substr_rest (by omega) (by omega), hstart]
      rfl
  | none =>
    have hfind := toNat_find_none hi
    have hstart : (s.find atSign + 1).toNat = 0 := by omega
    cases hj : KeyedList.position id s.bytes colon with
    | some j =>
      obtain ⟨hfind', hlen'⟩ := toNat_find hj
      have hlength : (s.find colon - s.find atSign - 1).toNat = j := by omega
      rw [substr_of_le (by omega), hstart, hlength, List.drop_zero]
      rfl
    | none =>
      have hfind' := toNat_find_none hj
      rw [substr_rest (by omega) (by omega), hstart]
      rfl

theorem substr_remoteDir :
    s.substr (s.find colon + 1) (s.size - s.find colon) = .ok s.parts.remoteDir := by
  have hlt := s.length_lt
  have hpos := s.toNat_find_succ colon
  have hcount := UInt64.toNat_sub s.size (s.find colon)
  rw [toNat_size] at hcount
  rw [parts]
  cases hj : KeyedList.position id s.bytes colon with
  | some j =>
    obtain ⟨hfind, hlen⟩ := toNat_find hj
    have hstart : (s.find colon + 1).toNat = j + 1 := by omega
    rw [substr_rest (by omega) (by omega), hstart]
    cases KeyedList.position id s.bytes atSign <;> rfl
  | none =>
    have hfind := toNat_find_none hj
    have hstart : (s.find colon + 1).toNat = 0 := by omega
    rw [substr_rest (by omega) (by omega), hstart]
    cases KeyedList.position id s.bytes atSign <;> rfl

end StdString

/-- Where `main` cuts the argument, whatever the number and the order of its separators. -/
theorem parseSshDir_eq {s : StdString} (h : s.bytes ≠ []) :
    parseSshDir s = if s.parts.Complete then .ok s.parts else .error .bad := by
  have hsize : s.size ≠ 0 := by
    intro hz
    have hlength := s.toNat_size
    rw [hz, UInt64.toNat_zero] at hlength
    exact h (List.length_eq_zero_iff.mp hlength.symm)
  have hparts : s.parts.remoteUser.length = 0 ∨ s.parts.ipAddr.length = 0 ∨ s.parts.remoteDir.length = 0 ↔
      ¬ s.parts.Complete := by
    simp only [RemoteAddress.Complete, List.length_eq_zero_iff, ne_eq]
    tauto
  rw [parseSshDir, if_neg hsize, s.substr_remoteUser, s.substr_ipAddr, s.substr_remoteDir]
  simp only [Except.mapError, bind, Except.bind, hparts]
  by_cases hc : s.parts.Complete
  · rw [if_neg (not_not.mpr hc), if_pos hc]
    rfl
  · rw [if_pos hc, if_neg hc]
    rfl

example : parseSshDir ⟨text "x", by decide⟩ = .ok ⟨text "x", text "x", text "x"⟩ := by decide

namespace RemoteAddress

/-- The argument that a remote address is written as. -/
def spell (r : RemoteAddress) : Bytes := r.remoteUser ++ atSign :: (r.ipAddr ++ colon :: r.remoteDir)

/-- The parts can be told apart in the argument: a directory may contain both separators, an address may
contain `@`. -/
structure Separable (r : RemoteAddress) : Prop where
  user_no_at : atSign ∉ r.remoteUser
  user_no_colon : colon ∉ r.remoteUser
  addr_no_colon : colon ∉ r.ipAddr

variable {r : RemoteAddress}

theorem position_of_not_mem {front : Bytes} {b : Byte} (h : b ∉ front) (back : Bytes) :
    KeyedList.position id (front ++ b :: back) b = some front.length := by
  apply KeyedList.position_of_split
  rwa [List.map_id]

theorem Separable.position_at (h : r.Separable) :
    KeyedList.position id r.spell atSign = some r.remoteUser.length :=
  position_of_not_mem h.user_no_at _

theorem Separable.position_colon (h : r.Separable) :
    KeyedList.position id r.spell colon = some (r.remoteUser.length + 1 + r.ipAddr.length) := by
  have hspell : r.spell = (r.remoteUser ++ atSign :: r.ipAddr) ++ colon :: r.remoteDir := by
    rw [spell, List.append_assoc, List.cons_append]
  have hfree : colon ∉ r.remoteUser ++ atSign :: r.ipAddr := by
    rw [List.mem_append, List.mem_cons]
    rintro (hu | hc | ha)
    · exact h.user_no_colon hu
    · exact absurd hc (by decide)
    · exact h.addr_no_colon ha
  have hpos := position_of_not_mem hfree r.remoteDir
  rw [hspell]
  refine hpos.trans (congrArg some ?_)
  rw [List.length_append, List.length_cons]
  omega

theorem drop_spell (r : RemoteAddress) :
    r.spell.drop (r.remoteUser.length + 1) = r.ipAddr ++ colon :: r.remoteDir := by
  rw [spell, ← List.drop_drop, List.drop_left, List.drop_succ_cons, List.drop_zero]

/-- Cutting at the separators takes the written parts out again. -/
theorem Separable.cut_spell (h : r.Separable) :
    cut r.spell (KeyedList.position id r.spell atSign) (KeyedList.position id r.spell colon) = r := by
  have hcount : r.remoteUser.length + 1 + r.ipAddr.length - r.remoteUser.length - 1 = r.ipAddr.length := by omega
  have huser : r.spell.take r.remoteUser.length = r.remoteUser := List.take_left
  have hdir : r.spell.drop (r.remoteUser.length + 1 + r.ipAddr.length + 1) = r.remoteDir := by
    rw [Nat.add_assoc, ← List.drop_drop, drop_spell, ← List.drop_drop, List.drop_left, List.drop_succ_cons,
      List.drop_zero]
  rw [h.position_at, h.position_colon]
  simp only [cut]
  rw [if_pos (by omega), huser, drop_spell, hcount, List.take_left, hdir]

end RemoteAddress

namespace StdString

/-- Both separators occur, the first `@` before the first `:`. -/
def InOrder (b : Bytes) : Prop :=
  ∃ i j, KeyedList.position id b atSign = some i ∧ KeyedList.position id b colon = some j ∧ i < j

/-- An argument in order, or one whose only or first separator leaves nothing before it or after it. -/
def CutSoundly (b : Bytes) : Prop :=
  match KeyedList.position id b atSign, KeyedList.position id b colon with
  | some i, some j => i < j ∨ i + 1 = b.length
  | some i, none => i = 0 ∨ i + 1 = b.length
  | none, some j => j = 0 ∨ j + 1 = b.length
  | none, none => False

theorem InOrder.exists_spell {b : Bytes} (h : InOrder b) : ∃ r : RemoteAddress, b = r.spell ∧ r.Separable := by
  obtain ⟨i, j, hi, hj, hij⟩ := h
  obtain ⟨u, a, back, rfl, rfl, rfl, hu⟩ := KeyedList.position_split hi
  obtain ⟨v, c, dir, he, rfl, hc, hv⟩ := KeyedList.position_split hj
  rw [List.map_id] at hu hv
  obtain rfl : c = colon := hc
  rcases List.append_eq_append_iff.mp he with ⟨w, rfl, hw⟩ | ⟨w, rfl, hw⟩
  · cases w with
    | nil =>
      rw [List.append_nil] at hij
      exact absurd hij (lt_irrefl _)
    | cons b ip =>
      rw [List.cons_append, List.cons.injEq] at hw
      obtain ⟨rfl, rfl⟩ := hw
      rw [List.mem_append, List.mem_cons, not_or, not_or] at hv
      exact ⟨⟨u, ip, dir⟩, rfl, hu, hv.1, hv.2.2⟩
  · rw [List.length_append] at hij
    omega

theorem InOrder.cutSoundly {b : Bytes} (h : InOrder b) : CutSoundly b := by
  obtain ⟨i, j, hi, hj, hij⟩ := h
  rw [CutSoundly, hi, hj]
  exact .inl hij

/-- Out of order, the parts are incomplete only at the ends of the argument. -/
theorem cutSoundly_iff {s : StdString} (hs : s.bytes ≠ []) (h : ¬ InOrder s.bytes) :
    CutSoundly s.bytes ↔ ¬ s.parts.Complete := by
  have hpos : 0 < s.bytes.length := List.length_pos_iff.mpr hs
  rw [CutSoundly, parts, RemoteAddress.Complete]
  cases hi : KeyedList.position id s.bytes atSign with
  | some i =>
    have hilt := (toNat_find hi).2
    cases hj : KeyedList.position id s.bytes colon with
    | some j =>
      have hjlt := (toNat_find hj).2
      have hij : ¬ i < j := fun hij => h ⟨i, j, hi, hj, hij⟩
      have hne := position_ne hi hj
      simp only [RemoteAddress.cut, if_neg hij, ne_eq, List.take_eq_nil_iff, List.drop_eq_nil_iff, hs, or_false]
      omega
    | none =>
      simp only [RemoteAddress.cut, ne_eq, List.take_eq_nil_iff, List.drop_eq_nil_iff, hs, or_false,
        not_false_eq_true, and_true]
      omega
  | none =>
    cases hj : KeyedList.position id s.bytes colon with
    | some j =>
      have hjlt := (toNat_find hj).2
      simp only [RemoteAddress.cut, ne_eq, List.take_eq_nil_iff, List.drop_eq_nil_iff, hs, or_false,
        not_false_eq_true, true_and]
      omega
    | none => simp [RemoteAddress.cut, hs]

end StdString

open StdString in
/-- The parser accepts only its grammar exactly for the arguments that are cut soundly. -/
theorem parseSshDir_accepts_grammar_iff {s : StdString} (h : s.bytes ≠ []) :
    (∀ r, parseSshDir s = .ok r → s.bytes = r.spell ∧ r.Complete ∧ r.Separable) ∧
      (¬ InOrder s.bytes → parseSshDir s = .error .bad) ↔ CutSoundly s.bytes := by
  rw [parseSshDir_eq h]
  by_cases ho : InOrder s.bytes
  · refine iff_of_true ⟨fun r hr => ?_, fun hn => absurd ho hn⟩ ho.cutSoundly
    obtain ⟨r', hs, hr'⟩ := ho.exists_spell
    have hparts : s.parts = r' := by rw [StdString.parts, hs, hr'.cut_spell]
    split at hr
    · rename_i hc
      obtain rfl := Except.ok.inj hr
      rw [hparts] at hc ⊢
      exact ⟨hs, hc, hr'⟩
    · cases hr
  · rw [cutSoundly_iff h ho]
    constructor
    · intro hp hc
      rw [if_pos hc] at hp
      cases hp.2 ho
    · intro hc
      rw [if_neg hc]
      exact ⟨fun r hr => (by cases hr), fun _ => rfl⟩

theorem parseSshDir_accepts_grammar_iff_home :
    (text "root@10.0.0.1:/srv") ≠ [] ∧ ((∀ r, parseSshDir ⟨text "root@10.0.0.1:/srv", by decide⟩ = .ok r →
        text "root@10.0.0.1:/srv" = r.spell ∧ r.Complete ∧ r.Separable) ∧
      (¬ StdString.InOrder (text "root@10.0.0.1:/srv") →
        parseSshDir ⟨text "root@10.0.0.1:/srv", by decide⟩ = .error .bad) ↔
      StdString.CutSoundly (text "root@10.0.0.1:/srv")) :=
  ⟨by decide, parseSshDir_accepts_grammar_iff (s := ⟨text "root@10.0.0.1:/srv", by decide⟩) (by decide)⟩

/-- Without an `@` the whole argument is taken for the user, and the mount goes ahead. -/
theorem parseSshDir_accepts_missing_user :
    ¬ ((∀ r, parseSshDir ⟨text "10.0.0.1:/srv", by decide⟩ = .ok r →
        text "10.0.0.1:/srv" = r.spell ∧ r.Complete ∧ r.Separable) ∧
      (¬ StdString.InOrder (text "10.0.0.1:/srv") →
        parseSshDir ⟨text "10.0.0.1:/srv", by decide⟩ = .error .bad)) := by
  intro h
  have hr : parseSshDir ⟨text "10.0.0.1:/srv", by decide⟩ =
      .ok ⟨text "10.0.0.1:/srv", text "10.0.0.1", text "/srv"⟩ := by decide
  exact absurd (h.1 _ hr).1 (by decide)

/-- No cut starts past the end, and the parser gives back the parts that an argument was written from. -/
theorem parseSshDir_total_and_inverse :
    (∀ s : StdString, s.bytes ≠ [] → (s.find atSign + 1).toNat ≤ s.bytes.length ∧
      (s.find colon + 1).toNat ≤ s.bytes.length ∧ ∀ f, parseSshDir s ≠ .error (.thrown f)) ∧
    ∀ (r : RemoteAddress) (s : StdString), r.Complete → r.Separable → s.bytes = r.spell →
      parseSshDir s = .ok r := by
  refine ⟨fun s h => ⟨StdString.toNat_find_succ_le s _, StdString.toNat_find_succ_le s _, fun f hf => ?_⟩,
    fun r s hc hr hs => ?_⟩
  · rw [parseSshDir_eq h] at hf
    split at hf <;> cases hf
  · have hne : s.bytes ≠ [] := by
      rw [hs]
      exact List.append_ne_nil_of_right_ne_nil _ (List.cons_ne_nil _ _)
    have hparts : s.parts = r := by rw [StdString.parts, hs, hr.cut_spell]
    rw [parseSshDir_eq hne, hparts, if_pos hc]

/-- A directory with both separators in it. -/
theorem parseSshDir_total_and_inverse_home :
    parseSshDir ⟨text "root@10.0.0.1:/srv@a:b", by decide⟩ = .ok ⟨text "root", text "10.0.0.1", text "/srv@a:b"⟩ :=
  parseSshDir_total_and_inverse.2 ⟨text "root", text "10.0.0.1", text "/srv@a:b"⟩ _ (by decide)
    ⟨by decide, by decide, by decide⟩ (by decide)

end MGFileSystem
