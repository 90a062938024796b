import MGFileSystem.Ram.OneFile

/-! Text written to one file in consecutive chunks, with other operations on other paths
between the chunks. The length bookkeeping hits the end of the file at every chunk. -/
namespace MGFileSystem
open FilesystemData

/-- Calls that write the chunks to `p` one after the other from `offset` on, each from a buffer with
other bytes after it, among calls that do not name `p`. -/
inductive WritesChunks (p : AbsPath) : Nat → List Bytes → List Call → Prop
  | done {offset : Nat} : WritesChunks p offset [] []
  | other {offset : Nat} {chunks : List Bytes} {c : Call} {calls : List Call}
      (elsewhere : p ∉ c.operation.paths) :
      WritesChunks p offset chunks calls → WritesChunks p offset chunks (c :: calls)
  | chunk {offset : Nat} {d : Bytes} {chunks : List Bytes} {ctx : CallContext} {tail : Memory}
      {calls : List Call} (nul_free : 0 ∉ d) :
      WritesChunks p (offset + d.length) chunks calls →
        WritesChunks p offset (d :: chunks) (⟨ctx, .write p (d ++ tail) d.length offset⟩ :: calls)

/-- The kernel's checks on the calls that do not name `p`. -/
def GuardedElsewhere (p : AbsPath) (s : FilesystemData) (c : Call) : Prop :=
  p ∉ c.operation.paths → ramSystem.guard s c

theorem guardedElsewhere_of_mem {p : AbsPath} {s : FilesystemData} {c : Call} (h : p ∈ c.operation.paths) :
    GuardedElsewhere p s c := fun hn => absurd h hn

namespace HoldsFile
variable {p : AbsPath} {o : Object} {s : FilesystemData} (h : HoldsFile p o s)
include h

/-- Writing text at the end of the file appends it, whatever follows it in the buffer. -/
theorem step_append (ctx : CallContext) {d : Bytes} (hd : 0 ∉ d) (tail : Memory) :
    ∃ s', ramSystem.step ⟨ctx, .write p (d ++ tail) d.length o.content.length⟩ s = some s' ∧
      HoldsFile p { o with content := o.content ++ d } s' := by
  have hcut : (cStr (d ++ tail)).take d.length = d := by rw [take_cStr_append, cStr_of_nul_free hd]
  have hstep := h.step_write ctx (d ++ tail) d.length o.content.length
  rwa [hcut, Overlay.insert_at_end] at hstep

omit h in
/-- Chunks written from the end of the file on are appended to it in order. -/
theorem exec_chunks {offset : Nat} {chunks : List Bytes} {calls : List Call}
    (hw : WritesChunks p offset chunks calls) {o : Object} {s : FilesystemData} (h : HoldsFile p o s)
    (hend : offset = o.content.length) (hg : ramSystem.Along (GuardedElsewhere p) calls s) :
    ∃ s', ramSystem.exec calls s = some s' ∧
      HoldsFile p { o with content := o.content ++ chunks.flatten } s' := by
  induction hw generalizing o s with
  | done => exact ⟨s, rfl, by simpa using h⟩
  | other elsewhere _ ih =>
    obtain ⟨m, hm, hHolds⟩ := h.step_elsewhere elsewhere (hg.1 elsewhere)
    obtain ⟨s', he, hs'⟩ := ih hHolds hend (hg.2 m hm)
    exact ⟨s', GuardedSystem.exec_cons.mpr ⟨m, hm, he⟩, hs'⟩
  | @chunk _ d chunks ctx tail calls nul_free _ ih =>
    subst hend
    obtain ⟨m, hm, hHolds⟩ := h.step_append ctx nul_free tail
    obtain ⟨s', he, hs'⟩ := ih hHolds (List.length_append).symm (hg.2 m hm)
    refine ⟨s', GuardedSystem.exec_cons.mpr ⟨m, hm, he⟩, ?_⟩
    rwa [List.append_assoc, ← List.flatten_cons] at hs'

omit h in
/-- Calls that do not name the file keep it, so it can be cleared after them. -/
theorem exec_clear {others calls : List Call} (ho : ∀ c ∈ others, p ∉ c.operation.paths) {o : Object}
    {s : FilesystemData} (h : HoldsFile p o s) {ctx : CallContext}
    (hg : ramSystem.Along (GuardedElsewhere p) (others ++ ⟨ctx, .truncate p 0⟩ :: calls) s) :
    ∃ m, HoldsFile p { o with content := [] } m ∧ ramSystem.Along (GuardedElsewhere p) calls m ∧
      ramSystem.exec (others ++ ⟨ctx, .truncate p 0⟩ :: calls) s = ramSystem.exec calls m := by
  induction others generalizing s with
  | nil =>
    obtain ⟨m, hm, hHolds⟩ := h.step_truncate ctx 0
    refine ⟨m, hHolds, hg.2 m hm, ?_⟩
    rw [List.nil_append, GuardedSystem.exec, hm, Option.bind_some]
  | cons c others ih =>
    have hc := ho c List.mem_cons_self
    obtain ⟨m, hm, hHolds⟩ := h.step_elsewhere hc (hg.1 hc)
    obtain ⟨m', hHolds', hg', he⟩ := ih (fun c hc => ho c (List.mem_cons_of_mem _ hc)) hHolds (hg.2 m hm)
    refine ⟨m', hHolds', hg', ?_⟩
    rw [List.cons_append, GuardedSystem.exec, hm, Option.bind_some, he]

end HoldsFile

end MGFileSystem
