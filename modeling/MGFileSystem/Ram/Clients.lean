import MGFileSystem.Ram.MountedMap

/-! Clients that share a mount. The requests of several processes reach the callbacks in any order; those that keep to
paths of their own do not notice each other. -/
namespace MGFileSystem
open FilesystemData Service
variable {ι : Type*}

/-- The path arguments. -/
def MapRequest.paths : MapRequest → List AbsPath
  | .change op => op.paths
  | .getattr p _ | .rmdir p => [p]
  | .stub _ => []

/-- The paths that a request may change. -/
def MapRequest.changed : MapRequest → List AbsPath
  | .change op => op.paths
  | _ => []

/-- The map of a client alone, seen in the shared one: they agree on its region and on directories, and it has those of
the base. -/
structure SeenFrom (base : ObjectMap) (region : Set AbsPath) (A B : ObjectMap) : Prop where
  same : ∀ p, p ∈ region ∨ kindOf B p = some true → A p = B p
  directories : ∀ p, kindOf base p = some true → kindOf B p = some true

/-- The client names paths of its region, and directories of the base. -/
def KeepsTo (base : ObjectMap) (region : Set AbsPath) (c : MapCall) : Prop :=
  ∀ p ∈ c.request.paths, p ∈ region ∨ kindOf base p = some true

namespace MapCall
variable {A B base : ObjectMap} {c : MapCall} {region other : Set AbsPath}

theorem footprint (c : MapCall) : Footprint (effect · c) {p | p ∈ c.request.changed} := by
  obtain ⟨ctx, request⟩ := c
  cases request with
  | change op => exact op.footprint ctx
  | getattr | rmdir | stub => exact ⟨fun _ _ _ => rfl, fun _ _ h => h⟩

theorem changed_subset (c : MapCall) : ∀ p ∈ c.request.changed, p ∈ c.request.paths := by
  obtain ⟨ctx, request⟩ := c
  cases request with
  | change op => exact fun _ => id
  | getattr | rmdir | stub => exact fun p hp => absurd hp List.not_mem_nil

theorem kindOf_changed (h : c.Allowed A) {p : AbsPath} (hp : p ∈ c.request.changed) : kindOf A p ≠ some true := by
  obtain ⟨ctx, request⟩ := c
  cases request with
  | change op => exact Operation.kindOf_of_mem_paths h hp
  | getattr | rmdir | stub => exact absurd hp List.not_mem_nil

/-- No allowed request changes a directory. -/
theorem directory_kept (h : c.Allowed A) {p : AbsPath} (hp : kindOf A p = some true) :
    kindOf (effect A c) p = some true := by
  rwa [kindOf, c.footprint.outside A p fun hmem => kindOf_changed h hmem hp]

/-- A client asks and sees nothing of the map but what it would alone. -/
theorem answer_congr (hpaths : ∀ p ∈ c.request.paths, A p = B p) (hdirs : ∀ p, kindOf B p = some true → A p = B p)
    (ha : c.Allowed B) : c.Allowed A ∧ c.reply A = c.reply B := by
  obtain ⟨ctx, request⟩ := c
  cases request with
  | change op =>
    refine ⟨Operation.guardOn_congr (fun q hq => ?_) (fun q _ hq => ?_) ha, rfl⟩
    · rw [kindOf, kindOf, hpaths q hq]
    · rwa [kindOf, hdirs q hq]
  | getattr p st =>
    have hp := hpaths p (List.mem_singleton_self p)
    exact ⟨trivial, by simp only [reply, hp]⟩
  | rmdir | stub => exact ⟨trivial, rfl⟩

theorem seenFrom_own (hc : KeepsTo base region c) (h : SeenFrom base region A B) (ha : c.Allowed B) :
    c.Allowed A ∧ c.reply A = c.reply B ∧ SeenFrom base region (effect A c) (effect B c) := by
  have hpaths : ∀ p ∈ c.request.paths, A p = B p := fun p hp => h.same p ((hc p hp).imp_right (h.directories p))
  obtain ⟨hallowed, hreply⟩ := answer_congr hpaths (fun p hp => h.same p (.inr hp)) ha
  refine ⟨hallowed, hreply, fun p hp => ?_, fun p hp => directory_kept ha (h.directories p hp)⟩
  by_cases hmem : p ∈ c.request.changed
  · exact c.footprint.inside A B (fun q hq => hpaths q (c.changed_subset q hq)) p hmem
  · rw [kindOf, c.footprint.outside B p hmem] at hp
    rw [c.footprint.outside A p hmem, c.footprint.outside B p hmem]
    exact h.same p hp

theorem seenFrom_other (hdisj : ∀ p ∈ other, p ∉ region) (hc : KeepsTo base other c) (h : SeenFrom base region A B)
    (ha : c.Allowed A) : SeenFrom base region (effect A c) B := by
  refine ⟨fun p hp => ?_, h.directories⟩
  have hsame := h.same p hp
  have hfile : p ∈ c.request.changed → kindOf B p ≠ some true := by
    intro hmem
    rw [kindOf, ← hsame]
    exact kindOf_changed ha hmem
  rw [c.footprint.outside A p, hsame]
  intro hmem
  rcases hc p (c.changed_subset p hmem) with hother | hbase
  · exact hdisj p hother (hp.resolve_right (hfile hmem))
  · exact hfile hmem (h.directories p hbase)

/-- Allowed requests keep what they do not name, and directories that they do. -/
theorem answerAll_apart {calls : List MapCall} (hall : mapService.AllAllowed calls A) {p : AbsPath}
    (hp : ∀ c ∈ calls, p ∈ c.request.paths → kindOf A p = some true) : (mapService.answerAll calls A).2 p = A p := by
  induction calls generalizing A with
  | nil => rfl
  | cons c calls ih =>
    have hmem : p ∉ c.request.changed := fun hm =>
      kindOf_changed hall.1 hm (hp c List.mem_cons_self (c.changed_subset p hm))
    have hout : effect A c p = A p := c.footprint.outside A p hmem
    refine (ih hall.2 fun d hd hpd => ?_).trans hout
    have hkind := hp d (List.mem_cons_of_mem _ hd) hpd
    exact directory_kept hall.1 hkind

end MapCall

/-- Clients with disjoint regions are isolated. -/
def regionsIsolated (base : ObjectMap) {region : ι → Set AbsPath}
    (hdisj : ∀ i j, i ≠ j → ∀ p ∈ region i, p ∉ region j) :
    mapService.Isolation fun i c => KeepsTo base (region i) c where
  view i := SeenFrom base (region i)
  own hc h ha := MapCall.seenFrom_own hc h ha
  other hne hc h ha := MapCall.seenFrom_other (hdisj _ _ hne) hc h ha

/-- One client makes a file while the other writes to the first file of the constructor. Both look at the root. -/
def twoClients : List (Bool × MapCall) :=
  [(true, ⟨.plain, .getattr .root ⟨0, 0, 0, 0, 0, 0, 0⟩⟩), (false, ⟨.plain, .getattr .root ⟨0, 0, 0, 0, 0, 0, 0⟩⟩),
    (true, ⟨.plain, .change (.create notes 0o644)⟩), (false, ⟨.plain, .change (.write mgFile1 (text "X") 1 0)⟩),
    (true, ⟨.plain, .change (.write notes (text "hello") 5 0)⟩),
    (false, ⟨.plain, .getattr mgFile1 ⟨0, 0, 0, 0, 0, 0, 0⟩⟩)]

def twoRegions (i : Bool) : Set AbsPath := {p | p = if i then notes else mgFile1}

end MGFileSystem
