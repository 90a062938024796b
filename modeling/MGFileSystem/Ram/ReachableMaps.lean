import MGFileSystem.Foundations.FiniteMaps
import MGFileSystem.Ram.MountedMap

/-! Which maps the backend can come to hold: any finite tree of files and new directories below the two directories
of the constructor. -/
namespace MGFileSystem
open FilesystemData FiniteMaps

/-- A process has the same `getuid()` and `getgid()` in its constructor and in every call. -/
def processSystem (user group : UInt32) : GuardedSystem FilesystemData Call where
  initial s := ∃ ctx : CallContext, ctx.uid = user ∧ ctx.gid = group ∧ s = init ctx
  guard s c := c.ctx.uid = user ∧ c.ctx.gid = group ∧ ramSystem.guard s c
  step := ramSystem.step

theorem reachable_of_process {user group : UInt32} {s : FilesystemData} (h : (processSystem user group).Reachable s) :
    ramSystem.Reachable s := by
  induction h with
  | start hs =>
    obtain ⟨ctx, -, -, hs⟩ := hs
    exact .start ⟨ctx, hs⟩
  | next _ hg hstep ih => exact ih.next hg.2.2 hstep

/-- The object that `create_directory` makes. -/
def Object.newDirectory (access modification : Int) (user group : UInt32) : Object :=
  ⟨true, S_IFDIR ||| 0o775, [], access, modification, user, group⟩

/-- The paths of the constructor's directories. -/
def Built (p : AbsPath) : Prop := p = mgDir1 ∨ p = .root

instance : DecidablePred Built := fun p => inferInstanceAs (Decidable (p = mgDir1 ∨ p = .root))

/-- Nothing lies below the path. -/
def Leaf (A : ObjectMap) (p : AbsPath) : Prop := ∀ q, q ≠ .root → A q ≠ none → q.parent ≠ p

/-- A new directory of the process. -/
def Object.MadeBy (ctx : CallContext) (o : Object) : Prop :=
  ∃ access modification, o = .newDirectory access modification ctx.uid ctx.gid

/-- A finite tree that holds the constructor's directories for `ctx`, and else files and new directories. -/
structure GrownFrom (ctx : CallContext) (A : ObjectMap) : Prop where
  finite : (support A).Finite
  built : ∀ p, Built p → A p = (init ctx).objects p
  directories : ∀ p o, A p = some o → ¬ Built p → o.isDirectory → o.MadeBy ctx
  closed : ∀ p, p ≠ .root → A p ≠ none → kindOf A p.parent = some true

theorem AbsPath.length_parent_lt {p : AbsPath} (h : p ≠ .root) : p.parent.bytes.length < p.bytes.length := by
  obtain ⟨d, n, he, -, hne, -, hparent, -⟩ := AbsPath.split h
  have hpos := List.length_pos_iff.mpr hne
  rw [hparent, he]
  split
  next hd =>
    simpa [hd] using hpos
  next =>
    rw [List.length_append, List.length_cons]
    omega

theorem AbsPath.parent_ne {p : AbsPath} (h : p ≠ .root) : p.parent ≠ p := by
  intro he
  have hlt := length_parent_lt h
  rw [he] at hlt
  exact Nat.lt_irrefl _ hlt

theorem kindOf_ne_none {A : ObjectMap} {p : AbsPath} : A p ≠ none ↔ kindOf A p ≠ none := by
  rw [kindOf, ne_eq, ne_eq, Option.map_eq_none_iff]

theorem kindOf_init (ctx : CallContext) (p : AbsPath) : kindOf (init ctx).objects p =
    if p = mgFile1 then some false else if Built p then some true else none := by
  rw [(wellFormed_init ctx).kindOf_objects, filePaths_init, dirPaths_init]
  simp only [List.mem_cons, List.not_mem_nil, or_false, AbsPath.bytes_injective]
  rfl

namespace GrownFrom
variable {ctx : CallContext} {A : ObjectMap} (h : GrownFrom ctx A)
include h

theorem kind_built {p : AbsPath} (hp : Built p) : kindOf A p = some true := by
  have hne : p ≠ mgFile1 := by
    rcases hp with rfl | rfl <;> decide
  have hk := kindOf_init ctx p
  rw [if_neg hne, if_pos hp] at hk
  rwa [kindOf, h.built p hp]

/-- Only a directory has something below it. -/
theorem leaf {p : AbsPath} (hp : kindOf A p ≠ some true) : Leaf A p := by
  rintro q hq ha rfl
  exact hp (h.closed q hq ha)

/-- An object can be put, replaced or taken away where nothing lies below. -/
theorem update {p : AbsPath} (hb : ¬ Built p) (hl : Leaf A p) {v : Option Object}
    (hd : ∀ o, v = some o → o.isDirectory → o.MadeBy ctx)
    (hp : v ≠ none → kindOf A p.parent = some true) : GrownFrom ctx (Function.update A p v) where
  finite := finite_update h.finite p v
  built q hq := by
    have hne : q ≠ p := by
      rintro rfl
      exact hb hq
    rw [Function.update_of_ne hne, h.built q hq]
  directories q o ho hq hdir := by
    by_cases he : q = p
    · rw [he, Function.update_self] at ho
      exact hd o ho hdir
    · rw [Function.update_of_ne he] at ho
      exact h.directories q o ho hq hdir
  closed q hq ha := by
    by_cases he : q = p
    · subst he
      rw [Function.update_self] at ha
      rw [kindOf, Function.update_of_ne (AbsPath.parent_ne hq)]
      exact hp ha
    · rw [Function.update_of_ne he] at ha
      rw [kindOf, Function.update_of_ne (hl q hq ha)]
      exact h.closed q hq ha

theorem put {p : AbsPath} (hk : kindOf A p ≠ some true) {v : Option Object}
    (hd : ∀ o, v = some o → o.isDirectory → o.MadeBy ctx)
    (hp : v ≠ none → kindOf A p.parent = some true) : GrownFrom ctx (Function.update A p v) :=
  h.update (fun hb => hk (h.kind_built hb)) (h.leaf hk) hd hp

theorem exists_file {p : AbsPath} (hk : kindOf A p = some false) :
    ∃ o, A p = some o ∧ o.isDirectory = false ∧ kindOf A p ≠ some true ∧ kindOf A p.parent = some true := by
  obtain ⟨o, ho, hf⟩ := Option.map_eq_some_iff.mp hk
  have hne : kindOf A p ≠ some true := by
    rw [hk]
    decide
  refine ⟨o, ho, hf, hne, h.closed p ?_ ?_⟩
  · rintro rfl
    exact hne (h.kind_built (.inr rfl))
  · rw [ho]
    exact Option.some_ne_none o

/-- An allowed operation puts a file or a new directory where nothing lies below, or takes a file away. -/
theorem effect {ctx' : CallContext} (hu : ctx'.uid = ctx.uid) (hg : ctx'.gid = ctx.gid) {op : Operation}
    (ha : op.GuardOn A) : GrownFrom ctx (op.effect ctx' A) := by
  cases op with
  | create p mode =>
    obtain ⟨hp, hparent⟩ := ha
    refine h.put (by rw [hp]; decide) (fun o ho hd => ?_) (fun _ => hparent)
    obtain rfl := Option.some.inj ho
    cases hd
  | mkdir p mode =>
    obtain ⟨hp, hparent⟩ := ha
    refine h.put (by rw [hp]; decide) (fun o ho _ => ⟨ctx'.time 0, ctx'.time 1, ?_⟩) (fun _ => hparent)
    rw [← hu, ← hg]
    exact (Option.some.inj ho).symm
  | unlink p =>
    obtain ⟨-, -, -, hne, -⟩ := h.exists_file ha
    exact h.put hne (fun o ho => by cases ho) (fun hv => absurd rfl hv)
  | rename p q =>
    obtain ⟨hp, hne, hq, hparent⟩ := ha
    obtain ⟨o, ho, hf, hpd, -⟩ := h.exists_file hp
    have hgone := h.put hpd (v := none) (fun o ho => by cases ho) (fun hv => absurd rfl hv)
    have hother : ∀ r, kindOf A r = some true → kindOf (Function.update A p none) r = some true := by
      intro r hr
      have hrp : r ≠ p := by
        rintro rfl
        exact hpd hr
      rwa [kindOf, Function.update_of_ne hrp]
    refine hgone.put ?_ (fun o' ho' hd => ?_) (fun _ => hother _ hparent)
    · rw [kindOf, Function.update_of_ne hne.symm]
      exact hq
    · rw [ho, Option.some.injEq] at ho'
      rw [← ho', hf] at hd
      cases hd
  | write p | truncate p | chmod p | chown p | utimens p =>
    obtain ⟨o, ho, hf, hne, hparent⟩ := h.exists_file ha
    refine h.put hne (fun o' ho' hd => ?_) (fun _ => hparent)
    rw [ho] at ho'
    obtain rfl := Option.some.inj ho'
    rw [hf] at hd
    cases hd

end GrownFrom

theorem init_objects_ne_none {ctx : CallContext} {p : AbsPath} :
    (init ctx).objects p ≠ none ↔ p = mgFile1 ∨ Built p := by
  rw [kindOf_ne_none, kindOf_init]
  split
  next hf => simp [hf]
  next hf =>
    split
    next hb => simp [hb]
    next hb => simp [hf, hb]

theorem grownFrom_init (ctx : CallContext) : GrownFrom ctx (init ctx).objects where
  finite := (Set.toFinite {mgFile1, mgDir1, .root}).subset fun _ hp => init_objects_ne_none.mp hp
  built _ _ := rfl
  directories p o ho hb hd := by
    have hk := kindOf_init ctx p
    rw [kindOf, ho, Option.map_some, hd, if_neg hb] at hk
    split at hk <;> cases hk
  closed p hr hp := by
    have hroot : kindOf (init ctx).objects .root = some true := by
      rw [kindOf_init, if_neg (by decide), if_pos (.inr rfl)]
    have hparent : p.parent = .root := by
      rcases init_objects_ne_none.mp hp with rfl | rfl | rfl
      · exact AbsPath.ext (by decide)
      · exact AbsPath.ext (by decide)
      · exact absurd rfl hr
    rwa [hparent]

theorem grownFrom_of_reachable {user group : UInt32} {s : FilesystemData}
    (h : (processSystem user group).Reachable s) :
    ∃ ctx : CallContext, ctx.uid = user ∧ ctx.gid = group ∧ GrownFrom ctx s.objects := by
  induction h with
  | start hs =>
    obtain ⟨ctx, hu, hg, rfl⟩ := hs
    exact ⟨ctx, hu, hg, grownFrom_init ctx⟩
  | next hs hguard hstep ih =>
    obtain ⟨ctx, rfl, rfl, hgrown⟩ := ih
    obtain ⟨hu, hg, hguard⟩ := hguard
    have hw := wellFormed_of_reachable (reachable_of_process hs)
    obtain ⟨-, hobj⟩ := hw.of_step hguard hstep
    rw [hobj]
    exact ⟨ctx, rfl, rfl, hgrown.effect hu hg (hw.guard_iff.mp hguard)⟩

/-- Some state that the process can reach stands for the map. -/
def Attained (ctx : CallContext) (A : ObjectMap) : Prop :=
  ∃ s, (processSystem ctx.uid ctx.gid).Reachable s ∧ s.objects = A

namespace Attained
variable {ctx : CallContext} {A : ObjectMap}

theorem effect (h : Attained ctx A) (op : Operation) (ha : op.GuardOn A) (ctx' : CallContext)
    (hu : ctx'.uid = ctx.uid) (hgid : ctx'.gid = ctx.gid) : Attained ctx (op.effect ctx' A) := by
  obtain ⟨s, hs, rfl⟩ := h
  have hw := wellFormed_of_reachable (reachable_of_process hs)
  have hg : ramSystem.guard s ⟨ctx', op⟩ := hw.guard_iff.mpr ha
  obtain ⟨s', hstep, -, hobj⟩ := hw.step_guarded hg
  exact ⟨s', hs.next ⟨hu, hgid, hg⟩ hstep, hobj⟩

/-- An edit of the one file at a path. -/
theorem edit {p : AbsPath} {o : Object} (h : Attained ctx (Function.update A p (some o))) (hf : o.isDirectory = false)
    (op : Operation) {f : SimpleFile → SimpleFile} (he : op.edit = some (p, f)) {g : Object → Object}
    (hg : ∀ B, op.effect ctx B = Function.update B p ((B p).map g)) :
    Attained ctx (Function.update A p (some (g o))) := by
  have hk : kindOf (Function.update A p (some o)) p = some false := by
    rw [kindOf, Function.update_self, Option.map_some, hf]
  have ha : op.GuardOn (Function.update A p (some o)) := by
    cases op <;> cases he <;> exact hk
  have hnext := h.effect op ha ctx rfl rfl
  rwa [hg, Function.update_self, Function.update_idem, Option.map_some] at hnext

/-- Bytes are appended one at a time. A NUL comes as the filling before a byte that is cut off again. -/
theorem content {p : AbsPath} {o : Object} (hf : o.isDirectory = false)
    (h : Attained ctx (Function.update A p (some { o with content := [] }))) (c : Bytes) :
    Attained ctx (Function.update A p (some { o with content := c })) := by
  induction c using List.reverseRecOn with
  | nil => exact h
  | append_singleton c b ih =>
    by_cases hb : b = 0
    · have hwrite := ih.edit hf (.write p [1] 1 (c.length + 1)) rfl (fun _ => rfl)
      have hcut := hwrite.edit hf (.truncate p (c.length + 1)) rfl (fun _ => rfl)
      have hc : (Overlay.insert 0 c (c.length + 1) ((cStr [1]).take 1)).take (c.length + 1) = c ++ [b] := by
        have hle : c.length ≤ c.length + 1 := Nat.le_succ _
        rw [Overlay.insert_at_or_past_end 0 hle, List.take_left' (Overlay.length_fit 0 _ _),
          Overlay.fit_of_ge 0 hle, Nat.add_sub_cancel_left, hb]
        rfl
      dsimp only at hcut
      rwa [hc] at hcut
    · have hwrite := ih.edit hf (.write p [b] 1 c.length) rfl (fun _ => rfl)
      have hfree : cStr [b] = [b] := cStr_of_nul_free fun hm => hb (List.mem_singleton.mp hm).symm
      dsimp only at hwrite
      rwa [hfree, List.take_of_length_le (Nat.le_refl 1), Overlay.insert_at_end] at hwrite

/-- Any file can be made where its parent stands. -/
theorem addFile (h : Attained ctx A) {p : AbsPath} (hp : kindOf A p = none) (hparent : kindOf A p.parent = some true)
    {o : Object} (hf : o.isDirectory = false) : Attained ctx (Function.update A p (some o)) := by
  have hnew := h.effect (.create p o.mode) ⟨hp, hparent⟩ ctx rfl rfl
  have howned := hnew.edit rfl (.chown p o.user o.group) rfl (fun _ => rfl)
  have htimed := howned.edit rfl (.utimens p ⟨o.lastAccessTime, 0⟩ ⟨o.lastModificationTime, 0⟩) rfl
    (fun _ => rfl)
  obtain ⟨isDirectory, mode, c, access, modification, user, group⟩ := o
  obtain rfl : isDirectory = false := hf
  exact content (o := ⟨false, mode, c, access, modification, user, group⟩) rfl htimed c

theorem addDirectory (h : Attained ctx A) {p : AbsPath} (hp : kindOf A p = none)
    (hparent : kindOf A p.parent = some true) {o : Object} (ho : o.MadeBy ctx) :
    Attained ctx (Function.update A p (some o)) := by
  obtain ⟨access, modification, rfl⟩ := ho
  let clock : Nat → Int := fun i => if i = 0 then access else modification
  exact h.effect (.mkdir p 0) ⟨hp, hparent⟩ { ctx with time := clock } rfl rfl

/-- The constructor's directories alone. -/
theorem bare (h : GrownFrom ctx A) (ha : ∀ p, A p ≠ none → Built p) : Attained ctx A := by
  have hstart : Attained ctx (init ctx).objects := ⟨init ctx, .start ⟨ctx, rfl, rfl, rfl⟩, rfl⟩
  have hfile : kindOf (init ctx).objects mgFile1 = some false := by rw [kindOf_init, if_pos rfl]
  have hgone := hstart.effect (.unlink mgFile1) hfile ctx rfl rfl
  have hbare : Function.update (init ctx).objects mgFile1 none = A := by
    funext p
    by_cases hb : Built p
    · have hne : p ≠ mgFile1 := by
        rcases hb with rfl | rfl <;> decide
      rw [Function.update_of_ne hne, h.built p hb]
    · rw [not_not.mp (mt (ha p) hb)]
      by_cases he : p = mgFile1
      · rw [he, Function.update_self]
      · rw [Function.update_of_ne he]
        exact not_not.mp (mt init_objects_ne_none.mp (not_or.mpr ⟨he, hb⟩))
  exact hbare ▸ hgone

end Attained

/-- A path below which nothing lies can be taken away, and put back. -/
theorem GrownFrom.attained_of_leaf {ctx : CallContext} {A : ObjectMap} (h : GrownFrom ctx A) {p : AbsPath} {o : Object}
    (hb : ¬ Built p) (hl : Leaf A p) (ho : A p = some o) :
    GrownFrom ctx (Function.update A p none) ∧ (Attained ctx (Function.update A p none) → Attained ctx A) := by
  refine ⟨h.update hb hl (fun o ho => by cases ho) (fun hv => absurd rfl hv), fun hrest => ?_⟩
  have hr : p ≠ .root := fun he => hb (.inr he)
  have hfree : kindOf (Function.update A p none) p = none := by
    rw [kindOf, Function.update_self, Option.map_none]
  have hparent : kindOf (Function.update A p none) p.parent = some true := by
    rw [kindOf, Function.update_of_ne (AbsPath.parent_ne hr)]
    exact h.closed p hr (by rw [ho]; exact Option.some_ne_none o)
  have hsame : Function.update (Function.update A p none) p (some o) = A := by
    rw [Function.update_idem, ← ho, Function.update_eq_self]
  rw [← hsame]
  cases hd : o.isDirectory with
  | false => exact hrest.addFile hfree hparent hd
  | true => exact hrest.addDirectory hfree hparent (h.directories p o ho hb hd)

/-- Paths are added shortest first, so that each finds its parent. -/
theorem GrownFrom.attained {ctx : CallContext} {A : ObjectMap} (h : GrownFrom ctx A) : Attained ctx A := by
  refine induction_on_rank (fun p : AbsPath => p.bytes.length) Built (I := GrownFrom ctx)
    (fun A h ha => Attained.bare h ha) (fun A p o h hb ho hmax => ?_) h h.finite
  refine h.attained_of_leaf hb ?_ ho
  rintro q hq hqA rfl
  by_cases hqb : Built q
  · rcases hqb with rfl | rfl
    · exact hb (.inr (AbsPath.ext (by decide)))
    · exact hq rfl
  · exact absurd (hmax q hqA hqb) (Nat.not_le_of_lt (AbsPath.length_parent_lt hq))

/-- The maps of the states that a process reaches are the finite trees of files and new directories that keep the two
directories of its constructor. -/
theorem reachable_maps_iff {user group : UInt32} {A : ObjectMap} :
    (∃ s, (processSystem user group).Reachable s ∧ s.objects = A) ↔
      ∃ ctx : CallContext, ctx.uid = user ∧ ctx.gid = group ∧ GrownFrom ctx A := by
  constructor
  · rintro ⟨s, hs, rfl⟩
    exact grownFrom_of_reachable hs
  · rintro ⟨ctx, rfl, rfl, h⟩
    exact h.attained

end MGFileSystem
