import MGFileSystem.Backend.Dispatch
import MGFileSystem.Foundations.RelatedPrograms

/-! The counter behind the callbacks. It counts the calls that return, and no callback reads it, so the callbacks that
do nothing else can be left out of any run. -/
namespace MGFileSystem
variable {σ : Type} {B : CallContext → StorageBackend σ}

/-- Processes with the same backend, whatever they have counted. -/
def SameBackend (m n : Mounted σ) : Prop := m.backend = n.backend

namespace OpCounts
variable {P : Mounted σ → Mounted σ → Prop} {m n : Mounted σ}

theorem same_onBackend {α β : Type} (x : Method σ α) (f : α → β) :
    Related SameBackend (f <$> onBackend x) (f <$> onBackend x) (fun a b m n => a = b ∧ SameBackend m n)
      SameBackend := by
  intro m n h
  rw [Method.run_map, Method.run_map, run_onBackend, run_onBackend, show m.backend = n.backend from h]
  cases x.run n.backend with
  | ok a s => exact ⟨rfl, rfl⟩
  | error e s => exact ⟨rfl, rfl⟩

theorem same_counted (x : Method σ Int) :
    Related SameBackend (counted x) (counted x) (fun a b m n => a = b ∧ SameBackend m n) SameBackend := by
  intro m n h
  rw [run_counted, run_counted, show m.backend = n.backend from h]
  cases x.run n.backend with
  | ok code s => exact ⟨rfl, rfl⟩
  | error e s => exact ⟨rfl, rfl⟩

/-- No callback looks at the counter. -/
theorem same_serve (c : FuseCall) :
    Related SameBackend (c.serve B) (c.serve B) (fun a b m n => a = b ∧ SameBackend m n) SameBackend := by
  obtain ⟨ctx, r⟩ := c
  cases r with
  | getattr | readdir | read => exact same_onBackend _ _
  | write | chmod | chown | mkdir | rename | truncate | unlink | create | utimens | rmdir | stub =>
    exact same_counted _

/-- The numbers of `n` calls from `counter` on. -/
def numbers (counter : Int32) (n : Nat) : List Int32 := (List.range n).map fun i => counter + .ofNat i

theorem numbers_add (counter : Int32) (n k : Nat) :
    numbers counter (n + k) = numbers counter n ++ numbers (counter + .ofNat n) k := by
  rw [numbers, List.range_add, List.map_append, List.map_map]
  refine congrArg (numbers counter n ++ ·) (List.map_congr_left fun i _ => ?_)
  rw [Function.comp_apply, Int32.ofNat_add, Int32.add_assoc]

/-- As long as an `int` can hold them, they count on by ones. -/
theorem toInt_number {counter : Int32} {i : Nat} (h : counter.toInt + i < 2147483648) :
    (counter + .ofNat i).toInt = counter.toInt + i := by
  have hlow := counter.le_toInt
  have hi : i < 4294967296 := by omega
  have hsize : Int32.size = 2 ^ 32 := rfl
  rw [Int32.toInt_add, Int32.toInt_ofNat', hsize, Int.add_bmod_bmod, Int.bmod_eq_of_le (by omega) (by omega)]

theorem toInt_numbers {counter : Int32} {n : Nat} (h : counter.toInt + n < 2147483648) :
    (numbers counter n).map Int32.toInt = (List.range n).map fun i : Nat => counter.toInt + i := by
  rw [numbers, List.map_map]
  apply List.map_congr_left
  intro i hi
  have hlt := List.mem_range.mp hi
  exact toInt_number (by omega)

/-- How many of the calls count themselves. -/
def countedIn (served : List FuseCall) : Nat := served.countP fun c => decide c.request.Counted

/-- The calls that returned, and what they printed. -/
structure Printed (served : List FuseCall) (m m' : Mounted σ) : Prop where
  counter : m'.counter = m.counter + .ofNat (countedIn served)
  printed : m'.printed = (numbers m.counter (countedIn served)).reverse ++ m.printed

theorem Printed.nil (m : Mounted σ) : Printed [] m m := ⟨(Int32.add_zero _).symm, rfl⟩

theorem Printed.one {c : FuseCall} (h : c.request.Counted) {m m' : Mounted σ} (hcounter : m'.counter = m.counter + 1)
    (hprinted : m'.printed = m.counter :: m.printed) : Printed [c] m m' := by
  have hone : countedIn [c] = 1 := by simp [countedIn, h]
  constructor
  · rw [hone]
    exact hcounter
  · rw [hone, hprinted, numbers, List.range_one, List.map_singleton]
    exact congrArg (· :: m.printed) (Int32.add_zero _).symm

theorem Printed.silent {c : FuseCall} (h : ¬ c.request.Counted) {m m' : Mounted σ} (hcounter : m'.counter = m.counter)
    (hprinted : m'.printed = m.printed) : Printed [c] m m' := by
  have hnone : countedIn [c] = 0 := by simp [countedIn, h]
  constructor
  · rw [hnone, hcounter]
    exact (Int32.add_zero _).symm
  · rw [hnone]
    exact hprinted

theorem Printed.append {l l' : List FuseCall} {m m' m'' : Mounted σ} (h : Printed l m m') (h' : Printed l' m' m'') :
    Printed (l ++ l') m m'' := by
  have hsum : countedIn (l ++ l') = countedIn l + countedIn l' := List.countP_append
  constructor
  · rw [h'.counter, h.counter, hsum, Int32.ofNat_add, Int32.add_assoc]
  · rw [h'.printed, h.printed, h.counter, hsum, numbers_add, List.reverse_append, List.append_assoc]

/-- A call that returns prints its number, unless it is one of the three that do not count. -/
theorem printed_serve {c : FuseCall} {reply : Reply} {m m' : Mounted σ} (h : (c.serve B).run m = .ok reply m') :
    Printed [c] m m' := by
  have hquestion : ∀ {α : Type} {x : Method σ α} {f : α → Reply}, ¬ c.request.Counted →
      (f <$> onBackend x).run m = .ok reply m' → Printed [c] m m' := by
    intro α x f hc hrun
    rw [Method.run_map, run_onBackend] at hrun
    cases hx : x.run m.backend <;> rw [hx] at hrun <;> cases hrun
    exact .silent hc rfl rfl
  have hcounted : ∀ {x : Method σ Int}, c.request.Counted →
      (counted x).run m = .ok reply m' → Printed [c] m m' := by
    intro x hc hrun
    rw [run_counted] at hrun
    cases hx : x.run m.backend <;> rw [hx] at hrun <;> cases hrun
    exact .one hc rfl rfl
  obtain ⟨ctx, r⟩ := c
  cases r with
  | getattr | readdir | read => exact hquestion id h
  | write | chmod | chown | mkdir | rename | truncate | unlink | create | utimens | rmdir | stub =>
    exact hcounted trivial h

/-- A call that does not return has printed nothing. -/
theorem printed_error {c : FuseCall} {e : Fault} {m m' : Mounted σ} (h : (c.serve B).run m = .error e m') :
    Printed [] m m' := by
  have hquestion : ∀ {α : Type} {x : Method σ α} {f : α → Reply},
      (f <$> onBackend x).run m = .error e m' → Printed [] m m' := by
    intro α x f hrun
    rw [Method.run_map, run_onBackend] at hrun
    cases hx : x.run m.backend <;> rw [hx] at hrun <;> cases hrun
    exact ⟨(Int32.add_zero _).symm, rfl⟩
  have hcounted : ∀ {x : Method σ Int}, (counted x).run m = .error e m' → Printed [] m m' := by
    intro x hrun
    rw [run_counted] at hrun
    cases hx : x.run m.backend <;> rw [hx] at hrun <;> cases hrun
    exact ⟨(Int32.add_zero _).symm, rfl⟩
  obtain ⟨ctx, r⟩ := c
  cases r with
  | getattr | readdir | read => exact hquestion h
  | write | chmod | chown | mkdir | rename | truncate | unlink | create | utimens | rmdir | stub => exact hcounted h

end OpCounts
open OpCounts

/-- The run of a list of calls splits into those that returned, with what they printed, and the rest. -/
theorem exists_served (B : CallContext → StorageBackend σ) (calls : List FuseCall) (m : Mounted σ) :
    ∃ served rest, calls = served ++ rest ∧ Printed served m ((serveAll B calls).left m) ∧
      ((∃ replies m', (serveAll B calls).run m = .ok replies m') ↔ rest = []) := by
  induction calls generalizing m with
  | nil => exact ⟨[], [], rfl, .nil m, iff_of_true ⟨[], m, rfl⟩ rfl⟩
  | cons c calls ih =>
    cases hrun : (c.serve B).run m with
    | error e m' =>
      have hall : (serveAll B (c :: calls)).run m = .error e m' := by rw [run_serveAll_cons, hrun]
      refine ⟨[], c :: calls, rfl, ?_, iff_of_false ?_ (List.cons_ne_nil _ _)⟩
      · rw [Method.left, hall]
        exact printed_error hrun
      · rintro ⟨replies, m'', hok⟩
        rw [hall] at hok
        cases hok
    | ok reply m' =>
      obtain ⟨served, rest, hsplit, hprinted, hiff⟩ := ih m'
      have hleft : (serveAll B (c :: calls)).left m = (serveAll B calls).left m' := by
        rw [Method.left, Method.left, run_serveAll_cons, hrun]
        dsimp only
        cases (serveAll B calls).run m' <;> rfl
      refine ⟨c :: served, rest, congrArg (c :: ·) hsplit, ?_, ?_⟩
      · rw [hleft]
        exact (printed_serve hrun).append hprinted
      · rw [← hiff, run_serveAll_cons, hrun]
        dsimp only
        cases (serveAll B calls).run m' with
        | ok replies m'' => exact iff_of_true ⟨_, _, rfl⟩ ⟨_, _, rfl⟩
        | error e m'' => exact iff_of_false (by rintro ⟨_, _, h⟩; cases h) (by rintro ⟨_, _, h⟩; cases h)

/-- The replies to the requests that reach the backend. -/
def backendReplies (calls : List FuseCall) (replies : List Reply) : List Reply :=
  ((calls.zip replies).filter fun c => decide ¬ c.1.request.IsStub).map Prod.snd

/-- The stubs always return 0, and a run without them gets the same replies to its other requests, ends in the same
way and leaves the backend the same. -/
theorem stubs_change_nothing (B : CallContext → StorageBackend σ) (calls : List FuseCall) :
    Related SameBackend (serveAll B calls) (serveAll B (calls.filter fun c => decide ¬ c.request.IsStub))
      (fun replies replies' m n => backendReplies calls replies = replies' ∧
        (∀ c ∈ calls.zip replies, c.1.request.IsStub → c.2 = .code 0) ∧ SameBackend m n)
      SameBackend := by
  induction calls with
  | nil => exact Related.pure fun m n h => ⟨rfl, fun c hc => absurd hc List.not_mem_nil, h⟩
  | cons c calls ih =>
    by_cases hc : c.request.IsStub
    · intro m n h
      obtain ⟨ctx, r⟩ := c
      cases r with
      | stub callback =>
        have hfilter : ((⟨ctx, .stub callback⟩ : FuseCall) :: calls).filter (fun c => decide ¬ c.request.IsStub) =
            calls.filter fun c => decide ¬ c.request.IsStub := List.filter_cons_of_neg (by simp [hc])
        have hserve : (FuseCall.serve B ⟨ctx, .stub callback⟩).run m =
            .ok (.code 0) ⟨m.backend, m.counter + 1, m.counter :: m.printed⟩ := rfl
        have hrest := ih ⟨m.backend, m.counter + 1, m.counter :: m.printed⟩ n h
        rw [hfilter, run_serveAll_cons, hserve]
        dsimp only
        generalize (serveAll B calls).run _ = left at hrest
        generalize (serveAll B (calls.filter _)).run n = right at hrest
        cases left <;> cases right
        · obtain ⟨hreplies, hzero, hsame⟩ := hrest
          refine ⟨?_, ?_, hsame⟩
          · rw [backendReplies, List.zip_cons_cons, List.filter_cons_of_neg (by simp [hc])]
            exact hreplies
          · intro d hd hstub
            rcases List.mem_cons.mp hd with rfl | hd
            · rfl
            · exact hzero d hd hstub
        · exact hrest
        · exact hrest
        · exact hrest
      | _ => exact hc.elim
    · have hfilter : (c :: calls).filter (fun c => decide ¬ c.request.IsStub) =
          c :: calls.filter fun c => decide ¬ c.request.IsStub := List.filter_cons_of_pos (by simp [hc])
      rw [hfilter, serveAll, serveAll]
      apply (same_serve c).bind
      intro reply reply'
      by_cases hreply : reply = reply'
      · subst hreply
        apply (ih.conseq (fun m n h => h.2) fun _ _ _ _ => id).bind
        intro replies replies'
        apply Related.pure
        rintro m n ⟨hreplies, hzero, hsame⟩
        refine ⟨?_, ?_, hsame⟩
        · rw [backendReplies, List.zip_cons_cons, List.filter_cons_of_pos (by simp [hc]), List.map_cons]
          exact congrArg (reply :: ·) hreplies
        · intro d hd hstub
          rcases List.mem_cons.mp hd with rfl | hd
          · exact absurd hstub hc
          · exact hzero d hd hstub
      · exact fun m n h => absurd h.1 hreply

end MGFileSystem
