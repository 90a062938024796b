import Mathlib.Data.List.Basic
import Mathlib.Logic.Function.Basic

/-! A service that answers requests one at a time, and clients that share it. A client that keeps to itself is answered
as if it were alone, in every interleaving. -/
namespace MGFileSystem
variable {σ γ ρ ι : Type*}

/-- What a request needs of the state, what it is answered, and what it makes of the state. -/
structure Service (σ γ ρ : Type*) where
  allowed : σ → γ → Prop
  reply : σ → γ → ρ
  next : σ → γ → σ

namespace Service
variable (M : Service σ γ ρ)

/-- The replies to a run of requests, and the state after it. -/
def answerAll : List γ → σ → List ρ × σ
  | [], s => ([], s)
  | c :: calls, s => (M.reply s c :: (answerAll calls (M.next s c)).1, (answerAll calls (M.next s c)).2)

/-- Every request is allowed when its turn comes. -/
def AllAllowed : List γ → σ → Prop
  | [], _ => True
  | c :: calls, s => M.allowed s c ∧ AllAllowed calls (M.next s c)

variable {M} [DecidableEq ι]

/-- The requests of one client, in their order. -/
def own (i : ι) (calls : List (ι × γ)) : List γ := (calls.filter fun c => c.1 = i).map Prod.snd

/-- The replies to one client. -/
def ownReplies (i : ι) (calls : List (ι × γ)) (replies : List ρ) : List ρ :=
  ((calls.zip replies).filter fun c => c.1.1 = i).map Prod.snd

theorem own_cons_self (i : ι) (c : γ) (calls : List (ι × γ)) : own i ((i, c) :: calls) = c :: own i calls := by
  rw [own, List.filter_cons_of_pos (by simp)]
  rfl

theorem own_cons_of_ne {i j : ι} (h : j ≠ i) (c : γ) (calls : List (ι × γ)) :
    own i ((j, c) :: calls) = own i calls := by
  rw [own, List.filter_cons_of_neg (by simp [h])]
  rfl

theorem ownReplies_cons_self (i : ι) (c : γ) (calls : List (ι × γ)) (r : ρ) (replies : List ρ) :
    ownReplies i ((i, c) :: calls) (r :: replies) = r :: ownReplies i calls replies := by
  rw [ownReplies, List.zip_cons_cons, List.filter_cons_of_pos (by simp)]
  rfl

theorem ownReplies_cons_of_ne {i j : ι} (h : j ≠ i) (c : γ) (calls : List (ι × γ)) (r : ρ) (replies : List ρ) :
    ownReplies i ((j, c) :: calls) (r :: replies) = ownReplies i calls replies := by
  rw [ownReplies, List.zip_cons_cons, List.filter_cons_of_neg (by simp [h])]
  rfl

/-- Clients that keep to themselves: `view i` relates the shared state to the one that client `i` would have alone. -/
structure Isolation (M : Service σ γ ρ) (asks : ι → γ → Prop) where
  view : ι → σ → σ → Prop
  own {i : ι} {c : γ} {s t : σ} : asks i c → view i s t → M.allowed t c →
    M.allowed s c ∧ M.reply s c = M.reply t c ∧ view i (M.next s c) (M.next t c)
  other {i j : ι} {c : γ} {s t : σ} : j ≠ i → asks j c → view i s t → M.allowed s c → view i (M.next s c) t

/-- Whatever is allowed to each client alone is allowed in every interleaving, with the same replies. -/
theorem Isolation.answerAll {asks : ι → γ → Prop} (I : M.Isolation asks) {calls : List (ι × γ)} {s : σ} {t : ι → σ}
    (hasks : ∀ c ∈ calls, asks c.1 c.2) (hview : ∀ i, I.view i s (t i))
    (hown : ∀ i, M.AllAllowed (Service.own i calls) (t i)) :
    M.AllAllowed (calls.map Prod.snd) s ∧
      ∀ i, ownReplies i calls (M.answerAll (calls.map Prod.snd) s).1 = (M.answerAll (Service.own i calls) (t i)).1 ∧
        I.view i (M.answerAll (calls.map Prod.snd) s).2 (M.answerAll (Service.own i calls) (t i)).2 := by
  induction calls generalizing s t with
  | nil => exact ⟨trivial, fun i => ⟨rfl, hview i⟩⟩
  | cons call calls ih =>
    obtain ⟨j, c⟩ := call
    have hask : asks j c := hasks _ List.mem_cons_self
    have hj := hown j
    rw [own_cons_self] at hj
    obtain ⟨hallowed, hreply, hself⟩ := I.own hask (hview j) hj.1
    have hview' : ∀ i, I.view i (M.next s c) (Function.update t j (M.next (t j) c) i) := by
      intro i
      rcases eq_or_ne j i with rfl | hne
      · rwa [Function.update_self]
      · rw [Function.update_of_ne hne.symm]
        exact I.other hne hask (hview i) hallowed
    have hown' : ∀ i, M.AllAllowed (Service.own i calls) (Function.update t j (M.next (t j) c) i) := by
      intro i
      rcases eq_or_ne j i with rfl | hne
      · rw [Function.update_self]
        exact hj.2
      · rw [Function.update_of_ne hne.symm, ← own_cons_of_ne hne c]
        exact hown i
    obtain ⟨hrest, hclients⟩ := ih (fun d hd => hasks d (List.mem_cons_of_mem _ hd)) hview' hown'
    refine ⟨⟨hallowed, hrest⟩, fun i => ?_⟩
    have hi := hclients i
    rw [List.map_cons, Service.answerAll]
    rcases eq_or_ne j i with rfl | hne
    · rw [Function.update_self] at hi
      rw [own_cons_self, Service.answerAll, ownReplies_cons_self, hi.1, hreply]
      exact ⟨rfl, hi.2⟩
    · rw [Function.update_of_ne hne.symm] at hi
      rw [own_cons_of_ne hne, ownReplies_cons_of_ne hne]
      exact hi

end Service
end MGFileSystem
