import Mathlib.Logic.Basic

/-! Two stateful programs that may fail, run side by side from related states. There is one rule for each form of
program, so a proof of relatedness follows the two texts. -/
namespace MGFileSystem
variable {ε σ τ α β γ δ : Type}

/-- Both return, with related values and states, or both fail alike, in related states. -/
def SameOutcome (Q : α → β → σ → τ → Prop) (X : σ → τ → Prop) :
    EStateM.Result ε σ α → EStateM.Result ε τ β → Prop
  | .ok a s, .ok b t => Q a b s t
  | .error e s, .error e' t => e = e' ∧ X s t
  | .ok _ _, .error _ _ => False
  | .error _ _, .ok _ _ => False

/-- From states related by `P` the programs end alike. -/
def Related (P : σ → τ → Prop) (m : EStateM ε σ α) (m' : EStateM ε τ β) (Q : α → β → σ → τ → Prop)
    (X : σ → τ → Prop) : Prop :=
  ∀ s t, P s t → SameOutcome Q X (m.run s) (m'.run t)

namespace Related
variable {P P' X : σ → τ → Prop} {Q Q' : α → β → σ → τ → Prop} {T : γ → δ → σ → τ → Prop}
  {m : EStateM ε σ α} {m' : EStateM ε τ β}

theorem pure {a : α} {b : β} (h : ∀ s t, P s t → Q a b s t) :
    Related (ε := ε) P (pure a) (pure b) Q X := h

theorem throw (e : ε) (h : ∀ s t, P s t → X s t) :
    Related P (throw e : EStateM ε σ α) (throw e : EStateM ε τ β) Q X := fun s t hP => ⟨rfl, h s t hP⟩

theorem modifyGet {f : σ → α × σ} {g : τ → β × τ} (h : ∀ s t, P s t → Q (f s).1 (g t).1 (f s).2 (g t).2) :
    Related (ε := ε) P (modifyGet f) (modifyGet g) Q X := h

theorem modify {f : σ → σ} {g : τ → τ} {Q : PUnit → PUnit → σ → τ → Prop} (h : ∀ s t, P s t → Q ⟨⟩ ⟨⟩ (f s) (g t)) :
    Related (ε := ε) P (modify f) (modify g) Q X := h

theorem bind {R : γ → δ → σ → τ → Prop} {f : α → EStateM ε σ γ} {f' : β → EStateM ε τ δ}
    (h : Related P m m' Q X) (hf : ∀ a b, Related (Q a b) (f a) (f' b) R X) :
    Related P (m >>= f) (m' >>= f') R X := by
  intro s t hP
  have hm := h s t hP
  rw [EStateM.run_bind, EStateM.run_bind]
  cases hs : m.run s with
  | ok a s' =>
    cases ht : m'.run t with
    | ok b t' =>
      rw [hs, ht] at hm
      exact hf a b s' t' hm
    | error =>
      rw [hs, ht] at hm
      exact hm.elim
  | error e s' =>
    cases ht : m'.run t with
    | ok =>
      rw [hs, ht] at hm
      exact hm.elim
    | error e' t' =>
      rw [hs, ht] at hm
      exact hm

/-- The rule for values that are equal on both sides. -/
theorem bindSame {m' : EStateM ε τ α} {Q : α → σ → τ → Prop} {R : γ → δ → σ → τ → Prop} {f : α → EStateM ε σ γ}
    {f' : α → EStateM ε τ δ} (h : Related P m m' (fun a b s t => a = b ∧ Q a s t) X)
    (hf : ∀ a, Related (Q a) (f a) (f' a) R X) :
    Related P (m >>= f) (m' >>= f') R X := by
  apply h.bind
  intro a b s t hab
  obtain ⟨rfl, hQ⟩ := hab
  exact hf a s t hQ

theorem conseq (h : Related P m m' Q X) (hP : ∀ s t, P' s t → P s t) (hQ : ∀ a b s t, Q a b s t → Q' a b s t) :
    Related P' m m' Q' X := by
  intro s t hst
  have hm := h s t (hP s t hst)
  cases hs : m.run s <;> cases ht : m'.run t <;> rw [hs, ht] at hm
  · exact hQ _ _ _ _ hm
  · exact hm
  · exact hm
  · exact hm

theorem map (h : Related P m m' Q X) {f : α → γ} {g : β → δ} (hQ : ∀ a b s t, Q a b s t → T (f a) (g b) s t) :
    Related P (f <$> m) (g <$> m') T X := by
  rw [← bind_pure_comp, ← bind_pure_comp]
  exact h.bind fun a b => pure fun s t => hQ a b s t

/-- A test that both programs decide alike. -/
theorem ite {c d : Prop} [Decidable c] [Decidable d] {n : EStateM ε σ α} {n' : EStateM ε τ β} (hcd : c ↔ d)
    (h : Related P m m' Q X) (hn : Related P n n' Q X) :
    Related P (if c then m else n) (if d then m' else n') Q X := by
  by_cases hc : c
  · rw [if_pos hc, if_pos (hcd.mp hc)]
    exact h
  · rw [if_neg hc, if_neg fun hd => hc (hcd.mpr hd)]
    exact hn

end Related

/-- The programs keep the relation and return the same value. -/
def Alike (R : σ → τ → Prop) (m : EStateM ε σ α) (m' : EStateM ε τ α) : Prop :=
  Related R m m' (fun a b s t => a = b ∧ R s t) R

namespace Alike
variable {R : σ → τ → Prop} {m : EStateM ε σ α} {m' : EStateM ε τ α}

theorem pure (a : α) : Alike (ε := ε) R (pure a) (pure a) := Related.pure fun _ _ h => ⟨rfl, h⟩

theorem throw (e : ε) : Alike R (throw e : EStateM ε σ α) (throw e) := Related.throw e fun _ _ h => h

theorem modify {f : σ → σ} {g : τ → τ} (h : ∀ s t, R s t → R (f s) (g t)) :
    Alike (ε := ε) R (modify f) (modify g) := Related.modify fun s t hR => ⟨rfl, h s t hR⟩

/-- What both programs read off their states. -/
theorem read {f : σ → α} {g : τ → α} (h : ∀ s t, R s t → f s = g t) :
    Alike (ε := ε) R (do return f (← get)) (do return g (← get)) := fun s t hR => ⟨h s t hR, hR⟩

theorem bind (h : Alike R m m') {f : α → EStateM ε σ γ} {f' : α → EStateM ε τ γ} (hf : ∀ a, Alike R (f a) (f' a)) :
    Alike R (m >>= f) (m' >>= f') := Related.bindSame h hf

theorem map (h : Alike R m m') (f : α → γ) : Alike R (f <$> m) (f <$> m') :=
  Related.map h fun _ _ _ _ hab => ⟨congrArg f hab.1, hab.2⟩

theorem mapM {f : γ → EStateM ε σ α} {f' : γ → EStateM ε τ α} (h : ∀ a, Alike R (f a) (f' a)) (l : List γ) :
    Alike R (l.mapM f) (l.mapM f') := by
  induction l with
  | nil => exact Alike.pure _
  | cons a l ih =>
    rw [List.mapM_cons, List.mapM_cons]
    exact (h a).bind fun _ => ih.bind fun _ => Alike.pure _

end Alike

end MGFileSystem
