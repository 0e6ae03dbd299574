import Mathlib.Logic.Basic

/-!
# Stateful programs that can get stuck

A program transforms a state and delivers a value, or gets stuck: `StateT σ Option α`.
`Runs m s Q` says that `m` started in `s` does not get stuck and ends with a value and a
state that satisfy `Q`; `Ends m s Q` says so for the case that `m` does not get stuck;
`Keeps I m` says that no run of `m` leaves the property `I`, and `Gives I m Q` that it also
delivers a value that satisfies `Q`.  The rules below take a run apart
along the program.
-/

namespace Prog

universe u

variable {σ α β : Type u} {m : StateT σ Option α} {f : α → StateT σ Option β} {s : σ}

/-- The program that is stuck. -/
def stuck : StateT σ Option α := fun _ => none

/-- The program ends with a value and a state that satisfy the postcondition. -/
def Runs (m : StateT σ Option α) (s : σ) (Q : α → σ → Prop) : Prop :=
  ∃ a s', m s = some (a, s') ∧ Q a s'

lemma Runs.mono {P Q : α → σ → Prop} (h : Runs m s P) (hPQ : ∀ a s', P a s' → Q a s') :
    Runs m s Q := by
  obtain ⟨a, s', hm, hP⟩ := h
  exact ⟨a, s', hm, hPQ a s' hP⟩

lemma runs_pure {Q : α → σ → Prop} {a : α} (h : Q a s) :
    Runs (pure a : StateT σ Option α) s Q :=
  ⟨a, s, rfl, h⟩

lemma runs_pure_iff {Q : α → σ → Prop} {a : α} :
    Runs (pure a : StateT σ Option α) s Q ↔ Q a s := by
  constructor
  · rintro ⟨b, s', h, hQ⟩
    cases h
    exact hQ
  · exact runs_pure

lemma runs_and_left {p : Prop} {Q : α → σ → Prop} :
    Runs m s (fun a s' => p ∧ Q a s') ↔ p ∧ Runs m s Q := by
  constructor
  · rintro ⟨a, s', hm, hp, hQ⟩
    exact ⟨hp, a, s', hm, hQ⟩
  · rintro ⟨hp, h⟩
    exact h.mono fun _ _ hQ => ⟨hp, hQ⟩

/-- The postcondition of the first program is what the second one starts with. -/
lemma Runs.bind {P : α → σ → Prop} {Q : β → σ → Prop} (h : Runs m s P)
    (hf : ∀ a s', P a s' → Runs (f a) s' Q) : Runs (m >>= f) s Q := by
  obtain ⟨a, s', hm, hP⟩ := h
  obtain ⟨b, s'', hf', hQ⟩ := hf a s' hP
  refine ⟨b, s'', ?_, hQ⟩
  change (m s).bind (fun p => f p.1 p.2) = _
  rw [hm]
  exact hf'

lemma Runs.ite {c : Prop} [Decidable c] {m₁ m₂ : StateT σ Option α} {Q : α → σ → Prop}
    (h₁ : c → Runs m₁ s Q) (h₂ : ¬ c → Runs m₂ s Q) : Runs (if c then m₁ else m₂) s Q := by
  by_cases hc : c
  · rw [if_pos hc]
    exact h₁ hc
  · rw [if_neg hc]
    exact h₂ hc

/-- A run of a sequence is a run of its parts. -/
lemma bind_eq_some {r : β × σ} (h : (m >>= f) s = some r) :
    ∃ a s', m s = some (a, s') ∧ f a s' = some r := by
  change (m s).bind (fun p => f p.1 p.2) = some r at h
  obtain ⟨⟨a, s'⟩, hm, hf⟩ := Option.bind_eq_some_iff.mp h
  exact ⟨a, s', hm, hf⟩

lemma pure_eq_some {a : α} {r : α × σ} (h : (pure a : StateT σ Option α) s = some r) :
    r = (a, s) :=
  (Option.some.inj h).symm

lemma runs_bind_iff {Q : β → σ → Prop} :
    Runs (m >>= f) s Q ↔ Runs m s fun a s' => Runs (f a) s' Q := by
  constructor
  · rintro ⟨b, s'', hrun, hQ⟩
    obtain ⟨a, s', hm, hf⟩ := bind_eq_some hrun
    exact ⟨a, s', hm, b, s'', hf, hQ⟩
  · exact fun h => h.bind fun _ _ hf => hf

/-- A run has only one end. -/
lemma Runs.of_eq {Q : α → σ → Prop} (h : Runs m s Q) {a : α} {s' : σ}
    (hm : m s = some (a, s')) : Q a s' := by
  obtain ⟨b, s'', hm', hQ⟩ := h
  obtain ⟨rfl, rfl⟩ := Prod.mk.inj (Option.some.inj (hm.symm.trans hm'))
  exact hQ

/-! ## Programs that may be stuck -/

/-- If the program ends, then with a value and a state that satisfy the postcondition. -/
def Ends (m : StateT σ Option α) (s : σ) (Q : α → σ → Prop) : Prop :=
  ∀ a s', m s = some (a, s') → Q a s'

lemma Runs.ends {Q : α → σ → Prop} (h : Runs m s Q) : Ends m s Q := fun _ _ hm => h.of_eq hm

lemma Ends.mono {P Q : α → σ → Prop} (h : Ends m s P) (hPQ : ∀ a s', P a s' → Q a s') :
    Ends m s Q := fun a s' hm => hPQ a s' (h a s' hm)

lemma ends_pure {Q : α → σ → Prop} {a : α} (h : Q a s) :
    Ends (pure a : StateT σ Option α) s Q :=
  (runs_pure h).ends

lemma ends_stuck {Q : α → σ → Prop} : Ends (stuck : StateT σ Option α) s Q := by
  intro a s' h
  cases h

lemma Ends.bind {P : α → σ → Prop} {Q : β → σ → Prop} (h : Ends m s P)
    (hf : ∀ a s', P a s' → Ends (f a) s' Q) : Ends (m >>= f) s Q := by
  intro b s'' hb
  obtain ⟨a, s', hm, hf'⟩ := bind_eq_some hb
  exact hf a s' (h a s' hm) b s'' hf'

lemma Ends.ite {c : Prop} [Decidable c] {m₁ m₂ : StateT σ Option α} {Q : α → σ → Prop}
    (h₁ : c → Ends m₁ s Q) (h₂ : ¬ c → Ends m₂ s Q) : Ends (if c then m₁ else m₂) s Q := by
  by_cases hc : c
  · rw [if_pos hc]
    exact h₁ hc
  · rw [if_neg hc]
    exact h₂ hc

/-! ## Properties that a program keeps -/

/-- Every run of the program keeps the property of the state. -/
def Keeps (I : σ → Prop) (m : StateT σ Option α) : Prop :=
  ∀ s a s', I s → m s = some (a, s') → I s'

variable {I : σ → Prop}

lemma keeps_pure (a : α) : Keeps I (pure a : StateT σ Option α) := by
  intro s b s' hs h
  cases pure_eq_some h
  exact hs

lemma keeps_stuck : Keeps I (stuck : StateT σ Option α) := by
  intro s a s' _ h
  cases h

lemma Keeps.bind (hm : Keeps I m) (hf : ∀ a, Keeps I (f a)) : Keeps I (m >>= f) := by
  intro s b s'' hs h
  obtain ⟨a, s', hm', hf'⟩ := bind_eq_some h
  exact hf a s' b s'' (hm s a s' hs hm') hf'

lemma Keeps.ite {c : Prop} [Decidable c] {m₁ m₂ : StateT σ Option α} (h₁ : Keeps I m₁)
    (h₂ : Keeps I m₂) : Keeps I (if c then m₁ else m₂) := by
  split
  · exact h₁
  · exact h₂

/-- Every run of the program keeps the property of the state and gives a value that satisfies
the postcondition. -/
def Gives (I : σ → Prop) (m : StateT σ Option α) (Q : α → Prop) : Prop :=
  ∀ s, I s → Ends m s fun a s' => I s' ∧ Q a

lemma gives_pure {Q : α → Prop} {a : α} (h : Q a) :
    Gives I (pure a : StateT σ Option α) Q :=
  fun _ hs => ends_pure ⟨hs, h⟩

lemma gives_stuck {Q : α → Prop} : Gives I (stuck : StateT σ Option α) Q :=
  fun _ _ => ends_stuck

lemma Gives.bind {P : α → Prop} {Q : β → Prop} (h : Gives I m P)
    (hf : ∀ a, P a → Gives I (f a) Q) : Gives I (m >>= f) Q :=
  fun s hs => (h s hs).bind fun a s' ha => hf a ha.2 s' ha.1

lemma Gives.ite {c : Prop} [Decidable c] {m₁ m₂ : StateT σ Option α} {Q : α → Prop}
    (h₁ : c → Gives I m₁ Q) (h₂ : ¬ c → Gives I m₂ Q) : Gives I (if c then m₁ else m₂) Q :=
  fun s hs => Ends.ite (fun hc => h₁ hc s hs) fun hc => h₂ hc s hs

end Prog
