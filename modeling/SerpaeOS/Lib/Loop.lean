import SerpaeOS.Lib.Prog

/-!
# Loops

The body of a loop goes on with another state or leaves with a result.  `Loop.run` is the result
of the loop from a state; it is `none` if the body is stuck in some round, or no round leaves.
`Prog.loop` is the same for a program, whose rounds also change the state of the program.
-/

/-- A loop, given by its body. -/
structure Loop (σ α : Type) where
  body : σ → Option (σ ⊕ α)

namespace Loop

variable {σ α : Type} {l : Loop σ α} {s s' : σ} {a : α}

/-- The result of the loop from a state. -/
def run (l : Loop σ α) (s : σ) : Option α :=
  match l.body s with
  | none => none
  | some (.inl s) => l |>.run s
  | some (.inr a) => some a
partial_fixpoint

lemma run_next (h : l.body s = some (.inl s')) : l.run s = l.run s' := by
  rw [run, h]

lemma run_leave (h : l.body s = some (.inr a)) : l.run s = some a := by
  rw [run, h]

/-- What holds when a round leaves, and is kept backwards along the rounds, holds of a run. -/
theorem run_induction {P : σ → α → Prop} (hleave : ∀ s a, l.body s = some (.inr a) → P s a)
    (hnext : ∀ s s' a, l.body s = some (.inl s') → P s' a → P s a)
    (h : l.run s = some a) : P s a := by
  refine run.partial_correctness l P ?_ s a h
  intro loop ih s a hrun
  rcases hbody : l.body s with _ | r
  · rw [hbody] at hrun
    cases hrun
  · rw [hbody] at hrun
    rcases r with s' | b
    · exact hnext s s' a hbody (ih s' a hrun)
    · obtain rfl : b = a := Option.some.inj hrun
      exact hleave s b hbody

end Loop

namespace Prog

variable {σ α β : Type}

/-- The loop of a program over a value that it carries along. -/
def loop (body : α → StateT σ Option (α ⊕ β)) (x : α) : StateT σ Option β := fun s =>
  Loop.run ⟨fun p => (body p.1 p.2).map fun r => r.1.map (·, r.2) (·, r.2)⟩ (x, s)

lemma loop_eq (body : α → StateT σ Option (α ⊕ β)) (x : α) :
    loop body x = body x >>= fun r => r.elim (loop body) pure := by
  funext s
  change _ = (body x s).bind fun p => p.1.elim (loop body) pure p.2
  rw [loop, Loop.run]
  dsimp only
  rcases body x s with _ | ⟨y | b, s'⟩
  · rfl
  · rfl
  · rfl

lemma loop_next {body : α → StateT σ Option (α ⊕ β)} {x y : α} {s s' : σ}
    (h : body x s = some (.inl y, s')) : loop body x s = loop body y s' :=
  Loop.run_next (by dsimp only; rw [h]; rfl)

lemma loop_leave {body : α → StateT σ Option (α ⊕ β)} {x : α} {b : β} {s s' : σ}
    (h : body x s = some (.inr b, s')) : loop body x s = some (b, s') :=
  Loop.run_leave (by dsimp only; rw [h]; rfl)

/-- What every round keeps, and what gives the postcondition when a round leaves. -/
theorem Ends.loop {I : α → σ → Prop} {Q : β → σ → Prop} {body : α → StateT σ Option (α ⊕ β)}
    (hbody : ∀ x s, I x s → Ends (body x) s fun r s' => r.elim (I · s') (Q · s')) {x : α} {s : σ}
    (h : I x s) : Ends (loop body x) s Q := by
  intro b s' hrun
  refine Loop.run_induction (P := fun p r => I p.1 p.2 → Q r.1 r.2) ?_ ?_ hrun h
  · rintro ⟨x, s⟩ ⟨b, s'⟩ hround hI
    obtain ⟨⟨r, t⟩, hr, hp⟩ := Option.map_eq_some_iff.mp hround
    have hend := hbody x s hI r t hr
    rcases r with y | c
    · cases hp
    · cases hp
      exact hend
  · rintro ⟨x, s⟩ ⟨y, t⟩ ⟨b, s'⟩ hround hP hI
    obtain ⟨⟨r, t'⟩, hr, hp⟩ := Option.map_eq_some_iff.mp hround
    have hnext := hbody x s hI r t' hr
    rcases r with z | c
    · cases hp
      exact hP hnext
    · cases hp

end Prog
