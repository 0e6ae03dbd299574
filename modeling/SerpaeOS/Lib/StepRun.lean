import Mathlib.Data.List.Basic

/-!
# Runs of a partial step function

A system that takes commands one after another is a step function
`step : σ → α → Option σ`; the value `none` is a step that does not return.
Two properties of a run are compared here: every state on the way satisfies a
property (`Always`), and every command meets a guard in the state in which it
is executed (`Guarded`).  With an inductive invariant that the guard keeps and
whose loss of the guard is visible at once, the two are the same.  `Throughout`
is the property of the states alone, for runs that may come to an end at a
command that does not return.
-/

namespace StepRun

variable {σ α : Type*} {step : σ → α → Option σ}

/-- The run of the commands from `s` returns after each of them, and every state on
the way, the first one included, satisfies `P`. -/
def Always (step : σ → α → Option σ) (P : σ → Prop) : σ → List α → Prop
  | s, [] => P s
  | s, a :: as => P s ∧ ∃ s', step s a = some s' ∧ Always step P s' as

/-- Every command of the run meets the guard `C` in the state it is executed in. -/
def Guarded (step : σ → α → Option σ) (C : σ → α → Prop) : σ → List α → Prop
  | _, [] => True
  | s, a :: as => C s a ∧ ∀ s', step s a = some s' → Guarded step C s' as

lemma guarded_true : ∀ {s : σ} {as : List α}, Guarded step (fun _ _ => True) s as
  | _, [] => trivial
  | _, _ :: _ => ⟨trivial, fun _ _ => guarded_true⟩

/-- A guard on the commands alone. -/
lemma guarded_of_forall {C : α → Prop} : ∀ {s : σ} {as : List α}, (∀ a ∈ as, C a) →
    Guarded step (fun _ a => C a) s as
  | _, [], _ => trivial
  | _, _ :: _, h => ⟨h _ List.mem_cons_self, fun _ _ =>
      guarded_of_forall fun a ha => h a (List.mem_cons_of_mem _ ha)⟩

/-- Two guards of a run. -/
lemma Guarded.and {C D : σ → α → Prop} : ∀ {s : σ} {as : List α}, Guarded step C s as →
    Guarded step D s as → Guarded step (fun s a => C s a ∧ D s a) s as
  | _, [], _, _ => trivial
  | _, _ :: _, hC, hD => ⟨⟨hC.1, hD.1⟩, fun s' hs => (hC.2 s' hs).and (hD.2 s' hs)⟩

/-- The first command of a run leads to one state only. -/
lemma Guarded.cons {C : σ → α → Prop} {s s' : σ} {a : α} {as : List α} (hstep : step s a = some s')
    (hC : C s a) (h : Guarded step C s' as) : Guarded step C s (a :: as) :=
  ⟨hC, fun _ hs => Option.some.inj (hstep.symm.trans hs) ▸ h⟩

lemma Always.head {P : σ → Prop} {s : σ} {as : List α} (h : Always step P s as) : P s := by
  cases as with
  | nil => exact h
  | cons a as => exact h.1

/-- A run that keeps a property ends in a state with it. -/
lemma Always.last {P : σ → Prop} {s : σ} {as : List α} (h : Always step P s as) :
    ∃ s', as.foldlM step s = some s' ∧ P s' := by
  induction as generalizing s with
  | nil => exact ⟨s, rfl, h⟩
  | cons a as ih =>
    obtain ⟨-, s₁, hstep, h'⟩ := h
    obtain ⟨s', hs', hP⟩ := ih h'
    exact ⟨s', by simp [hstep, hs'], hP⟩

/-- What a run keeps, the rest of it keeps. -/
lemma Always.of_append {P : σ → Prop} {s s' : σ} {as bs : List α}
    (h : Always step P s (as ++ bs)) (hrun : as.foldlM step s = some s') :
    Always step P s' bs := by
  induction as generalizing s with
  | nil =>
    cases hrun
    exact h
  | cons a as ih =>
    obtain ⟨-, s₁, hstep, h'⟩ := h
    rw [List.foldlM_cons, hstep] at hrun
    exact ih h' hrun

/-- The invariant rule for runs: a guard under which the invariant is inductive keeps
every consequence of the invariant along the run. -/
theorem always_of_guarded {I P : σ → Prop} {L C : σ → α → Prop} (hI : ∀ s, I s → P s)
    (hgood : ∀ s a, I s → L s a → C s a → ∃ s', step s a = some s' ∧ I s') :
    ∀ {s : σ} {as : List α}, I s → Guarded step L s as → Guarded step C s as →
      Always step P s as := by
  intro s as
  induction as generalizing s with
  | nil => exact fun hs _ _ => hI s hs
  | cons a as ih =>
    intro hs hl hc
    obtain ⟨s', hstep, hs'⟩ := hgood s a hs hl.1 hc.1
    exact ⟨hI s hs, s', hstep, ih hs' (hl.2 s' hstep) (hc.2 s' hstep)⟩

/-- A property that the run keeps in every state forces the guard at every command,
when the first command that misses the guard destroys the property. -/
theorem guarded_of_always {I P : σ → Prop} {L C : σ → α → Prop}
    (hgood : ∀ s a, I s → L s a → C s a → ∃ s', step s a = some s' ∧ I s')
    (hbad : ∀ s a s', I s → L s a → ¬ C s a → step s a = some s' → ¬ P s') :
    ∀ {s : σ} {as : List α}, I s → Guarded step L s as → Always step P s as →
      Guarded step C s as := by
  intro s as
  induction as generalizing s with
  | nil => exact fun _ _ _ => trivial
  | cons a as ih =>
    rintro hs hl ⟨-, s', hstep, halw⟩
    have hC : C s a := by
      by_contra hC
      exact hbad s a s' hs hl.1 hC hstep halw.head
    obtain ⟨s'', hstep', hs''⟩ := hgood s a hs hl.1 hC
    have hss : s' = s'' := Option.some.inj (hstep.symm.trans hstep')
    subst hss
    refine ⟨hC, fun t ht => ?_⟩
    have hts : s' = t := Option.some.inj (hstep.symm.trans ht)
    subst hts
    exact ih hs'' (hl.2 s' hstep) halw

/-- The guard is the exact condition for the property to hold along the whole run. -/
theorem always_iff_guarded {I P : σ → Prop} {L C : σ → α → Prop} (hI : ∀ s, I s → P s)
    (hgood : ∀ s a, I s → L s a → C s a → ∃ s', step s a = some s' ∧ I s')
    (hbad : ∀ s a s', I s → L s a → ¬ C s a → step s a = some s' → ¬ P s')
    {s : σ} {as : List α} (hs : I s) (hl : Guarded step L s as) :
    Always step P s as ↔ Guarded step C s as :=
  ⟨guarded_of_always hgood hbad hs hl, always_of_guarded hI hgood hs hl⟩

/-- A property of all states of a run, by the beginnings of the run. -/
lemma always_iff_prefix {P : σ → Prop} {s : σ} {as : List α} :
    Always step P s as ↔ ∀ bs, bs <+: as → ∃ s', bs.foldlM step s = some s' ∧ P s' := by
  induction as generalizing s with
  | nil => simp [Always]
  | cons a as ih =>
    constructor
    · rintro ⟨hs, s₁, hstep, h⟩ bs hbs
      cases bs with
      | nil => exact ⟨s, rfl, hs⟩
      | cons b bs =>
        obtain ⟨rfl, hrest⟩ := List.cons_prefix_cons.mp hbs
        obtain ⟨s', hrun, hP⟩ := ih.mp h bs hrest
        exact ⟨s', by simp [hstep, hrun], hP⟩
    · intro h
      obtain ⟨s₀, hnil, hs⟩ := h [] List.nil_prefix
      cases hnil
      have hfirst := h [a] (List.cons_prefix_cons.mpr ⟨rfl, List.nil_prefix⟩)
      obtain ⟨s₁, hstep, -⟩ : ∃ s₁, step s a = some s₁ ∧ P s₁ := by simpa using hfirst
      refine ⟨hs, s₁, hstep, ih.mpr fun bs hbs => ?_⟩
      simpa [hstep] using h (a :: bs) (List.cons_prefix_cons.mpr ⟨rfl, hbs⟩)

/-- A guard on a part of the state that makes steps of its own. -/
lemma guarded_map {τ : Type*} {step' : τ → α → Option τ} {C : τ → α → Prop} (f : σ → τ)
    (hstep : ∀ s a, step' (f s) a = (step s a).map f) {s : σ} {as : List α} :
    Guarded step' C (f s) as ↔ Guarded step (fun s a => C (f s) a) s as := by
  induction as generalizing s with
  | nil => exact Iff.rfl
  | cons a as ih =>
    refine and_congr_right fun _ => ?_
    simp only [hstep, Option.map_eq_some_iff, forall_exists_index, and_imp]
    constructor
    · exact fun h s' hs' => ih.mp (h (f s') s' hs' rfl)
    · rintro h _ s' hs' rfl
      exact ih.mpr (h s' hs')

/-! ## Runs that may end early -/

/-- Every state of the run satisfies `P`, as far as the commands return. -/
def Throughout (step : σ → α → Option σ) (P : σ → Prop) : σ → List α → Prop
  | s, [] => P s
  | s, a :: as => P s ∧ ∀ s', step s a = some s' → Throughout step P s' as

/-- The invariant rule for the states of a run. -/
theorem throughout_of_guarded {I P : σ → Prop} {L C : σ → α → Prop} (hI : ∀ s, I s → P s)
    (hgood : ∀ s a s', I s → L s a → C s a → step s a = some s' → I s') :
    ∀ {s : σ} {as : List α}, I s → Guarded step L s as → Guarded step C s as →
      Throughout step P s as := by
  intro s as
  induction as generalizing s with
  | nil => exact fun hs _ _ => hI s hs
  | cons a as ih =>
    intro hs hl hc
    refine ⟨hI s hs, fun s' hstep => ?_⟩
    exact ih (hgood s a s' hs hl.1 hc.1 hstep) (hl.2 s' hstep) (hc.2 s' hstep)

/-! ## Simulation -/

@[simp] lemma guarded_nil {C : σ → α → Prop} {s : σ} : Guarded step C s [] := trivial

@[simp] lemma guarded_some_cons {model : σ → α → σ} {C : σ → α → Prop} {s : σ} {a : α}
    {as : List α} : Guarded (fun s a => some (model s a)) C s (a :: as) ↔
      C s a ∧ Guarded (fun s a => some (model s a)) C (model s a) as :=
  and_congr_right fun _ => ⟨fun h => h _ rfl, fun h _ hs => Option.some.inj hs ▸ h⟩

/-- The simulation rule: a system whose steps return what the total steps of a model lead to runs
as the model does, as far as the model allows the commands. -/
theorem foldlM_simulates {τ : Type*} {R : σ → τ → Prop} {model : τ → α → τ} {L : τ → α → Prop}
    (h : ∀ s t a, R s t → L t a → ∃ s', step s a = some s' ∧ R s' (model t a)) :
    ∀ {s : σ} {t : τ} {as : List α}, R s t → Guarded (fun t a => some (model t a)) L t as →
      ∃ s', as.foldlM step s = some s' ∧ R s' (as.foldl model t) := by
  intro s t as
  induction as generalizing s t with
  | nil => exact fun hR _ => ⟨s, rfl, hR⟩
  | cons a as ih =>
    intro hR hlegal
    obtain ⟨s₁, hstep, hR₁⟩ := h s t a hR hlegal.1
    obtain ⟨s', hrun, hR'⟩ := ih hR₁ (hlegal.2 _ rfl)
    exact ⟨s', by simp [hstep, hrun], hR'⟩

end StepRun
