import SerpaeOS.Task.Invoke
import SerpaeOS.Task.Wake

/-!
# What a command stores in the screens

The attempts to load a program end with one switch, which stores over the screen of the process
that was shown and over the flag of another screen.  What is kept and lies off the screens before
the attempts is not stored over.
-/

namespace SerpaeOS

open Bytes Prog

variable {P T : Ptr → Prop} {s s' t : System} {p q n screen screen' host now : ℕ}
  {program filename : List UInt8} {l : List (List UInt8)}

/-- Structures off both screens are not stored over. -/
lemma System.switchStores_off (h : OffScreen screen q n) (h' : OffScreen screen' q n) :
    ∀ e ∈ s.switchStores screen screen', ¬ Overlap e.1 e.2.length q n := by
  have hpart : ∀ {x k : ℕ} {bytes : List UInt8}, OffScreen x q n → k + bytes.length ≤ screenSize →
      ¬ Overlap (x + k) bytes.length q n := fun hx hk => hx.part hk
  intro e he
  simp only [switchStores, List.mem_cons, List.not_mem_nil, or_false] at he
  rcases he with rfl | rfl | rfl | rfl | rfl
  · exact hpart h (by simp [screenSize])
  · exact hpart h (by simp [screenSize])
  · exact hpart h (by simp [screenSize])
  · exact hpart (k := 0) h (by simp [screenSize])
  · exact hpart (k := 0) h' (by simp [screenSize])

/-- A load that failed before does not matter. -/
lemma Repainted.undone (h : Repainted P t s' screen) (hundone : LoadUndone P T l s t)
    (hcurrent : P s.currentProcess) : Repainted P s s' screen := by
  have hscreen : ∀ x, P x → (t.process x).screen = (s.process x).screen := fun x hx => by
    rw [hundone.process_eq x hx]
  refine ⟨?_, h.shown.imp ?_ fun hoff q n hq => hoff q n (hq.mono hundone.clear)⟩
  · rw [h.stores_eq, hundone.display_eq.2, System.switchStores, hundone.display_eq.1,
      hundone.current_eq, hscreen _ hcurrent]
    rfl
  · rintro ⟨x, hx, hshown⟩
    exact ⟨x, hx, (hscreen x hx).symm.trans hshown⟩

/-- Structures that are kept and lie off the screens of these processes are not stored over. -/
lemma Repainted.off (h : Repainted P s s' screen) (hcurrent : P s.currentProcess)
    (hq : s.KeptWhole q n) (hoff : ∀ x, P x → OffScreen (s.process x).screen q n) :
    ∀ e ∈ s'.screenStores.drop s.screenStores.length, ¬ Overlap e.1 e.2.length q n := by
  rw [h.stores_eq, List.drop_left]
  refine System.switchStores_off (hoff _ hcurrent) ?_
  rcases h.shown with ⟨x, hx, rfl⟩ | hkept
  · exact hoff x hx
  · exact hkept q n hq

/-- One attempt fails, or the screens are repainted. -/
lemma LoadsSafe.ends_load_repainted (h : LoadsSafe P T l s) (hmem : filename ∈ l)
    (hhost : host = 0 ∨ P host) (hcurrent : P s.currentProcess) :
    Ends (processLoadSwitch filename now host) s fun r s' =>
      (r.1 < 0 ∧ LoadUndone P T l s s') ∨ (r.1 = 0 ∧ ∃ screen, Repainted P s s' screen) := by
  intro r s' hrun
  obtain ⟨t, hload, ⟨hneg, rfl⟩ | ⟨hzero, -, hshown⟩⟩ :=
    h.ends_processLoadSwitch hmem hhost hcurrent r s' hrun
  · exact Or.inl ⟨hneg, h.failed hmem r s' hload hneg⟩
  · exact Or.inr ⟨hzero, hshown⟩

lemma LoadsSafe.ends_runLocations_repainted (locations : List (List UInt8)) : ∀ {s : System},
    LoadsSafe P T l s → (∀ location ∈ locations, commandPath program location ∈ l) →
    (host = 0 ∨ P host) → P s.currentProcess →
    Ends (runLocations program now host locations) s fun r s' =>
      ∀ p, r = some p → ∃ screen, Repainted P s s' screen := by
  induction locations with
  | nil => exact fun _ _ _ _ => ends_pure fun p hp => by cases hp
  | cons location rest ih =>
    intro s h hmem hhost hcurrent
    obtain ⟨hhead, hrest⟩ := List.forall_mem_cons.mp hmem
    have hrun : Ends (run program location now host) s _ :=
      h.ends_load_repainted hhead hhost hcurrent
    refine hrun.bind fun r t ht => Ends.ite (fun hne => ?_) fun hzero => ?_
    · obtain ⟨-, hundone⟩ := ht.resolve_right fun hr => hne hr.1
      have hnext := ih hundone.safe hrest hhost (hundone.current_eq ▸ hcurrent)
      refine hnext.mono fun r' s' hr p hp => ?_
      obtain ⟨screen, hshown⟩ := hr p hp
      exact ⟨screen, hshown.undone hundone hcurrent⟩
    · obtain ⟨-, hshown⟩ := ht.resolve_left fun hr => by omega
      exact ends_pure fun _ _ => hshown

/-- The command that loads a program repaints the screens once. -/
lemma LoadsSafe.ends_loadCandidates_repainted {hosted : Bool}
    (h : LoadsSafe P T (commandLocations.map (commandPath program)) s)
    (hhost : hosted = true → P s.callingProcess) (hcurrent : P s.currentProcess) :
    Ends (loadCandidates hosted program now) s fun r s' =>
      ∀ p, r = some p → ∃ screen, Repainted P s s' screen := by
  have hruns : ∀ {t : System} {host : Ptr},
      LoadsSafe P T (commandLocations.map (commandPath program)) t → (host = 0 ∨ P host) →
      P t.currentProcess → Ends (runLocations program now host commandLocations) t fun r s' =>
        ∀ p, r = some p → ∃ screen, Repainted P t s' screen := fun ht hhost hcurrent =>
    ht.ends_runLocations_repainted commandLocations (fun _ => List.mem_map_of_mem) hhost hcurrent
  cases hosted with
  | false =>
    refine Ends.bind (P := fun host t => host = 0 ∧ t = s) (ends_pure ⟨rfl, rfl⟩) ?_
    rintro _ _ ⟨rfl, rfl⟩
    exact hruns h (Or.inl rfl) hcurrent
  | true =>
    refine Ends.bind (P := fun host t => host = s.callingProcess ∧
      t = s.setProcess s.callingProcess fun f => { f with currentlyHosting := true })
      (ends_getSystem_bind (ends_updateSystem_bind (ends_pure ⟨rfl, rfl⟩))) ?_
    rintro _ _ ⟨rfl, rfl⟩
    have hsafe : LoadsSafe P T (commandLocations.map (commandPath program))
        (s.setProcess s.callingProcess fun f => { f with currentlyHosting := true }) :=
      h.setProcess fun _ => rfl
    refine (hruns hsafe (Or.inr (hhost rfl)) hcurrent).mono fun r s' hr p hp => ?_
    obtain ⟨screen, hshown⟩ := hr p hp
    -- the flag of the caller is not part of what is stored
    have hscreen : ∀ x, ((s.setProcess s.callingProcess fun f =>
        { f with currentlyHosting := true }).process x).screen = (s.process x).screen := fun x =>
      System.setProcess_screen fun _ => rfl
    refine ⟨screen, ?_, hshown.shown.imp_left ?_⟩
    · rw [hshown.stores_eq, System.setProcess_currentProcess, hscreen]
      rfl
    · rintro ⟨x, hx, hx'⟩
      exact ⟨x, hx, (hscreen x).symm.trans hx'⟩

end SerpaeOS
