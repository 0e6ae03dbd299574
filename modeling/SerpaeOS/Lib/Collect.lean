import Mathlib.Data.List.Basic
import Mathlib.Tactic.Common

/-!
# Registers that change while they are read

A device shows a value in each of its registers at each access to it.  A pass reads registers one
after the other, so the values need not have stood there together.  If two passes read the same
values, and no register came back to a value that it had left, then they did: at every access
from the last one of the first pass to the first one of the second.
-/

namespace Collect

variable {ρ ν : Type*} {device : ℕ → ρ → ν} {r : ρ} {rs : List ρ} {k l m n : ℕ}

/-- What a pass over the registers reads from an access on. -/
def readPass (device : ℕ → ρ → ν) : List ρ → ℕ → List ν
  | [], _ => []
  | r :: rs, k => device k r :: readPass device rs (k + 1)

/-- Between the two accesses the register does not come back to a value that it has left. -/
def NoReturn (device : ℕ → ρ → ν) (r : ρ) (k n : ℕ) : Prop :=
  ∀ i j l, k ≤ i → i ≤ j → j ≤ l → l < n → device i r = device l r → device j r = device i r

lemma NoReturn.mono (h : NoReturn device r k n) (hk : k ≤ l) (hn : m ≤ n) :
    NoReturn device r l m := fun i j p hi hij hjp hp =>
  h i j p (Nat.le_trans hk hi) hij hjp (Nat.lt_of_lt_of_le hp hn)

/-- A pass over registers that do not change. -/
lemma readPass_of_same {value : ρ → ν}
    (h : ∀ i, k ≤ i → i < k + rs.length → ∀ r ∈ rs, device i r = value r) :
    readPass device rs k = rs.map value := by
  induction rs generalizing k with
  | nil => rfl
  | cons r rs ih =>
    rw [List.length_cons] at h
    have hr := h k (Nat.le_refl k) (by omega) r List.mem_cons_self
    have htail := ih (k := k + 1) fun i hki hi q hq =>
      h i (by omega) (by omega) q (List.mem_cons_of_mem r hq)
    rw [readPass, hr, htail, List.map_cons]

/-- Two passes that read the same have read what stands in the registers between them. -/
theorem readPass_eq_map (heq : readPass device rs k = readPass device rs l)
    (hkm : k + rs.length ≤ m + 1) (hml : m ≤ l)
    (hback : ∀ r ∈ rs, NoReturn device r k (l + rs.length)) :
    readPass device rs k = rs.map (device m) := by
  induction rs generalizing k l with
  | nil => rfl
  | cons r rs ih =>
    obtain ⟨hr, hrest⟩ := List.cons.inj heq
    rw [List.length_cons] at hkm hback
    have hnow : device m r = device k r :=
      hback r List.mem_cons_self k m l (Nat.le_refl k) (by omega) hml (by omega) hr
    have htail := ih hrest (by omega) (by omega) fun q hq =>
      (hback q (List.mem_cons_of_mem r hq)).mono (by omega) (by omega)
    rw [readPass, htail, List.map_cons, hnow]

end Collect
