import ScriptMachine.Search

/-!
# What the search finds

Where the elements that lie above come last, the candidate is the last element before
them, and the first element when there is none before them.
-/

set_option autoImplicit false

namespace ScriptMachine.Search

/-- The candidate bounds the elements above: it is none of them, unless it is
the first, and all after it are. -/
theorem halve_spec {above : Nat → Bool} {n : Nat}
    (hmono : ∀ i j, i ≤ j → j < n → above i = true → above j = true) (fuel base size : Nat)
    (hfuel : size ≤ fuel) (hpos : 0 < size) (hin : base + size ≤ n)
    (hlow : 0 < base → above base = false)
    (hhigh : ∀ j, base + size ≤ j → j < n → above j = true) :
    halve above fuel base size < n ∧
      (0 < halve above fuel base size → above (halve above fuel base size) = false) ∧
      ∀ j, halve above fuel base size < j → j < n → above j = true := by
  induction fuel generalizing base size with
  | zero => omega
  | succ fuel ih =>
    unfold halve
    by_cases hs : size ≤ 1
    · rw [if_pos hs]
      exact ⟨by omega, hlow, fun j hj => hhigh j (by omega)⟩
    · rw [if_neg hs]
      simp only
      cases hm : above (base + size / 2) with
      | true =>
        rw [if_pos rfl]
        exact ih base (size - size / 2) (by omega) (by omega) (by omega) hlow
          fun j hj hn => hmono _ j (by omega) hn hm
      | false =>
        rw [if_neg (by simp)]
        exact ih (base + size / 2) (size - size / 2) (by omega) (by omega) (by omega)
          (fun _ => hm) fun j hj => hhigh j (by omega)

theorem lastNotAbove_spec {above : Nat → Bool} {n : Nat}
    (hmono : ∀ i j, i ≤ j → j < n → above i = true → above j = true) (hpos : 0 < n) :
    lastNotAbove above n < n ∧
      (0 < lastNotAbove above n → above (lastNotAbove above n) = false) ∧
      ∀ j, lastNotAbove above n < j → j < n → above j = true :=
  halve_spec hmono n 0 n (Nat.le_refl n) hpos (by omega) (fun h => absurd h (by omega))
    fun j hj hn => absurd hn (by omega)

/-- The elements above begin at a boundary. -/
theorem lastNotAbove_of_boundary {above : Nat → Bool} {n boundary : Nat} (hpos : 0 < n)
    (hle : boundary ≤ n) (habove : ∀ i < n, above i = decide (boundary ≤ i)) :
    lastNotAbove above n = boundary - 1 := by
  have hmono : ∀ i j, i ≤ j → j < n → above i = true → above j = true := by
    intro i j hij hj hi
    rw [habove i (by omega), decide_eq_true_eq] at hi
    rw [habove j hj, decide_eq_true_eq]
    omega
  obtain ⟨hlt, hlow, hhigh⟩ := lastNotAbove_spec hmono hpos
  generalize lastNotAbove above n = k at hlt hlow hhigh ⊢
  rw [habove k hlt, decide_eq_false_iff_not] at hlow
  -- the element before the boundary is not above, so it is not behind the candidate
  have hlast : ¬ k < boundary - 1 := fun hk => by
    have h := hhigh (boundary - 1) hk (by omega)
    rw [habove _ (by omega), decide_eq_true_eq] at h
    omega
  omega

end ScriptMachine.Search
