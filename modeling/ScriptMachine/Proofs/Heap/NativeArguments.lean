import Mathlib.Algebra.Group.Nat.Defs
import ScriptMachine.Heap.Native

/-!
# What a native accepts

A native is called with what the caller supplies and with defaults for what is missing.
The defaults are filled in from the first missing parameter on, the minimum it advertises
is found from the last parameter down; both come to the same.
-/

set_option autoImplicit false

namespace ScriptMachine

/-- So many values fit the rule of a native that needs at least `least` of them. -/
def Fits (params : Int64) (least : Int) (count : Nat) : Prop :=
  params = 0 ∨ (least ≤ count ∧ (params < 0 ∨ (count : Int) ≤ params.toInt))

namespace NativeObject

variable {n : NativeObject} {args out : List Value}

/-- The values are the supplied ones and behind them the defaults of the parameters that
were not supplied, in order. -/
def Completes (n : NativeObject) (args out : List Value) : Prop :=
  ∃ added : List Value, out = args ++ added ∧
    added.map some =
      (List.range' args.length (n.declared - args.length)).map fun (i : Nat) => n.defaults.lookup i

/-- Every position with a mask holds a value of a type that the mask has. -/
def Admits (masks : List Nat) (vs : List Value) : Prop :=
  ∀ (i : Nat) (mask : Nat) (v : Value),
    masks[i]? = some mask → vs[i]? = some v → mask &&& v.tag.base ≠ 0

/-! ## The minimum -/

/-- So many values suffice when every parameter behind them has a default. -/
theorem minArgs_go_le {declared count : Nat} :
    minArgs.go n declared ≤ count ↔
      ∀ i, count ≤ i → i < declared → (n.defaults.lookup i).isSome := by
  induction declared with
  | zero => simp [minArgs.go]
  | succ k ih =>
    by_cases hk : (n.defaults.lookup k).isSome
    · rw [minArgs.go, if_pos hk, ih]
      refine ⟨fun h i hi hlt => ?_, fun h i hi hlt => h i hi (Nat.lt_succ_of_lt hlt)⟩
      rcases Nat.lt_succ_iff_lt_or_eq.1 hlt with hlt | rfl
      · exact h i hi hlt
      · exact hk
    · rw [minArgs.go, if_neg hk]
      exact ⟨fun h i hi hlt => absurd (Nat.le_trans h hi) (Nat.not_le_of_lt hlt),
        fun h => Nat.lt_of_not_le fun hle => hk (h k hle (Nat.lt_succ_self k))⟩

theorem minArgs_le_declared : n.minArgs ≤ n.declared :=
  minArgs_go_le.2 fun _ hle hlt => absurd hlt (Nat.not_lt_of_le hle)

/-! ## Filling in defaults -/

/-- `added` is the run of defaults from position `first` on, at most `missing` of them. -/
structure Supplies (n : NativeObject) (first missing : Nat) (added : List Value) : Prop where
  short : added.length ≤ missing
  values : added.map some =
    (List.range' first added.length).map fun (i : Nat) => n.defaults.lookup i
  stop : added.length < missing → n.defaults.lookup (first + added.length) = none

theorem fill_supplies (missing : Nat) (args : List Value) :
    ∃ added, n.fill missing args = args ++ added ∧ n.Supplies args.length missing added := by
  induction missing generalizing args with
  | zero =>
    exact ⟨[], (List.append_nil _).symm, Nat.le_refl 0, rfl, fun h => absurd h (Nat.lt_irrefl 0)⟩
  | succ missing ih =>
    cases hv : n.defaults.lookup args.length with
    | none => exact ⟨[], by simp [fill, hv], Nat.zero_le _, rfl, fun _ => hv⟩
    | some v =>
      obtain ⟨added, hfill, hshort, hvalues, hstop⟩ := ih (args ++ [v])
      rw [List.length_append, List.length_singleton] at hvalues hstop
      refine ⟨v :: added, by simp [fill, hv, hfill], Nat.succ_le_succ hshort, ?_, fun hlt => ?_⟩
      · rw [List.map_cons, hvalues, List.length_cons, List.range'_succ, List.map_cons, hv]
      · rw [List.length_cons] at hlt ⊢
        rw [← hstop (Nat.lt_of_succ_lt_succ hlt), Nat.add_assoc, Nat.add_comm 1]

namespace Supplies

variable {first missing : Nat} {added added' : List Value}

/-- Nothing stays missing exactly when every missing parameter has a default. -/
theorem complete_iff (h : n.Supplies first missing added) :
    added.length = missing ↔
      ∀ i, first ≤ i → i < first + missing → (n.defaults.lookup i).isSome := by
  constructor
  · intro hlen i hi hlt
    have hin : i - first < added.length := by omega
    have hget := congrArg (fun (vs : List (Option Value)) => vs[i - first]?) h.values
    simp only [List.getElem?_map, List.getElem?_range' hin, List.getElem?_eq_getElem hin,
      Option.map_some, Option.some.injEq] at hget
    rw [show first + 1 * (i - first) = i by omega] at hget
    rw [← hget]
    rfl
  · intro hall
    refine Nat.le_antisymm h.short (Nat.le_of_not_lt fun hlt => ?_)
    have hsome := hall (first + added.length) (Nat.le_add_right ..) (Nat.add_lt_add_left hlt _)
    rw [h.stop hlt] at hsome
    cases hsome

theorem eq_of_complete (h : n.Supplies first missing added) (h' : n.Supplies first missing added')
    (hlen : added.length = missing) : added = added' := by
  have hlen' : added'.length = missing := h'.complete_iff.2 (h.complete_iff.1 hlen)
  have hmap : added.map some = added'.map some := by rw [h.values, h'.values, hlen, hlen']
  exact List.map_inj_right (fun _ _ => Option.some.inj) |>.1 hmap

end Supplies

/-- Without a rule nothing is declared, and nothing is filled in. -/
theorem filled_eq_fill : n.filled args = n.fill (n.declared - args.length) args := by
  rw [filled]
  split
  · rename_i hzero
    simp [declared, hzero, fill]
  · rfl

/-- Filling in defaults supplies all that is declared exactly when the supplied values
reach the minimum. -/
theorem declared_le_filled : n.declared ≤ (n.filled args).length ↔ n.minArgs ≤ args.length := by
  obtain ⟨added, hfill, hadded⟩ := n.fill_supplies (n.declared - args.length) args
  have hshort := hadded.short
  have hcomplete := hadded.complete_iff
  rw [filled_eq_fill, hfill, List.length_append, minArgs, minArgs_go_le]
  constructor
  · intro hle i hi hlt
    exact hcomplete.1 (by omega) i hi (by omega)
  · intro hall
    have hlen := hcomplete.2 fun i hi hlt => hall i hi (by omega)
    omega

theorem filled_length_le : (n.filled args).length ≤ max args.length n.declared := by
  obtain ⟨added, hfill, hadded⟩ := n.fill_supplies (n.declared - args.length) args
  have hshort := hadded.short
  rw [filled_eq_fill, hfill, List.length_append]
  omega

theorem length_le_filled : args.length ≤ (n.filled args).length := by
  obtain ⟨added, hfill, -⟩ := n.fill_supplies (n.declared - args.length) args
  rw [filled_eq_fill, hfill, List.length_append]
  exact Nat.le_add_right ..

/-- The completed values are those that filling in comes to when it supplies all that is
declared. -/
theorem completes_iff : n.Completes args out ↔
    n.minArgs ≤ args.length ∧ out = n.filled args := by
  obtain ⟨added, hfill, hadded⟩ := n.fill_supplies (n.declared - args.length) args
  rw [← declared_le_filled, filled_eq_fill, hfill, List.length_append]
  constructor
  · rintro ⟨added', rfl, hvalues⟩
    have hlen : added'.length = n.declared - args.length := by
      simpa using congrArg List.length hvalues
    have hadded' : n.Supplies args.length (n.declared - args.length) added' :=
      ⟨Nat.le_of_eq hlen, by rw [hvalues, hlen], fun hlt => absurd hlen (Nat.ne_of_lt hlt)⟩
    obtain rfl := hadded'.eq_of_complete hadded hlen
    exact ⟨by omega, rfl⟩
  · rintro ⟨hle, rfl⟩
    have hshort := hadded.short
    refine ⟨added, rfl, ?_⟩
    rw [show n.declared - args.length = added.length by omega]
    exact hadded.values

/-! ## The checks -/

theorem declared_of_pos (h : 0 < n.params) : (n.declared : Int) = n.params.toInt := by
  have hpos : 0 < n.params.toInt := by simpa [Int64.lt_iff_toInt_lt] using h
  simp only [declared]
  omega

theorem params_cases (n : NativeObject) : n.params = 0 ∨ (0 < n.params ∧ ¬ n.params < 0) ∨
    (n.params < 0 ∧ ¬ 0 < n.params) := by
  have hzero : n.params = 0 ↔ n.params.toInt = 0 := by rw [← Int64.toInt_inj, Int64.toInt_zero]
  simp only [Int64.lt_iff_toInt_lt, Int64.toInt_zero, hzero]
  omega

theorem countAccepted_filled :
    n.countAccepted (n.filled args).length ↔ Fits n.params n.minArgs args.length := by
  have hmin : n.declared ≤ (n.filled args).length ↔ n.minArgs ≤ args.length := declared_le_filled
  have hhigh : (n.filled args).length ≤ max args.length n.declared := filled_length_le
  have hlow : args.length ≤ (n.filled args).length := length_le_filled
  rw [countAccepted, Fits]
  rcases n.params_cases with hzero | ⟨hpos, hneg⟩ | ⟨hneg, hpos⟩
  · simp [hzero]
  · have hne : n.params ≠ 0 := fun h => by simp [h] at hpos
    rw [if_neg hne, if_pos hpos, ← declared_of_pos hpos, beq_iff_eq]
    simp only [hne, hneg, false_or]
    omega
  · have hne : n.params ≠ 0 := fun h => by simp [h] at hneg
    rw [if_neg hne, if_neg hpos, decide_eq_true_iff, hmin]
    simp only [hne, hneg, false_or, true_or, and_true, Int.ofNat_le]

theorem minArgs_le_of_fits {count : Nat} (h : Fits n.params n.minArgs count) :
    n.minArgs ≤ count := by
  rcases h with hzero | ⟨hle, -⟩
  · have hdeclared : n.declared = 0 := by simp [declared, hzero]
    exact Nat.le_trans (hdeclared ▸ minArgs_le_declared) (Nat.zero_le count)
  · exact Int.ofNat_le.1 hle

theorem checkMask_ok {position : Nat} {masks : List Nat} {vs : List Value} :
    n.checkMask position masks vs = .ok () ↔ Admits masks vs := by
  induction masks generalizing position vs with
  | nil => simp [checkMask, Admits]
  | cons mask masks ih =>
    cases vs with
    | nil => simp [checkMask, Admits]
    | cons v vs =>
      by_cases hv : mask &&& v.tag.base = 0
      · rw [checkMask, if_pos hv]
        exact ⟨fun h => (by cases h), fun h => absurd hv (h 0 mask v rfl rfl)⟩
      · rw [checkMask, if_neg hv, ih]
        refine ⟨fun h i => ?_, fun h i => h (i + 1)⟩
        cases i with
        | zero =>
          rintro _ _ ⟨⟩ ⟨⟩
          exact hv
        | succ i => exact h i

theorem prepare_refused (h : ¬ n.countAccepted (n.filled args).length) :
    n.prepare args = .error (n.countError (n.filled args).length) := by
  rw [prepare, if_neg h]

theorem prepare_ok : n.prepare args = .ok out ↔
    n.countAccepted (n.filled args).length ∧ out = n.filled args ∧ Admits n.mask out := by
  by_cases hcount : n.countAccepted (n.filled args).length
  · simp only [prepare, hcount, true_and]
    cases hmask : n.checkMask 0 n.mask (n.filled args) with
    | ok u =>
      have hadmits := checkMask_ok.1 hmask
      constructor
      · rintro ⟨⟩
        exact ⟨rfl, hadmits⟩
      · rintro ⟨rfl, -⟩
        rfl
    | error e =>
      refine ⟨fun h => (by cases h), ?_⟩
      rintro ⟨rfl, hadmits⟩
      rw [checkMask_ok.2 hadmits] at hmask
      cases hmask
  · simp [prepare_refused hcount, hcount]

/-- The minimum as an integer is the minimum, but for one rule. -/
theorem toInt_minArgs
    (hlast : n.params = Int64.minValue → (n.defaults.lookup (2 ^ 63 - 1)).isSome) :
    (Int64.ofNat n.minArgs).toInt = n.minArgs := by
  refine Int64.toInt_ofNat_of_lt (Nat.lt_of_not_le fun hge => ?_)
  have hle := minArgs_le_declared (n := n)
  have hlow := n.params.le_toInt
  have hhigh := n.params.toInt_lt
  have hdeclared : n.declared = 2 ^ 63 := by
    simp only [declared] at hle ⊢
    omega
  have hmin : n.params = Int64.minValue := by
    rw [← Int64.toInt_inj, Int64.toInt_minValue]
    simp only [declared] at hdeclared
    omega
  have hless : n.minArgs ≤ 2 ^ 63 - 1 := minArgs_go_le.2 fun i hi hlt => by
    obtain rfl : i = 2 ^ 63 - 1 := by omega
    exact hlast hmin
  omega

/-- The minimum that a native advertises is the one that its check goes by, and what
passes the check is completed by the defaults. -/
theorem prepare_by_minimum (n : NativeObject) (h : Heap)
    (hlast : n.params = Int64.minValue → (n.defaults.lookup (2 ^ 63 - 1)).isSome)
    (args : List Value) :
    ∃ least : Int64, h.nativeAttribute n .minArgs = (.integer least, h) ∧
      (n.countAccepted (n.filled args).length ↔ Fits n.params least.toInt args.length) ∧
      (¬ Fits n.params least.toInt args.length →
        n.prepare args = .error (n.countError (n.filled args).length)) ∧
      ∀ out, n.prepare args = .ok out ↔
        Fits n.params least.toInt args.length ∧ n.Completes args out ∧ Admits n.mask out := by
  refine ⟨Int64.ofNat n.minArgs, rfl, ?_⟩
  rw [toInt_minArgs hlast]
  refine ⟨countAccepted_filled, fun hfits => ?_, fun out => ?_⟩
  · exact prepare_refused fun hcount => hfits (countAccepted_filled.1 hcount)
  · rw [prepare_ok, countAccepted_filled, completes_iff, and_assoc]
    exact and_congr_right fun hfits => (and_iff_right (minArgs_le_of_fits hfits)).symm

/-- Takes a receiver and two arguments, the last with a default. -/
def withDefault : NativeObject where
  name := ⟨⟨0⟩, "f"⟩
  docs := ⟨⟨0⟩, ""⟩
  behaviour _ := .finish .null
  params := 3
  mask := [TypeMask.any]
  defaults := [(2, .integer 9)]

theorem prepare_by_minimum_defaultAdded :
    (withDefault.params = Int64.minValue → (withDefault.defaults.lookup (2 ^ 63 - 1)).isSome) ∧
      withDefault.prepare [.null, .integer 1] = .ok [.null, .integer 1, .integer 9] := by
  have hlast : withDefault.params = Int64.minValue →
      (withDefault.defaults.lookup (2 ^ 63 - 1)).isSome := fun h => absurd h (by decide)
  obtain ⟨least, hleast, -, -, hprepare⟩ :=
    prepare_by_minimum withDefault {} hlast [.null, .integer 1]
  cases hleast
  refine ⟨hlast, (hprepare _).2 ⟨.inr (by decide), ⟨[.integer 9], rfl, rfl⟩, ?_⟩⟩
  rintro (_ | i) mask v hmask hv
  · cases hmask
    cases hv
    decide
  · cases hmask

/-- Needs as many values as no integer counts. -/
def boundless : NativeObject where
  name := ⟨⟨0⟩, "f"⟩
  docs := ⟨⟨0⟩, ""⟩
  behaviour _ := .finish .null
  params := Int64.minValue
  mask := []
  defaults := []

theorem minArgs_boundless : boundless.minArgs = 2 ^ 63 :=
  Nat.le_antisymm minArgs_le_declared <| Nat.le_of_not_lt fun hlt => by
    have hsome := minArgs_go_le.1 (Nat.le_refl boundless.minArgs) _ (Nat.le_refl _) hlt
    cases hsome

/-- The minimum comes out negative, one value is more than that, and it is refused. -/
theorem boundless_minimum_negative :
    (({} : Heap).nativeAttribute boundless .minArgs).1 = .integer Int64.minValue ∧
      Fits boundless.params Int64.minValue.toInt [Value.null].length ∧
      boundless.prepare [.null] = .error (boundless.countError 1) := by
  have hattribute : Int64.ofNat boundless.minArgs = Int64.minValue := by
    rw [minArgs_boundless]
    decide
  refine ⟨congrArg Value.integer hattribute, .inr (by decide), prepare_refused fun hcount => ?_⟩
  have hle := minArgs_le_of_fits (countAccepted_filled.1 hcount)
  rw [minArgs_boundless] at hle
  exact absurd hle (by decide)

end NativeObject

end ScriptMachine
