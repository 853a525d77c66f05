import ScriptMachine.Proofs.Heap.Defaults
import ScriptMachine.Proofs.Machine.Regimes

/-!
# The default values a closure is made with

The instruction that makes a closure captures variables, copies the values of registers
and stores the copies: whatever the registers share with other closures, the new one
shares nothing.
-/

set_option autoImplicit false

namespace ScriptMachine.Exec

variable {α β : Type} {m m' : Machine}

/-! ## Actions that give a value -/

theorem bind_eq_ok {act : Exec α} {f : α → Exec β} {b : β} (h : (act >>= f) m = .ok b m') :
    ∃ a m1, act m = .ok a m1 ∧ f a m1 = .ok b m' := by
  cases hact : act m with
  | ok a m1 => exact ⟨a, m1, rfl, by rwa [bind_ok m hact] at h⟩
  | error e m1 =>
    rw [bind_error m hact] at h
    cases h

theorem handingAll_eq_ok {act : Exec α} {vs : List Value} {a : α}
    (h : handingAll vs act m = .ok a m') : act m = .ok a m' := by
  unfold handingAll at h
  cases hact : act m with
  | ok a m1 => rwa [hact] at h
  | error e m1 =>
    rw [hact] at h
    simp only [releaseAll_eq] at h
    cases h

theorem handing_eq_ok {act : Exec α} {v : Value} {a : α} (h : handing v act m = .ok a m') :
    act m = .ok a m' := by
  unfold handing at h
  cases hact : act m with
  | ok a m1 => rwa [hact] at h
  | error e m1 =>
    rw [hact] at h
    simp only [release_eq] at h
    cases h

/-- Reading leaves the machine as it is. -/
theorem Reads.eq_ok {t : Terms} {act : Exec α} {G : α → Prop} {a : α} (hr : Reads t act G m)
    (h : act m = .ok a m') : m' = m ∧ G a := by
  rcases hr with ⟨b, hb, hg⟩ | ⟨e, he, -⟩
  · rw [hb] at h
    cases h
    exact ⟨rfl, hg⟩
  · rw [he] at h
    cases h

theorem register_eq_ok {base : Nat} {r : Int64} {v : Value} (h : register base r m = .ok v m') :
    m' = m ∧ v ∈ m.stack :=
  (register_found base r).eq_ok h |>.imp id fun hv => Array.mem_of_getElem? hv.2

theorem setRegister_eq_ok {base : Nat} {r : Int64} {v : Value}
    (h : setRegister base r v m = .ok () m') : Heap.Calm m.heap m'.heap := by
  obtain ⟨i, m1, hi, h⟩ := bind_eq_ok (handing_eq_ok h)
  obtain ⟨written, m2, hw, h⟩ := bind_eq_ok h
  obtain ⟨rfl, -⟩ := (registerSlot_reads (t := anyTerms) False.elim).eq_ok hi
  cases hold : m1.stack[i]? with
  | none =>
    rw [writeSlot_missing v hold] at hw
    cases hw
    cases h
  | some old =>
    rw [writeSlot_found v hold] at hw
    cases hw
    cases h
    exact .release m1.heap old

/-! ## Making a closure -/

theorem gather_defaultCopy_eq_ok {base : Nat} {rs : List Int64} {made ds : List Value}
    (h : gather (defaultCopy base) made rs m = .ok ds m') :
    ∃ vs, (∀ v ∈ vs, v ∈ m.stack) ∧ ds = made ++ (m.heap.deepCopyAll vs).1 ∧
      m' = m.withHeap (m.heap.deepCopyAll vs).2 := by
  induction rs generalizing made m with
  | nil =>
    cases h
    exact ⟨[], by simp, by simp [Heap.deepCopyAll], rfl⟩
  | cons r rs ih =>
    obtain ⟨w, m1, hw, h⟩ := bind_eq_ok h
    obtain ⟨v, m2, hv, hcopy⟩ := bind_eq_ok (handingAll_eq_ok hw)
    obtain ⟨rfl, hmem⟩ := register_eq_ok hv
    cases hcopy
    obtain ⟨vs, hvs, rfl, rfl⟩ := ih h
    refine ⟨v :: vs, fun u hu => ?_, ?_, rfl⟩
    · rcases List.mem_cons.1 hu with rfl | hu
      · exact hmem
      · exact hvs u hu
    · rw [List.append_assoc]
      rfl

theorem calm_capture (h : Heap) (cells : Array Ref) (slot : Nat) :
    Heap.Calm h (OpenOuters.capture h cells slot).2.2 := by
  unfold OpenOuters.capture
  split
  · exact .retainRef h _
  · exact (Heap.Gains.allocateLinked h Kind.noConfusion).trans (.retainRef _ _)

theorem captureCell_eq_ok {base : Nat} {outers : List Ref} {k : Capture} {v : Value}
    (h : captureCell base outers k m = .ok v m') :
    Heap.Calm m.heap m'.heap ∧ m'.stack = m.stack := by
  unfold captureCell at h
  cases hk : k.kind with
  | register =>
    rw [hk] at h
    obtain ⟨c, m1, hc, h⟩ := bind_eq_ok h
    cases hc
    cases h
    exact ⟨calm_capture _ _ _, rfl⟩
  | outer =>
    rw [hk] at h
    cases hcell : outers[k.index]? with
    | none =>
      simp only [hcell] at h
      cases h
    | some cell =>
      simp only [hcell] at h
      obtain ⟨u, m1, hu, h⟩ := bind_eq_ok h
      rw [retain_eq] at hu
      cases hu
      cases h
      exact ⟨.retain m.heap (.outer cell), rfl⟩

theorem gather_captureCell_eq_ok {base : Nat} {outers : List Ref} {ks : List Capture}
    {made vs : List Value} (h : gather (captureCell base outers) made ks m = .ok vs m') :
    Heap.Calm m.heap m'.heap ∧ m'.stack = m.stack := by
  induction ks generalizing made m with
  | nil =>
    cases h
    exact ⟨.refl _, rfl⟩
  | cons k ks ih =>
    obtain ⟨v, m1, hv, h⟩ := bind_eq_ok h
    obtain ⟨hcalm, hstack⟩ := captureCell_eq_ok (handingAll_eq_ok hv)
    obtain ⟨hcalm', hstack'⟩ := ih h
    exact ⟨hcalm.trans hcalm', hstack'.trans hstack⟩

variable {t : Terms} {s : Scope} {own : List Value} {c : ClosureObject} {base : Nat}

/-- Whatever the registers hold, a closure that the instruction makes is kindred to no
other one. -/
theorem closureInstruction_apart (hs : s.Runs c base) {i : Instruction} (hm : m.Within t s own)
    (hloose : ¬ t.strict) (ha : m.heap.Apart) (h : closureInstruction base i m = .ok () m') :
    m'.heap.Apart := by
  obtain ⟨index, _, hindex, h1⟩ := bind_eq_ok h
  obtain ⟨rfl, -⟩ := (indexArg_reads (t := anyTerms) False.elim).eq_ok hindex
  obtain ⟨f, _, hf, h2⟩ := bind_eq_ok h1
  obtain ⟨rfl, -⟩ := (currentFrame_reads hs hm).eq_ok hf
  cases hp : f.prototype.functions[index]? with
  | none =>
    rw [hp] at h2
    cases h2
  | some p =>
    rw [hp] at h2
    obtain ⟨outers, _, houters, h3⟩ := bind_eq_ok h2
    obtain ⟨rfl, rfl⟩ := (currentOuters_reads hs hm).eq_ok houters
    obtain ⟨cells, m1, hcells, h4⟩ := bind_eq_ok h3
    obtain ⟨hcalm, -⟩ := gather_captureCell_eq_ok hcells
    -- the cells are captured in good order, so what the registers hold lives on
    have hmake : ∀ k ∈ p.outers, ∀ own m, m.Within t s own →
        Meets t (captureCell base c.outers k) (captureCell base c.outers k)
          (fun v m' => m'.Within t s (v :: own) ∧ ∃ r, v = .outer r) (Fails t s own) m :=
      fun k _ own m hm => captureCell_meets hs (fun ht => absurd ht hloose) hm
    have hmeets := (gather_meets hmake [] (by simp) hm).2
    rw [hcells] at hmeets
    have hm1 := hmeets.1
    obtain ⟨ds, _, hds, h5⟩ := bind_eq_ok h4
    obtain ⟨vs, hvs, rfl, rfl⟩ := gather_defaultCopy_eq_ok (handingAll_eq_ok hds)
    obtain ⟨r, _, hr, h6⟩ := bind_eq_ok h5
    cases hr
    have hhas : ∀ v ∈ vs, m1.heap.Has v := by
      intro v hv
      obtain ⟨j, hj⟩ := Array.getElem?_of_mem (hvs v hv)
      exact hm1.has_slot hj
    have hmade := (ha.of_calm hcalm).instantiate hm1.backs hhas p (cells.filterMap Value.ref?)
    exact hmade.of_calm (setRegister_eq_ok h6)

end ScriptMachine.Exec
