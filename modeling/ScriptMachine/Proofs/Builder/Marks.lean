import Mathlib.Data.List.Induction
import ScriptMachine.Proofs.Builder.Parts
import ScriptMachine.Proofs.Builder.Resolution

/-!
# The count of captured registers

A function counts its registers that nested functions capture, so that the end of a scope
knows whether cells have to be closed. Locals that are left are taken off the count.
Temporaries are not, so a mark on a temporary stays in the count when the register is
given up.
-/

set_option autoImplicit false

namespace ScriptMachine

def Slot.isMarkedLocal (s : Slot) : Bool := s.escaped && s.name.isSome

def Slot.isMarkedTemporary (s : Slot) : Bool := s.escaped && s.name.isNone

theorem countP_escaped (slots : List Slot) : slots.countP (·.escaped) =
    slots.countP Slot.isMarkedLocal + slots.countP Slot.isMarkedTemporary := by
  induction slots with
  | nil => rfl
  | cons s slots ih =>
    simp only [List.countP_cons, ih]
    cases he : s.escaped <;> cases hn : s.name <;>
      simp [Slot.isMarkedLocal, Slot.isMarkedTemporary, he, hn] <;> omega

namespace Draft

variable {nested : Bool} {d d' : Draft} {n stray : Nat}

/-- The marked temporaries of a draft that are above the height of another. -/
def givenUp (d d' : Draft) : Nat :=
  (d.slots.toList.drop d'.slots.size).countP Slot.isMarkedTemporary

/-- The count is that of the marked registers, and of stray marks besides. -/
def Counts (d : Draft) (stray : Nat) : Prop := d.escapedCount = d.countEscaped 0 + stray

theorem countEscaped_zero (d : Draft) : d.countEscaped 0 = d.slots.toList.countP (·.escaped) := rfl

theorem givenUp_eq_zero (h : d.slots.size ≤ d'.slots.size) : d.givenUp d' = 0 := by
  rw [givenUp, List.drop_eq_nil_of_le (by simpa using h)]
  rfl

/-! ## Leaving registers -/

/-- A marked local that is left is taken off the count. -/
theorem retireTop_leaves {below : List Slot} {s : Slot} (h : d.slots.toList = below ++ [s]) :
    d.retireTop.slots.toList = below ∧
      d.retireTop.escapedCount = d.escapedCount - [s].countP Slot.isMarkedLocal := by
  have hback : d.slots.back? = some s := by
    rw [← Array.getLast?_toList, h, List.getLast?_concat]
  have hbelow : d.slots.toList.dropLast = below := by rw [h, List.dropLast_concat]
  rw [List.countP_singleton]
  cases hname : s.name with
  | none => simp [retireTop, hback, hname, hbelow, Slot.isMarkedLocal]
  | some name =>
    cases he : s.escaped <;> simp [retireTop, hback, hname, hbelow, Slot.isMarkedLocal, he]

theorem retireMany_leaves {below above : List Slot} (h : d.slots.toList = below ++ above) :
    (d.retireMany above.length).slots.toList = below ∧
      (d.retireMany above.length).escapedCount =
        d.escapedCount - above.countP Slot.isMarkedLocal := by
  induction above using List.reverseRecOn generalizing d with
  | nil => exact ⟨h.trans (List.append_nil _), rfl⟩
  | append_singleton above s ih =>
    obtain ⟨hslots, hcount⟩ := retireTop_leaves (h.trans (List.append_assoc ..).symm)
    obtain ⟨hslots', hcount'⟩ := ih hslots
    rw [List.length_append, List.length_singleton, retireMany]
    refine ⟨hslots', ?_⟩
    rw [hcount', hcount, List.countP_append, Nat.sub_sub, Nat.add_comm]

theorem setStackSize_leaves (d : Draft) (n : Nat) :
    (d.setStackSize n).slots.toList = d.slots.toList.take n ∧
      (d.setStackSize n).escapedCount =
        d.escapedCount - (d.slots.toList.drop n).countP Slot.isMarkedLocal := by
  have h := retireMany_leaves (List.take_append_drop n d.slots.toList).symm
  rwa [List.length_drop, Array.length_toList] at h

namespace Counts

theorem of_registers (h : Counts d stray) (hslots : d'.slots = d.slots)
    (hcount : d'.escapedCount = d.escapedCount) : Counts d' (stray + d.givenUp d') := by
  rw [givenUp_eq_zero (Nat.le_of_eq (by rw [hslots]))]
  unfold Counts countEscaped
  rw [hslots, hcount]
  exact h

/-- The count does not run out: it holds all marked locals that can be left. -/
theorem setStackSize_exact (h : Counts d stray) (n : Nat) :
    d.escapedCount =
      (d.setStackSize n).escapedCount + (d.slots.toList.drop n).countP Slot.isMarkedLocal := by
  have hle : (d.slots.toList.drop n).countP Slot.isMarkedLocal ≤ d.escapedCount := by
    calc (d.slots.toList.drop n).countP Slot.isMarkedLocal
        ≤ d.slots.toList.countP Slot.isMarkedLocal := (List.drop_sublist _ _).countP_le
      _ ≤ d.slots.toList.countP (·.escaped) := by
          rw [countP_escaped]
          exact Nat.le_add_right _ _
      _ ≤ d.escapedCount := by
          rw [h, countEscaped_zero]
          exact Nat.le_add_right _ _
  rw [(setStackSize_leaves d n).2, Nat.sub_add_cancel hle]

theorem setStackSize (h : Counts d stray) (n : Nat) :
    Counts (d.setStackSize n) (stray + d.givenUp (d.setStackSize n)) := by
  obtain ⟨hslots, -⟩ := setStackSize_leaves d n
  have hgone : d.givenUp (d.setStackSize n) =
      (d.slots.toList.drop n).countP Slot.isMarkedTemporary := by
    rw [givenUp, ← Array.length_toList, hslots, List.length_take]
    rcases Nat.le_total n d.slots.toList.length with hn | hn
    · rw [Nat.min_eq_left hn]
    · rw [Nat.min_eq_right hn, List.drop_length, List.drop_eq_nil_of_le hn]
  have hexact := h.setStackSize_exact n
  have hall : d.slots.toList.countP (·.escaped) = (d.slots.toList.take n).countP (·.escaped) +
      (d.slots.toList.drop n).countP (·.escaped) := by
    rw [← List.countP_append, List.take_append_drop]
  unfold Counts at h ⊢
  rw [countEscaped_zero] at h ⊢
  rw [hslots, hgone]
  rw [hall, countP_escaped (d.slots.toList.drop n)] at h
  omega

theorem pushSlot (h : Counts d stray) (name : Option String) :
    Counts (d.pushSlot name).2 (stray + d.givenUp (d.pushSlot name).2) := by
  rcases pushSlot_cases name d with heq | heq <;> rw [heq]
  · exact h.of_registers rfl rfl
  · rw [givenUp_eq_zero (by simp)]
    unfold Counts at h ⊢
    rw [countEscaped_zero] at h ⊢
    simpa using h

theorem addParameter (h : Counts d stray) (name : String) :
    Counts (d.addParameter name).2 (stray + d.givenUp (d.addParameter name).2) := by
  obtain ⟨parameters, heq⟩ := addParameter_eq name d
  rw [heq]
  exact h.pushSlot (some name)

theorem pushTarget (h : Counts d stray) (target : Option Nat) :
    Counts (d.pushTarget target).2 (stray + d.givenUp (d.pushTarget target).2) := by
  cases target with
  | some pos => exact h.of_registers rfl rfl
  | none =>
    obtain ⟨targets, heq⟩ := pushTarget_eq d
    rw [heq]
    exact h.pushSlot none

/-- A target that is a temporary takes its mark with it, and the count stays. -/
theorem popTarget (h : Counts d stray) :
    Counts d.popTarget.2 (stray + d.givenUp d.popTarget.2) := by
  obtain ⟨targets, heq | ⟨s, hback, hname, heq⟩⟩ := popTarget_cases d <;> rw [heq]
  · exact h.of_registers rfl rfl
  · have htemporary : Slot.isMarkedTemporary s = s.escaped := by
      simp [Slot.isMarkedTemporary, hname]
    obtain ⟨below, hslots⟩ := Array.back?_eq_some_iff.1 hback
    have hgone : d.givenUp { d with targets, slots := d.slots.pop } = [s].countP (·.escaped) := by
      simp [givenUp, hslots, List.countP_singleton, htemporary]
    unfold Counts at h ⊢
    rw [countEscaped_zero] at h ⊢
    rw [hgone]
    simp only [hslots, Array.toList_push, List.countP_append, Array.pop_push] at h ⊢
    omega

theorem markEscaped (h : Counts d stray) (pos : Nat) : Counts (d.markEscaped pos) stray := by
  rcases markEscaped_cases d pos with heq | ⟨s, hs, hfalse, heq⟩ <;> rw [heq]
  · exact h
  · obtain ⟨hlt, hget⟩ := Array.getElem?_eq_some_iff.1 hs
    have hlt' : pos < d.slots.toList.length := by simpa using hlt
    have hunmarked : d.slots.toList[pos].escaped = false := by
      rw [Array.getElem_toList hlt, hget]
      exact hfalse
    unfold Counts at h ⊢
    rw [countEscaped_zero] at h ⊢
    simp only [Array.toList_setIfInBounds, List.countP_set hlt', hunmarked, h, Bool.false_eq_true,
      if_false, if_true]
    omega

theorem step (h : Counts d stray) (nested : Bool) (o : Op) :
    Counts (d.step nested o) (stray + d.givenUp (d.step nested o)) := by
  by_cases hp : o.part = .registers
  · cases o with
    | allocate => exact h.pushSlot none
    | pushLocal name => exact h.pushSlot (some name)
    | addParameter name => exact h.addParameter name
    | pushTarget target => exact h.pushTarget target
    | popTarget => exact h.popTarget
    | setStackSize n => exact h.setStackSize n
    | markEscaped pos =>
      have hsize : d.slots.size ≤ (d.markEscaped pos).slots.size :=
        Nat.le_of_eq (enriched_markEscaped d pos).size.symm
      show Counts (d.markEscaped pos) (stray + d.givenUp (d.markEscaped pos))
      rw [givenUp_eq_zero hsize]
      exact h.markEscaped pos
    | _ => cases hp
  · obtain ⟨hslots, -, hcount⟩ := (confined_step nested d o).registers hp
    exact h.of_registers hslots hcount

end Counts

end Draft

/-! ## Nested functions -/

namespace Builder

open Draft (Counts)

/-- How many marks have gone with temporaries, for each function from the innermost
outwards, after one more operation. -/
def strayed (b : Builder) (strays : List Nat) : Op → List Nat
  | .within o => strays.modifyHead (· + b.current.givenUp (b.current.step b.nested o))
  | .pushChild _ => 0 :: strays
  | .popChild => if b.nested then strays.tail else strays
  | .outerVariable _ => strays

/-- How many marks have gone with temporaries after a sequence of operations. -/
def strays : Builder → List Nat → List Op → List Nat
  | _, ns, [] => ns
  | b, ns, o :: ops => (b.step o).strays (b.strayed ns o) ops

/-- What keeps the count of each function keeps the counts of all. -/
theorem counts_forall₂ {ds ds' : List Draft} {ns : List Nat} (h : List.Forall₂ Counts ds ns)
    (hkeep : List.Forall₂ (fun d d' => ∀ n, Counts d n → Counts d' n) ds ds') :
    List.Forall₂ Counts ds' ns := by
  induction hkeep generalizing ns with
  | nil => exact h
  | cons hd _ ih =>
    obtain _ | ⟨hcount, hcounts⟩ := h
    exact .cons (hd _ hcount) (ih hcounts)

theorem counts_step {b : Builder} {ns : List Nat} (h : List.Forall₂ Counts b.chain ns) (o : Op) :
    List.Forall₂ Counts (b.step o).chain (b.strayed ns o) := by
  cases o with
  | within o =>
    obtain _ | ⟨hcurrent, henclosing⟩ := h
    exact .cons (hcurrent.step b.nested o) henclosing
  | pushChild name => exact .cons rfl h
  | popChild =>
    obtain ⟨d, enclosing⟩ := b
    cases enclosing with
    | nil => exact h
    | cons p rest =>
      obtain _ | ⟨-, hp⟩ := h
      obtain _ | ⟨hp, hrest⟩ := hp
      exact .cons hp hrest
  | outerVariable name =>
    exact counts_forall₂ h (outerVariable_forall₂ (fun _ _ h => h) (fun _ _ _ h => h)
      (fun _ pos _ h => h.markEscaped pos) b name)

theorem counts_run {b : Builder} {ns : List Nat} (h : List.Forall₂ Counts b.chain ns)
    (ops : List Op) : List.Forall₂ Counts (b.run ops).chain (b.strays ns ops) := by
  induction ops generalizing b ns with
  | nil => exact h
  | cons o ops ih => exact ih (counts_step h o)

/-- However nested functions are built: the count of each is that of its marked registers
and of the marked temporaries that it has given up, and it never runs out, however far
registers are left. -/
theorem escaped_counted (start : String) (ops : List Op) :
    List.Forall₂ (fun d stray => d.escapedCount = d.countEscaped 0 + stray ∧
        ∀ n, d.escapedCount = (d.setStackSize n).escapedCount +
          (d.slots.toList.drop n).countP Slot.isMarkedLocal)
      ((ofName start).run ops).chain ((ofName start).strays [0] ops) := by
  have hstart : List.Forall₂ Counts (ofName start).chain [0] := .cons rfl .nil
  exact (counts_run hstart ops).imp fun d stray h => ⟨h, h.setStackSize_exact⟩

/-- A temporary is marked as captured and then given up. -/
def markedTemporary : List Op :=
  [.within .allocate, .within (.markEscaped 1), .within (.setStackSize 1)]

/-- No register is marked any more, and one is still counted. -/
theorem markedTemporary_stays_counted :
    ((ofName "f").run markedTemporary).current.escapedCount = 1 ∧
      ((ofName "f").run markedTemporary).current.countEscaped 0 = 0 ∧
      (ofName "f").strays [0] markedTemporary = [1] :=
  ⟨by decide, by decide, by decide⟩

end Builder

end ScriptMachine
