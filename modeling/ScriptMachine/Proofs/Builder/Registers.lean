import ScriptMachine.Proofs.Builder.Parts
import ScriptMachine.Proofs.Builder.Resolution
import ScriptMachine.Proofs.Machine.Reachable

/-!
# Registers and their frames

The registers of a function are numbered in order, and the frame of the finished function
has room for each register that was ever taken, so an activation finds it on the stack.
Targets that are pushed and popped in nests leave the registers as they were.
-/

set_option autoImplicit false

namespace ScriptMachine

namespace Draft

variable {nested : Bool} {d d' d'' : Draft} {o : Op} {pos : Nat}

/-! ## Frames only grow -/

/-- Registers are numbered in order and have room in a frame that is not too large. -/
structure Ordered (d : Draft) : Prop extends d.Numbered where
  limit : d.stackSize ≤ maxStackSize

/-- Registers may have been taken and left. -/
structure Widened (d d' : Draft) : Prop where
  frame : d.stackSize ≤ d'.stackSize
  ordered : d.Ordered → d'.Ordered

namespace Widened

theorem refl (d : Draft) : Widened d d := ⟨Nat.le_refl _, id⟩

theorem trans (h : Widened d d') (h' : Widened d' d'') : Widened d d'' :=
  ⟨Nat.le_trans h.frame h'.frame, h'.ordered ∘ h.ordered⟩

/-- The frame is the same. -/
theorem of_reshaped (h : Reshaped d d') (hframe : d'.stackSize = d.stackSize) : Widened d d' where
  frame := h.stackSize
  ordered := fun hd => ⟨h.numbered hd.toNumbered, hframe ▸ hd.limit⟩

theorem of_slots (hslots : d'.slots = d.slots) (hframe : d'.stackSize = d.stackSize) :
    Widened d d' where
  frame := Nat.le_of_eq hframe.symm
  ordered := fun hd =>
    ⟨⟨hslots ▸ hd.pos, by rw [hslots, hframe]; exact hd.fits⟩, hframe ▸ hd.limit⟩

end Widened

/-- A request for a register is refused without effect, or takes the next one within the
limit. -/
theorem pushSlot_outcome (name : Option String) (d : Draft) :
    d.pushSlot name = (.error .tooManyLocals, d) ∨
      (max d.stackSize (d.slots.size + 1) ≤ max d.stackSize maxStackSize ∧
        d.pushSlot name = (.ok d.slots.size, { d with
          slots := d.slots.push { name, pos := d.slots.size, startOp := d.code.size }
          stackSize := max d.stackSize (d.slots.size + 1) })) := by
  unfold pushSlot
  dsimp only
  split
  · exact .inl rfl
  · rename_i hroom
    exact .inr ⟨by omega, rfl⟩

theorem widened_pushSlot (name : Option String) (d : Draft) : Widened d (d.pushSlot name).2 where
  frame := (Reshaped.pushSlot name d).stackSize
  ordered := fun hd => by
    refine ⟨(Reshaped.pushSlot name d).numbered hd.toNumbered, ?_⟩
    rcases pushSlot_outcome name d with heq | ⟨hroom, heq⟩ <;> rw [heq]
    · exact hd.limit
    · exact Nat.le_trans hroom (Nat.max_le.2 ⟨hd.limit, Nat.le_refl _⟩)

theorem stackSize_retireTop (d : Draft) : d.retireTop.stackSize = d.stackSize := by
  unfold retireTop
  split
  · rfl
  · split <;> rfl

theorem stackSize_retireMany (n : Nat) (d : Draft) : (d.retireMany n).stackSize = d.stackSize := by
  induction n generalizing d with
  | zero => rfl
  | succ n ih => exact (ih d.retireTop).trans (stackSize_retireTop d)

theorem widened_step (nested : Bool) (d : Draft) (o : Op) : Widened d (d.step nested o) := by
  by_cases hp : o.part = .registers
  · cases o with
    | allocate => exact widened_pushSlot none d
    | pushLocal name => exact widened_pushSlot (some name) d
    | addParameter name =>
      obtain ⟨parameters, heq⟩ := addParameter_eq name d
      show Widened d (d.addParameter name).2
      rw [heq]
      exact (widened_pushSlot (some name) d).trans (.of_slots rfl rfl)
    | pushTarget target =>
      cases target with
      | some pos => exact .of_slots rfl rfl
      | none =>
        obtain ⟨targets, heq⟩ := pushTarget_eq d
        show Widened d (d.pushTarget none).2
        rw [heq]
        exact (widened_pushSlot none d).trans (.of_slots rfl rfl)
    | popTarget =>
      refine .of_reshaped (.popTarget d) ?_
      show d.popTarget.2.stackSize = d.stackSize
      obtain ⟨targets, heq | ⟨s, -, -, heq⟩⟩ := popTarget_cases d <;> rw [heq]
    | setStackSize n => exact .of_reshaped (.setStackSize d n) (stackSize_retireMany _ d)
    | markEscaped pos =>
      exact .of_reshaped (.markEscaped d pos) (enriched_markEscaped d pos).stackSize
    | _ => cases hp
  · have hconfined := confined_step nested d o
    exact .of_slots (hconfined.registers hp).1 (hconfined.frame hp).1

/-! ## Positions that are taken -/

/-- The register that an operation takes and answers with. -/
def taken? (d : Draft) : Op → Option Nat
  | .allocate => d.allocate.1.toOption
  | .pushLocal name => (d.pushLocal name).1.toOption
  | .addParameter name => (d.addParameter name).1.toOption
  | .pushTarget none => (d.pushTarget none).1.toOption
  | _ => none

theorem pushSlot_taken {name : Option String} (h : (d.pushSlot name).1.toOption = some pos) :
    pos < (d.pushSlot name).2.stackSize := by
  rcases pushSlot_outcome name d with heq | ⟨-, heq⟩ <;> rw [heq] at h ⊢
  · cases h
  · cases h
    exact Nat.le_max_right ..

/-- The frame has room for a register as soon as it is taken. -/
theorem taken?_lt (h : d.taken? o = some pos) : pos < (d.step nested o).stackSize := by
  cases o with
  | allocate => exact pushSlot_taken h
  | pushLocal name => exact pushSlot_taken h
  | addParameter name =>
    have hpush : (d.pushSlot (some name)).1.toOption = some pos := by
      rw [← h, taken?, addParameter, pushLocal]
      cases d.pushSlot (some name) with | mk r d' => cases r <;> rfl
    obtain ⟨parameters, heq⟩ := addParameter_eq name d
    show pos < (d.addParameter name).2.stackSize
    rw [heq]
    exact pushSlot_taken hpush
  | pushTarget target =>
    cases target with
    | some t => cases h
    | none =>
      have hpush : (d.pushSlot none).1.toOption = some pos := by
        rw [← h, taken?, pushTarget, allocate]
        cases d.pushSlot none with | mk r d' => cases r <;> rfl
      obtain ⟨targets, heq⟩ := pushTarget_eq d
      show pos < (d.pushTarget none).2.stackSize
      rw [heq]
      exact pushSlot_taken hpush
  | _ => cases h

/-! ## Targets in nests -/

/-- Operations that push and pop targets in nests, with others in between that are no
matter of registers. -/
inductive Nest where
  | done
  | aside (o : Op) (ho : o.part ≠ .registers) (after : Nest)
  /-- A target, what happens until it is popped, and what happens then. -/
  | target (target : Option Nat) (inside after : Nest)

namespace Nest

def ops : Nest → List Op
  | done => []
  | aside o _ after => o :: after.ops
  | target t inside after => .pushTarget t :: inside.ops ++ .popTarget :: after.ops

/-- The draft when a target has been pushed and what is nested in it is over. -/
def filled (nested : Bool) (t : Option Nat) (inside : Nest) (d : Draft) : Draft :=
  (d.pushTarget t).2.run nested inside.ops

/-- Each push of a target succeeds, and takes a new temporary or an existing local. -/
def Permitted (nested : Bool) : Nest → Draft → Prop
  | done, _ => True
  | aside o _ after, d => after.Permitted nested (d.step nested o)
  | target t inside after, d =>
    (∃ pos, (d.pushTarget t).1 = .ok pos) ∧ (∀ pos, t = some pos → d.isLocal pos = true) ∧
      inside.Permitted nested (d.pushTarget t).2 ∧
      after.Permitted nested (filled nested t inside d).popTarget.2

/-- Each pop of a target answers as its push did. -/
def Matched (nested : Bool) : Nest → Draft → Prop
  | done, _ => True
  | aside o _ after, d => after.Matched nested (d.step nested o)
  | target t inside after, d =>
    (∃ pos, (d.pushTarget t).1 = .ok pos ∧ (filled nested t inside d).popTarget.1 = .ok pos) ∧
      inside.Matched nested (d.pushTarget t).2 ∧
      after.Matched nested (filled nested t inside d).popTarget.2

/-- The registers and the targets are those that were there before. -/
def Restored (d d' : Draft) : Prop := d'.slots = d.slots ∧ d'.targets = d.targets

/-- A pop undoes the push, once nothing else is left between them. -/
theorem popTarget_undoes {t : Option Nat} (hpush : (d.pushTarget t).1 = .ok pos)
    (hlocal : ∀ pos, t = some pos → d.isLocal pos = true) (h : Restored (d.pushTarget t).2 d') :
    d'.popTarget.1 = .ok pos ∧ Restored d d'.popTarget.2 := by
  obtain ⟨hslots, htargets⟩ := h
  cases t with
  | some t =>
    cases hpush
    have hname := hlocal pos rfl
    unfold isLocal at hname
    cases hs : d.slots[pos]? with
    | none => simp [hs] at hname
    | some s =>
      rw [hs] at hname
      have hslots' : d'.slots = d.slots := hslots
      have htargets' : d'.targets = pos :: d.targets := htargets
      simp [popTarget, htargets', hslots', hs, hname, Restored]
  | none =>
    unfold pushTarget allocate at hpush hslots htargets
    rcases pushSlot_outcome none d with heq | ⟨-, heq⟩ <;> rw [heq] at hpush hslots htargets
    · cases hpush
    · cases hpush
      simp [popTarget, htargets, hslots, Restored]

theorem matched_and_restored {n : Nest} (h : n.Permitted nested d) :
    n.Matched nested d ∧ Restored d (d.run nested n.ops) := by
  induction n generalizing d with
  | done => exact ⟨trivial, rfl, rfl⟩
  | aside o ho after ih =>
    obtain ⟨hmatched, hslots, htargets⟩ := ih h
    have hconfined := confined_step nested d o
    exact ⟨hmatched, hslots.trans (hconfined.registers ho).1, htargets.trans (hconfined.frame ho).2⟩
  | target t inside after ihinside ihafter =>
    obtain ⟨⟨pos, hpush⟩, hlocal, hinside, hafter⟩ := h
    obtain ⟨hmatched, hrestored⟩ := ihinside hinside
    obtain ⟨hpop, hundone⟩ := popTarget_undoes hpush hlocal hrestored
    obtain ⟨hmatched', hslots, htargets⟩ := ihafter hafter
    refine ⟨⟨⟨pos, hpush, hpop⟩, hmatched, hmatched'⟩, ?_⟩
    rw [ops, List.cons_append, run_cons, run_append, run_cons]
    exact ⟨hslots.trans hundone.1, htargets.trans hundone.2⟩

end Nest

end Draft

/-! ## At run time -/

/-- Whenever an instruction of the function is fetched, the register is on the stack. -/
def Prototype.Houses (p : Prototype) (pos : Nat) : Prop :=
  ∀ {strict : Prop} {host own args : List Value} {m : Machine} {callee : Value},
    Exec.Reachable strict host (args ++ own) m → m.heap.Has callee → ∀ steps,
      Exec.Throughout steps callee args m fun k m1 => k = .fetch →
        ∀ f rest, m1.frames = f :: rest → f.prototype = p → f.base + pos < m1.stack.size

theorem Prototype.houses_of_lt {p : Prototype} {pos : Nat} (h : pos < p.stackSize) :
    p.Houses pos := by
  intro strict host own args m callee hm hcallee steps
  refine hm.throughout_fetch hcallee steps fun _ _ m1 _ hroomy f rest hf hp => ?_
  have hframe := hroomy f rest hf
  rw [hp] at hframe
  omega

/-! ## Nested functions -/

namespace Builder

open Draft (Ordered Widened Nest)

variable {b : Builder} {n : Nat} {d : Draft}

theorem ordered_new (name source : String) : Ordered { name, source } :=
  ⟨numbered_new name source, show 1 ≤ 255 by decide⟩

/-- An operation begins a function, finishes one, or widens the frames there are. -/
theorem step_widens (b : Builder) (o : Op) :
    (∃ d, d.Ordered ∧ (b.step o).chain = d :: b.chain) ∨
      (∃ d ds, b.chain = d :: ds ∧ List.Forall₂ Widened ds (b.step o).chain) ∨
      List.Forall₂ Widened b.chain (b.step o).chain := by
  have hsame : ∀ ds : List Draft, List.Forall₂ Widened ds ds := fun ds =>
    List.forall₂_same.2 fun d _ => Widened.refl d
  cases o with
  | within o => exact .inr (.inr (.cons (Draft.widened_step b.nested b.current o) (hsame _)))
  | pushChild name => exact .inl ⟨_, ordered_new name _, rfl⟩
  | popChild =>
    obtain ⟨d, enclosing⟩ := b
    cases enclosing with
    | nil => exact .inr (.inr (hsame _))
    | cons p rest => exact .inr (.inl ⟨d, p :: rest, rfl, .cons (.of_slots rfl rfl) (hsame rest)⟩)
  | outerVariable name =>
    exact .inr (.inr (outerVariable_forall₂ Widened.refl (fun _ _ => .of_slots rfl rfl)
      (fun d pos => Draft.widened_step b.nested d (.markEscaped pos)) b name))

theorem ordered_step (h : ∀ d ∈ b.chain, d.Ordered) (o : Op) :
    ∀ d ∈ (b.step o).chain, d.Ordered := by
  have hwiden : ∀ {ds ds' : List Draft}, List.Forall₂ Widened ds ds' → (∀ d ∈ ds, d.Ordered) →
      ∀ d ∈ ds', d.Ordered := by
    intro ds ds' hw hds
    induction hw with
    | nil => exact hds
    | cons hd _ ih =>
      obtain ⟨hd0, hds⟩ := List.forall_mem_cons.1 hds
      exact List.forall_mem_cons.2 ⟨hd.ordered hd0, ih hds⟩
  rcases step_widens b o with ⟨d, hd, heq⟩ | ⟨d, ds, heq, hw⟩ | hw
  · rw [heq]
    exact List.forall_mem_cons.2 ⟨hd, h⟩
  · rw [heq] at h
    exact hwiden hw (List.forall_mem_cons.1 h).2
  · exact hwiden hw h

theorem ordered_run (h : ∀ d ∈ b.chain, d.Ordered) (ops : List Op) :
    ∀ d ∈ (b.run ops).chain, d.Ordered := by
  induction ops generalizing b with
  | nil => exact h
  | cons o ops ih => exact ih (ordered_step h o)

/-- The function at a depth, counted from the outermost. -/
def At (b : Builder) (n : Nat) (d : Draft) : Prop := b.chain.reverse[n]? = some d

theorem at_current (b : Builder) : b.At b.enclosing.length b.current := by
  rw [At, chain, List.reverse_cons, List.getElem?_append_right (by simp)]
  simp

theorem at_widened {ds ds' : List Draft} (hw : List.Forall₂ Widened ds ds')
    (hd : ds.reverse[n]? = some d) : ∃ d', ds'.reverse[n]? = some d' ∧ Widened d d' := by
  have hrev := List.forall₂_reverse_iff.2 hw
  obtain ⟨hlt, rfl⟩ := List.getElem?_eq_some_iff.1 hd
  have hlt' : n < ds'.reverse.length := hrev.length_eq ▸ hlt
  exact ⟨_, List.getElem?_eq_getElem hlt', hrev.get hlt hlt'⟩

theorem At.step (hd : b.At n d) (o : Op) (hn : n ≤ (b.step o).enclosing.length) :
    ∃ d', (b.step o).At n d' ∧ Widened d d' := by
  rcases step_widens b o with ⟨e, -, heq⟩ | ⟨e, ds, heq, hw⟩ | hw
  · refine ⟨d, ?_, .refl d⟩
    rw [At, heq, List.reverse_cons, List.getElem?_append_left (List.getElem?_eq_some_iff.1 hd).1]
    exact hd
  · have hlen : n < ds.reverse.length := by
      rw [List.length_reverse, hw.length_eq]
      exact Nat.lt_succ_of_le hn
    rw [At, heq, List.reverse_cons, List.getElem?_append_left hlen] at hd
    exact at_widened hw hd
  · exact at_widened hw hd

/-- The function at the depth is not finished by any of the operations. -/
def OpenAlong (b : Builder) (n : Nat) (ops : List Op) : Prop :=
  ∀ done, done <+: ops → n ≤ (b.run done).enclosing.length

theorem OpenAlong.tail {o : Op} {ops : List Op} (h : b.OpenAlong n (o :: ops)) :
    n ≤ (b.step o).enclosing.length ∧ (b.step o).OpenAlong n ops :=
  ⟨h [o] (by simp), fun done hdone => h (o :: done) (List.cons_prefix_cons.2 ⟨rfl, hdone⟩)⟩

theorem At.run (hd : b.At n d) {ops : List Op} (hopen : b.OpenAlong n ops) :
    ∃ d', (b.run ops).At n d' ∧ Widened d d' := by
  induction ops generalizing b d with
  | nil => exact ⟨d, hd, .refl d⟩
  | cons o ops ih =>
    obtain ⟨hn, htail⟩ := hopen.tail
    obtain ⟨d1, hd1, hw⟩ := hd.step o hn
    obtain ⟨d2, hd2, hw'⟩ := ih hd1 htail
    exact ⟨d2, hd2, hw.trans hw'⟩

/-- However functions are built: registers are numbered in order, within a frame of limited
size that only grows. A register that was ever taken is in the frame of the finished
function and on the stack while it runs. Nested targets are popped as they were pushed and
leave the registers as they were. -/
theorem registers_in_frame (start : String) (ops : List Op) :
    (∀ d ∈ ((ofName start).run ops).chain,
      (∀ (k : Nat) (s : Slot), d.slots[k]? = some s → s.pos = k) ∧
      d.slots.size ≤ d.build.stackSize ∧ d.build.stackSize ≤ 255) ∧
    (∀ n d later, ((ofName start).run ops).At n d → ((ofName start).run ops).OpenAlong n later →
      ∃ d', (((ofName start).run ops).run later).At n d' ∧ d.stackSize ≤ d'.stackSize) ∧
    (∀ o pos later, ((ofName start).run ops).current.taken? o = some pos →
      (((ofName start).run ops).step (.within o)).OpenAlong
        ((ofName start).run ops).enclosing.length later →
      ∃ d, ((ofName start).run (ops ++ .within o :: later)).At
          ((ofName start).run ops).enclosing.length d ∧
        pos < d.build.stackSize ∧ d.build.Houses pos) ∧
    ∀ (nested : Bool) (d : Draft) (nest : Nest), nest.Permitted nested d →
      nest.Matched nested d ∧ (d.run nested nest.ops).slots = d.slots := by
  have hstart : ∀ d ∈ (ofName start).chain, d.Ordered :=
    List.forall_mem_singleton.2 (ordered_new start "")
  have hordered := ordered_run hstart ops
  generalize hb : (ofName start).run ops = b at *
  refine ⟨fun d hd => ⟨(hordered d hd).pos, (hordered d hd).fits, (hordered d hd).limit⟩,
    fun n d later hd hopen => ?_, fun o pos later htaken hopen => ?_, fun nested d nest h => ?_⟩
  · obtain ⟨d', hd', hw⟩ := hd.run hopen
    exact ⟨d', hd', hw.frame⟩
  · have htop : (b.step (.within o)).At b.enclosing.length (b.current.step b.nested o) :=
      at_current (b.step (.within o))
    obtain ⟨d, hd, hw⟩ := htop.run hopen
    have hlt : pos < d.build.stackSize := Nat.lt_of_lt_of_le (Draft.taken?_lt htaken) hw.frame
    refine ⟨d, ?_, hlt, Prototype.houses_of_lt hlt⟩
    rw [run, List.foldl_append]
    exact hb ▸ hd
  · obtain ⟨hmatched, hslots, -⟩ := Nest.matched_and_restored h
    exact ⟨hmatched, hslots⟩

end Builder

end ScriptMachine
