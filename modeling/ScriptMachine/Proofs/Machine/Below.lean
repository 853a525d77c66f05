import ScriptMachine.Proofs.Machine.Conduct

/-!
# Below a call

Frames overlap on one stack. Yet an activation and all that it calls keep to the
slots from its base on, and where a callee leads back to is settled when it is
entered: the frames of the callers, the height to go back to, the slot for the value. What
is said of the slots below is a parameter, so that it can be any promise that stores
through cells keep.
-/

set_option autoImplicit false

namespace ScriptMachine

/-- Every slot below a height holds what it may. -/
def Machine.Guarded (low : Nat) (may : Nat → Value → Prop) (m : Machine) : Prop :=
  ∀ j < low, ∀ v, m.stack[j]? = some v → may j v

/-- Where a callee leads back to, as settled when it was entered. -/
structure Landing where
  /-- The height to go back to. -/
  height : Nat
  /-- The slot that receives the returned value. -/
  target : Option Nat
  /-- It was entered from outside the instruction loop. -/
  root : Bool
  /-- The frames of its callers. -/
  below : List Frame

/-- An activation that leads back there, with what it has called, on slots that are
not below. -/
inductive Stacked (low : Nat) (l : Landing) : List Frame → Prop
  | entry {f : Frame} (hbase : low ≤ f.base) (hprev : f.prevTop = l.height)
      (htarget : f.target = l.target) (hroot : f.root = l.root) : Stacked low l (f :: l.below)
  | called {f : Frame} {fs : List Frame} (hbase : low ≤ f.base) (hprev : l.height ≤ f.prevTop)
      (htarget : ∀ t, f.target = some t → low ≤ t) (hroot : f.root = false)
      (hrest : Stacked low l fs) : Stacked low l (f :: fs)

/-- Such activations are on top, and all that is below is as it may be. -/
structure Kept (low : Nat) (may : Nat → Value → Prop) (l : Landing) (m : Machine) : Prop where
  frames : Stacked low l m.frames
  low_le : low ≤ l.height
  height : l.height ≤ m.stack.size
  guarded : m.Guarded low may

variable {low : Nat} {may : Nat → Value → Prop} {l : Landing} {m m' : Machine} {f f' : Frame}
variable {fs rest : List Frame}

namespace Stacked

/-- A frame takes the place of another. -/
theorem replace (h : Stacked low l (f :: fs)) (hbase : f'.base = f.base)
    (hprev : f'.prevTop = f.prevTop) (htarget : f'.target = f.target) (hroot : f'.root = f.root) :
    Stacked low l (f' :: fs) := by
  cases h with
  | entry hb hp ht hr =>
    exact .entry (hbase ▸ hb) (hprev.trans hp) (htarget.trans ht) (hroot.trans hr)
  | called hb hp ht hr hrest =>
    exact .called (hbase ▸ hb) (hprev ▸ hp) (htarget ▸ ht) (hroot.trans hr) hrest

theorem base_le (h : Stacked low l (f :: fs)) : low ≤ f.base := by
  cases h with
  | entry hb _ _ _ => exact hb
  | called hb _ _ _ _ => exact hb

theorem height_le (h : Stacked low l (f :: fs)) : l.height ≤ f.prevTop := by
  cases h with
  | entry _ hp _ _ => exact Nat.le_of_eq hp.symm
  | called _ hp _ _ _ => exact hp

theorem length_lt (h : Stacked low l fs) : l.below.length < fs.length := by
  induction h with
  | entry _ _ _ _ => exact Nat.lt_succ_self _
  | called _ _ _ _ _ ih => exact Nat.lt_succ_of_lt ih

end Stacked

namespace Machine.Guarded

theorem of_same (h : m.Guarded low may) (hsame : ∀ j < low, m'.stack[j]? = m.stack[j]?) :
    m'.Guarded low may := fun j hj v hv => h j hj v (by rw [← hsame j hj]; exact hv)

theorem write (h : m.Guarded low may) {i : Nat} (v : Value) (hi : low ≤ i ∨ may i v) :
    Machine.Guarded low may { m with stack := m.stack.setIfInBounds i v } := by
  intro j hj u hu
  rw [Array.getElem?_setIfInBounds] at hu
  split at hu
  · rename_i heq
    subst heq
    split at hu
    · cases hu
      exact hi.resolve_left (Nat.not_le.2 hj)
    · cases hu
  · exact h j hj u hu

end Machine.Guarded

namespace Kept

theorem low_le_size (h : Kept low may l m) : low ≤ m.stack.size := h.low_le.trans h.height

/-- Neither frames nor slots below have changed. -/
theorem of_same (h : Kept low may l m) (hframes : m'.frames = m.frames)
    (hheight : l.height ≤ m'.stack.size) (hsame : ∀ j < low, m'.stack[j]? = m.stack[j]?) :
    Kept low may l m' :=
  ⟨hframes ▸ h.frames, h.low_le, hheight, h.guarded.of_same hsame⟩

end Kept

/-! ## The regimes -/

namespace Regime

/-- Frames and height stay, and the slots below hold what they may. -/
def guarding (low : Nat) (may : Nat → Value → Prop) : Regime where
  rel m m' := low ≤ m.stack.size → m.Guarded low may →
    m'.stack.size = m.stack.size ∧ m'.frames = m.frames ∧ m'.Guarded low may
  cut _ m m' := low ≤ m.stack.size → m.Guarded low may → m'.Guarded low may
  writes i := low ≤ i
  trans h h' hlow hg := by
    obtain ⟨hsize, hframes, hg'⟩ := h hlow hg
    obtain ⟨hsize', hframes', hg''⟩ := h' (hsize ▸ hlow) hg'
    exact ⟨hsize'.trans hsize, hframes'.trans hframes, hg''⟩
  cut_trans h h' hlow hg := by
    obtain ⟨hsize, -, hg'⟩ := h hlow hg
    exact h' (hsize ▸ hlow) hg'
  beside hs hf _ hg := ⟨by rw [hs], hf, hg.of_same fun _ _ => by rw [hs]⟩
  cut_beside h hs _ hlow hg := (h hlow hg).of_same fun _ _ => by rw [hs]
  write _ v hi _ hg := ⟨Array.size_setIfInBounds, rfl, hg.write v (.inl hi)⟩

/-- The stack stays as it is. -/
def still : Regime where
  rel m m' := m'.stack = m.stack
  cut _ m m' := m'.stack = m.stack
  writes _ := False
  trans h h' := h'.trans h
  cut_trans h h' := h'.trans h
  beside hs _ := hs
  cut_beside h hs _ := hs.trans h
  write _ _ hi := hi.elim

/-- Only the slots below matter. -/
def sparing (low : Nat) (may : Nat → Value → Prop) : Regime where
  rel m m' := low ≤ m.stack.size → m.Guarded low may → low ≤ m'.stack.size ∧ m'.Guarded low may
  cut _ m m' := low ≤ m.stack.size → m.Guarded low may → m'.Guarded low may
  writes i := low ≤ i
  trans h h' hlow hg := h' (h hlow hg).1 (h hlow hg).2
  cut_trans h h' hlow hg := h' (h hlow hg).1 (h hlow hg).2
  beside hs _ hlow hg := ⟨by rw [hs]; exact hlow, hg.of_same fun _ _ => by rw [hs]⟩
  cut_beside h hs _ hlow hg := (h hlow hg).of_same fun _ _ => by rw [hs]
  write _ v hi hlow hg := ⟨hlow.trans_eq Array.size_setIfInBounds.symm, hg.write v (.inl hi)⟩

/-- The activations that lead back to a landing stay on top. -/
def upholding (low : Nat) (may : Nat → Value → Prop) (l : Landing) : Regime where
  rel m m' := Kept low may l m → Kept low may l m'
  cut _ m m' := Kept low may l m → m'.Guarded low may
  writes i := low ≤ i
  trans h h' hk := h' (h hk)
  cut_trans h h' hk := h' (h hk)
  beside hs hf hk := hk.of_same hf (by rw [hs]; exact hk.height) fun _ _ => by rw [hs]
  cut_beside h hs _ hk := (h hk).of_same fun _ _ => by rw [hs]
  write _ v hi hk := ⟨hk.frames, hk.low_le, hk.height.trans_eq Array.size_setIfInBounds.symm,
    hk.guarded.write v (.inl hi)⟩

/-- Frames and slots below a base stay, and the stack is not cut. -/
def entering (base : Nat) : Regime where
  rel m m' := m'.frames = m.frames ∧ m.stack.size ≤ m'.stack.size ∧
    ∀ j < base, j < m.stack.size → m'.stack[j]? = m.stack[j]?
  cut _ m m' := ∀ j < base, j < m.stack.size → m'.stack[j]? = m.stack[j]?
  writes i := base ≤ i
  trans h h' := ⟨h'.1.trans h.1, h.2.1.trans h'.2.1, fun j hj hlt =>
    (h'.2.2 j hj (hlt.trans_le h.2.1)).trans (h.2.2 j hj hlt)⟩
  cut_trans h h' j hj hlt := (h' j hj (hlt.trans_le h.2.1)).trans (h.2.2 j hj hlt)
  beside hs hf := ⟨hf, by rw [hs], fun _ _ _ => by rw [hs]⟩
  cut_beside h hs _ j hj hlt := by rw [hs]; exact h j hj hlt
  write m v hi := ⟨rfl, Nat.le_of_eq Array.size_setIfInBounds.symm, fun j hj _ =>
    Array.getElem?_setIfInBounds_ne (by omega)⟩

section

variable {α : Type} {act : Exec α}

theorem upholding_of_guarding (h : (guarding low may).AllowsAt act m) :
    (upholding low may l).AllowsAt act m := by
  have hrel : ∀ m', (guarding low may).rel m m' → (upholding low may l).rel m m' := by
    intro m' h hk
    obtain ⟨hsize, hframes, hg⟩ := h hk.low_le_size hk.guarded
    exact ⟨hframes ▸ hk.frames, hk.low_le, hsize ▸ hk.height, hg⟩
  exact Leads.weaken h (fun _ => hrel) hrel fun _ m' hcut hk => hcut hk.low_le_size hk.guarded

theorem upholding_jumps : (upholding low may l).Jumps := by
  intro m f rest ip hf hk
  refine ⟨?_, hk.low_le, hk.height, hk.guarded⟩
  have hstacked := hk.frames
  rw [hf] at hstacked
  exact hstacked.replace rfl rfl rfl rfl

end

end Regime

/-- A store changes the slot of an open cell, if anything. -/
theorem OpenOuters.write_stack (h : Heap) (cell : Ref) (s : Array Value) (v : Value) :
    (write h cell s v).1 = s ∨
      ∃ slot, h.stackIndex? cell = some slot ∧ (write h cell s v).1 = s.setIfInBounds slot v := by
  unfold write
  cases hslot : h.stackIndex? cell with
  | none => exact .inl rfl
  | some slot =>
    cases hold : s[slot]? with
    | none =>
      simp only [hold]
      exact .inl trivial
    | some old =>
      simp only [hold]
      exact .inr ⟨slot, rfl, rfl⟩

namespace Exec

open Regime

variable {base : Nat}

/-! ## Entering a function -/

section

variable {R : Regime} (hout : ∀ m, R.cut .outsideStack m m)

include hout

theorem takeSlots_allowed (start count : Nat) (hs : R.Owns start) :
    R.Allows (takeSlots start count) := by
  induction count generalizing start with
  | zero => exact .pure []
  | succ count ih =>
    have htake : R.Allows (takeSlot start) := fun m => by
      cases hv : m.stack[start]? with
      | none =>
        have hnone : takeSlot start m = .ok none m := by
          unfold takeSlot
          rw [bind_ok m (show slot? start m = .ok none m by rw [← hv]; rfl)]
          rfl
        exact .of_ok hnone (R.refl m)
      | some v => exact .of_ok (takeSlot_found hv) (R.write m .null (hs _ (Nat.le_refl _)))
    refine htake.bind fun v => ?_
    cases v with
    | none => exact fun m => hout m
    | some v => exact (ih (start + 1) fun i hi => hs i (by omega)).bind fun _ => .pure _

theorem packArguments_allowed {p : Prototype} {count : Nat} (hb : R.Owns base) :
    R.Allows (packArguments p base count) := by
  unfold packArguments
  dsimp only
  split
  · exact .fail _
  · refine (takeSlots_allowed hout _ _ fun i hi => hb i (by omega)).bind fun vs =>
      (Allows.heap _).bind fun packed =>
        (writeSlot_allowed packed (hb _ (Nat.le_add_right _ _))).bind fun written => ?_
    cases written with
    | true => exact .pure _
    | false => exact fun m => hout m

theorem fillSlots_allowed (start : Nat) (vs : List Value) (hs : R.Owns start) :
    R.Allows (fillSlots start vs) := by
  induction vs generalizing start with
  | nil => exact .pure ()
  | cons v vs ih =>
    refine (Allows.retain v).bind fun _ =>
      (writeSlot_allowed v (hs _ (Nat.le_refl _))).bind fun written => ?_
    cases written with
    | true => exact ih (start + 1) fun i hi => hs i (by omega)
    | false => exact fun m => hout m

theorem bindArguments_allowed {p : Prototype} {defaults : List Value} {count : Nat}
    (hb : R.Owns base) : R.Allows (bindArguments p defaults base count) := by
  unfold bindArguments
  split
  · exact packArguments_allowed hout hb
  · split
    · unfold fillDefaults
      dsimp only
      split
      · exact .fail _
      · exact (fillSlots_allowed hout _ _ fun i hi => hb i (by omega)).bind fun _ => .pure _
    · exact .pure _

theorem placeSlots_allowed (start : Nat) (vs : List Value) (hs : R.Owns start) :
    R.Allows (placeSlots start vs) := by
  induction vs generalizing start with
  | nil => exact .pure ()
  | cons v vs ih =>
    refine (writeSlot_allowed v (hs _ (Nat.le_refl _))).bind fun written => ?_
    cases written with
    | true => exact ih (start + 1) fun i hi => hs i (by omega)
    | false => exact fun m => hout m

end

theorem growTo_entering (top : Nat) : (entering base).Allows (growTo top) := by
  intro m
  refine .of_ok (growTo_eq m top) ⟨rfl, ?_, fun j _ hlt => ?_⟩
  · rw [Machine.size_pushed]
    omega
  · exact Array.getElem?_append_left hlt

/-- A frame for a function is on top, over its arguments. -/
structure Pushed (base : Nat) (target : Option Nat) (root : Bool) (m m' : Machine) : Prop where
  size : m.stack.size ≤ m'.stack.size
  below : ∀ j < base, j < m.stack.size → m'.stack[j]? = m.stack[j]?
  frames : ∃ closure prototype, m'.frames =
    ⟨closure, prototype, 0, base, if root then base else m.stack.size, target, root⟩ :: m.frames

theorem pushFrame_entering {r : Ref} {count : Nat} {target : Option Nat} {root : Bool} :
    (entering base).Leads (pushFrame r base count target root)
      (fun _ m' => Pushed base target root m m') m := by
  have hb : (entering base).Owns base := fun i hi => hi
  have hout : ∀ m, (entering base).cut .outsideStack m m := fun m _ _ _ => rfl
  refine .handing (.reading (t := anyTerms) checkDepth_reads fun _ _ => ?_)
  refine .next (updateHeap_eq m _) (beside _ rfl rfl) ?_
  refine .next (a := (m.heap.maybeCollect).closure? r) rfl (refl _ _) ?_
  split
  · exact Leads.of_fail rfl (refl _ _)
  · rename_i c _
    refine .next (heightBelow_eq base root _) (refl _ _) ?_
    refine (growTo_entering _ _).leads fun _ m1 _ h1 => ?_
    refine (bindArguments_allowed hout hb m1).leads fun bound m2 _ h2 => ?_
    refine (nullSlots_allowed _ _ (fun i hi => hb i (by omega)) m2).leads fun _ m3 _ h3 => ?_
    obtain ⟨hframes, hsize, hbelow⟩ := (entering base).trans h1 ((entering base).trans h2 h3)
    refine .of_ok rfl ⟨hsize, hbelow, r, c.prototype, ?_⟩
    exact congrArg (List.cons _) hframes

section

variable {target : Option Nat} {count : Nat} {i : Instruction} {call : Caller}

/-- The frame of a callee that goes back to the current height. -/
theorem Kept.pushed (hk : Kept low may l m) (hbase : low ≤ base)
    (htarget : ∀ t, target = some t → low ≤ t) (hp : Pushed base target false m m') :
    Kept low may l m' := by
  obtain ⟨closure, prototype, hframes⟩ := hp.frames
  refine ⟨?_, hk.low_le, hk.height.trans hp.size, hk.guarded.of_same fun j hj => ?_⟩
  · rw [hframes]
    exact .called hbase hk.height htarget rfl hk.frames
  · exact hp.below j (hj.trans_le hbase) (hj.trans_le hk.low_le_size)

theorem pushFrame_upholds {r : Ref} (hbase : low ≤ base)
    (htarget : ∀ t, target = some t → low ≤ t) :
    (upholding low may l).Allows (pushFrame r base count target false) := by
  refine fun m => Leads.weaken pushFrame_entering (fun _ m' hp hk => Kept.pushed hk hbase htarget hp)
    (fun m' hrel hk => ?_) fun _ m' hcut hk => hk.guarded.of_same fun j hj => ?_
  · exact hk.of_same hrel.1 (hk.height.trans hrel.2.1) fun j hj =>
      hrel.2.2 j (hj.trans_le hbase) (hj.trans_le hk.low_le_size)
  · exact hcut j (hj.trans_le hbase) (hj.trans_le hk.low_le_size)

theorem callInstruction_upholds (hc : (guarding low may).AllowsCalls call) (hbase : low ≤ base) :
    (upholding low may l).Allows (callInstruction call base i) := by
  intro m
  refine .reading (register_found base i.arg1) fun callee _ => ?_
  refine .reading (t := anyTerms) (registerSlot_reads False.elim) ?_
  rintro start ⟨-, rfl⟩
  refine .reading (t := anyTerms) (indexArg_reads False.elim) fun count _ => ?_
  refine .reading (t := anyTerms) (resultSlot_reads False.elim) fun target htarget => ?_
  split
  · rename_i c
    refine .next (show stackSize m = .ok m.stack.size m from rfl) (refl _ m) ?_
    split
    · exact (Allows.retain _).bind (fun _ => pushFrame_upholds (by omega)
        fun t ht => hbase.trans (htarget t ht).2.1) m
    · exact Allows.malformed _ m
  · exact callForeign_allowed (fun callee args m => upholding_of_guarding (hc callee args m))
      (fun j hj => hbase.trans hj) _ _ _ _ m

/-! ## Calling in place of a function -/

theorem writeSlot_inRange {j : Nat} (v : Value) (hj : j < m.stack.size) :
    ∃ m', writeSlot j v m = .ok true m' ∧ m'.stack.size = m.stack.size :=
  ⟨_, writeSlot_found v (Array.getElem?_eq_getElem hj), Array.size_setIfInBounds⟩

theorem placeSlots_inRange (start : Nat) (vs : List Value) (hin : start + vs.length ≤ m.stack.size) :
    ∃ m', placeSlots start vs m = .ok () m' ∧ m'.stack.size = m.stack.size := by
  induction vs generalizing start m with
  | nil => exact ⟨m, rfl, rfl⟩
  | cons v vs ih =>
    rw [List.length_cons] at hin
    obtain ⟨m1, heq, hsize⟩ := writeSlot_inRange (m := m) v (j := start) (by omega)
    obtain ⟨m2, heq2, hsize2⟩ := ih (m := m1) (start + 1) (by omega)
    refine ⟨m2, ?_, hsize2.trans hsize⟩
    unfold placeSlots
    rw [bind_ok m heq]
    exact heq2

/-- The machine without its current frame, whose captures are closed, when a callee
and its arguments are shared in. -/
def vacated (base : Nat) (c : Ref) (args : List Value) (m : Machine) : Machine :=
  ((m.withHeap (m.heap.retainAll (.closure c :: args))).closed base).withFrames m.frames.tail

theorem shrink_getElem? {s : Array Value} {j n : Nat} (hj : j < n) : (s.shrink n)[j]? = s[j]? := by
  rw [← Array.getElem?_toList, ← Array.getElem?_toList, Array.toList_shrink]
  exact List.getElem?_take_of_lt hj

/-- The current frame gives way: the arguments are placed at its base. -/
theorem vacate_found (base : Nat) (f : Frame) (c : Ref) (args : List Value)
    (hin : base + args.length ≤ m.stack.size) :
    ∃ m1, placeSlots base args (vacated base c args m) = .ok () m1 ∧
      vacate f base c args m = .ok () (m1.cut (max f.prevTop (base + args.length))) ∧
      m1.frames = m.frames.tail ∧ m1.stack.size = m.stack.size ∧
      ∀ j < base, m1.stack[j]? = m.stack[j]? := by
  obtain ⟨m1, hplace, hsize⟩ := placeSlots_inRange (m := vacated base c args m) base args hin
  have hrel := Leads.of_eq (placeSlots_allowed (R := entering base) (fun _ _ _ _ => rfl) base args
    (fun _ hj => hj) _) hplace
  refine ⟨m1, hplace, ?_, hrel.1, hsize, fun j hj => hrel.2.2 j hj ?_⟩
  · unfold vacate
    rw [bind_ok m (retainAll_eq m _), bind_ok _ (closeOuters_eq base _)]
    have hpop : (modify fun (m : Machine) => { m with frames := m.frames.tail } : Exec Unit)
        ((m.withHeap (m.heap.retainAll (.closure c :: args))).closed base) =
      .ok () (vacated base c args m) := rfl
    rw [bind_ok _ hpop, bind_ok _ hplace, truncate_eq]
  · show j < m.stack.size
    omega

/-- The callee takes the seat of the frame that gives way, or that frame is back in it. -/
theorem replace_upholds (hk : Kept low may l m) (hf : m.frames = f :: rest) (c : Ref)
    (args : List Value) (count : Nat) (hin : f.base + args.length ≤ m.stack.size) :
    (upholding low may l).AllowsAt (do
      vacate f f.base c args
      restoring (pushFrame c f.base count f.target f.root) (pushBack f)
      setPrevTop f.prevTop
      release (.closure f.closure)) m := by
  have hstacked := hk.frames
  rw [hf] at hstacked
  have hlow := hstacked.base_le
  obtain ⟨m1, -, hvacate, hframes, hsize, hbelow⟩ := vacate_found f.base f c args hin
  rw [hf, List.tail_cons] at hframes
  generalize htop : max f.prevTop (f.base + args.length) = top at hvacate
  have hprev := hstacked.height_le
  have hheight := hk.height
  -- the stack below and its height suffice, whatever becomes of the new frame
  have hcut : ∀ m2 : Machine, (entering f.base).cut .outsideStack (m1.cut top) m2 →
      ∀ j < low, m2.stack[j]? = m.stack[j]? := by
    intro m2 h j hj
    refine (h j (hj.trans_le hlow) ?_).trans ?_
    · rw [Machine.size_cut]
      omega
    · exact (shrink_getElem? (by omega)).trans (hbelow j (hj.trans_le hlow))
  have hpush : (entering f.base).Leads (pushFrame c f.base count f.target f.root)
      (fun _ m' => Pushed f.base f.target f.root (m1.cut top) m') (m1.cut top) := pushFrame_entering
  unfold Leads at hpush
  unfold AllowsAt Leads
  rw [bind_ok m hvacate]
  cases hact : pushFrame c f.base count f.target f.root (m1.cut top) with
  | ok a m2 =>
    rw [hact] at hpush
    obtain ⟨closure, prototype, hframes2⟩ := hpush.frames
    rw [Machine.cut_frames, hframes] at hframes2
    rw [bind_ok _ (restoring_ok _ hact), bind_ok _ (setPrevTop_eq f.prevTop hframes2), release_eq]
    have hsize2 := hpush.size
    rw [Machine.size_cut] at hsize2
    refine fun _ => ⟨hstacked.replace rfl rfl rfl rfl, hk.low_le, ?_,
      hk.guarded.of_same (hcut m2 hpush.below)⟩
    show l.height ≤ m2.stack.size
    omega
  | error fault m2 =>
    rw [hact] at hpush
    rw [bind_error _ (restoring_error _ hact)]
    cases fault with
    | script e =>
      obtain ⟨hframes2, hsize2, hbelow2⟩ := hpush
      rw [Machine.size_cut] at hsize2
      refine fun _ => hk.of_same ?_ ?_ (hcut (pushBack f m2) hbelow2)
      · show f :: m2.frames = m.frames
        rw [hframes2, Machine.cut_frames, hframes, hf]
      · show l.height ≤ m2.stack.size
        omega
    | outsideStack | outOfSteps => exact fun _ => hk.guarded.of_same (hcut (pushBack f m2) hpush)

theorem tailCallInstruction_upholds (hc : (guarding low may).AllowsCalls call)
    (hf : m.frames = f :: rest) (hbase : f.base = base) :
    (upholding low may l).AllowsAt (tailCallInstruction call base i) m := by
  by_cases hk : Kept low may l m
  swap
  · exact .of_free (fun _ h => absurd h hk) fun _ _ h => absurd h hk
  subst hbase
  refine .reading (register_found f.base i.arg1) ?_
  rintro callee -
  split
  · refine .reading (t := anyTerms) (registerSlot_reads False.elim) ?_
    rintro start ⟨-, rfl⟩
    refine .reading (t := anyTerms) (indexArg_reads False.elim) fun count _ => ?_
    refine .reading (window_found _ _) fun args hwindow => ?_
    refine .next (currentFrame_eq hf) (refl _ m) ?_
    exact replace_upholds hk hf _ args count (by omega)
  · have hstacked := hk.frames
    rw [hf] at hstacked
    exact callInstruction_upholds hc hstacked.base_le m

end

/-! ## Storing through a cell -/

theorem outerCell_found (hf : m.frames = f :: rest) (index : Int64) :
    Reads anyTerms (outerCell index) (fun cell => 0 ≤ index ∧ ∃ c,
      m.heap.closure? f.closure = some c ∧ c.outers[index.toInt.toNat]? = some cell) m := by
  unfold outerCell
  refine .bind (indexArg_reads False.elim) ?_
  rintro k ⟨hpos, rfl⟩
  have houters : Reads anyTerms currentOuters (fun cells => ∀ cell,
      cells[index.toInt.toNat]? = some cell → ∃ c, m.heap.closure? f.closure = some c ∧
        c.outers[index.toInt.toNat]? = some cell) m := by
    unfold currentOuters
    refine .bind (G := fun g => g = f) (.inl ⟨f, currentFrame_eq hf, rfl⟩) ?_
    rintro _ rfl
    refine .bind (G := fun o => o = m.heap.closure? _) (.inl ⟨_, rfl, rfl⟩) ?_
    rintro _ rfl
    split
    · exact .pure fun cell hcell => ⟨_, ‹_›, hcell⟩
    · exact .pure fun cell hcell => by cases hcell
  refine .bind houters fun cells hcells => ?_
  split
  · exact .pure ⟨hpos, hcells _ ‹_›⟩
  · exact .malformed id

theorem setOuterInstruction_upholds {i : Instruction} (hf : m.frames = f :: rest)
    (hbase : low ≤ base)
    (hst : ∀ c, m.heap.closure? f.closure = some c → ∀ slot v, StoresTo i c base m slot v →
      may slot v) : (upholding low may l).AllowsAt (setOuterInstruction base i) m := by
  refine .reading (outerCell_found hf i.arg1) fun cell hcell => ?_
  refine .reading (register_found base i.arg2) fun v hv => ?_
  obtain ⟨hpos, c, hc, hcell⟩ := hcell
  refine .next (retainAll_eq m _) (beside _ rfl rfl) (.next (writeOuter_eq cell v _) ?_
    (setOptional_allowed base i.arg0 v (fun j hj => hbase.trans hj) _))
  have hindex : (m.heap.retainAll [v, v]).stackIndex? cell = m.heap.stackIndex? cell := by
    simp only [Heap.stackIndex?, Heap.outerState?, Heap.retainAll, List.foldl_cons, List.foldl_nil,
      Heap.body?_retain]
  intro hk
  rcases OpenOuters.write_stack (m.heap.retainAll [v, v]) cell m.stack v with hs | ⟨slot, hslot, hs⟩
  · exact hk.of_same rfl (hk.height.trans_eq (congrArg Array.size hs).symm) fun _ _ => by
      exact congrArg (fun s : Array Value => s[_]?) hs
  · have hmay := hst c hc slot v ⟨hpos, hv.1, ⟨cell, hcell, hindex ▸ hslot⟩, hv.2⟩
    refine ⟨hk.frames, hk.low_le, hk.height.trans_eq ?_, ?_⟩
    · exact ((congrArg Array.size hs).trans Array.size_setIfInBounds).symm
    · have hg := hk.guarded.write v (.inr hmay)
      exact hg.of_same fun j _ => congrArg (fun s : Array Value => s[j]?) hs

end Exec

end ScriptMachine
