import ScriptMachine.Proofs.Machine.Entering

/-!
# Leaving functions

The frames above an entry into the instruction loop are seated one upon the
other: each goes back to a height that has room for its caller, and the lowest
goes back to the height of the entry. Leaving them, one or all, restores it.
-/

set_option autoImplicit false

namespace ScriptMachine

/-- Frames over a height, with the height above them. -/
inductive Seated (low : Nat) : Nat → List Frame → Prop
  | root {top : Nat} {f : Frame} (hroot : f.root = true) (hbase : f.base = low)
      (hprev : f.prevTop = low) (htop : low ≤ top) : Seated low top [f]
  | called {top : Nat} {f g : Frame} {rest : List Frame} (hroot : f.root = false)
      (hbase : low ≤ f.base) (htop : f.prevTop ≤ top)
      (htarget : ∀ i, f.target = some i → low ≤ i ∧ i < f.prevTop)
      (hroom : g.base + g.prototype.stackSize ≤ f.prevTop)
      (hrest : Seated low f.prevTop (g :: rest)) : Seated low top (f :: g :: rest)

namespace Seated

variable {low top top' : Nat} {f f' : Frame} {seg : List Frame}

theorem base_le (h : Seated low top (f :: seg)) : low ≤ f.base := by
  cases h with
  | root _ hbase _ _ => exact Nat.le_of_eq hbase.symm
  | called _ hbase _ _ _ _ => exact hbase

theorem prevTop_le (h : Seated low top (f :: seg)) : f.prevTop ≤ top := by
  cases h with
  | root _ _ hprev htop => omega
  | called _ _ htop _ _ _ => exact htop

/-- Another height above the frames. -/
theorem under (h : Seated low top (f :: seg)) (hle : f.prevTop ≤ top') :
    Seated low top' (f :: seg) := by
  cases h with
  | root hroot hbase hprev htop => exact .root hroot hbase hprev (by omega)
  | called hroot hbase htop htarget hroom hrest =>
    exact .called hroot hbase hle htarget hroom hrest

/-- A frame takes the seat of another. -/
theorem replace (h : Seated low top (f :: seg)) (hbase : f'.base = f.base)
    (hprev : f'.prevTop = f.prevTop) (htarget : f'.target = f.target) (hroot : f'.root = f.root) :
    Seated low top (f' :: seg) := by
  cases h with
  | root hr hb hp htop => exact .root (hroot.trans hr) (hbase.trans hb) (hprev.trans hp) htop
  | called hr hb htop ht hroom hrest =>
    rw [← hprev] at htop ht hroom hrest
    rw [← htarget] at ht
    exact .called (hroot.trans hr) (hbase ▸ hb) htop ht hroom hrest

end Seated

namespace Machine

variable {t : Terms} {own : List Value} {m : Machine} {reach : Reach}

/-- The machine after a frame is left. -/
def left (m : Machine) (f : Frame) (rest : List Frame) : Machine :=
  ((m.withFrames rest).closed f.base).cut f.prevTop

section

variable {f : Frame} {rest : List Frame}

@[simp] theorem left_frames (m : Machine) : (m.left f rest).frames = rest := rfl

theorem size_left (m : Machine) (f : Frame) (rest : List Frame) :
    (m.left f rest).stack.size = min f.prevTop m.stack.size :=
  size_cut _ _

theorem Tidy.left (hm : m.Tidy t own) (hf : m.frames = f :: rest) :
    (m.left f rest).Tidy t (.closure f.closure :: own) :=
  ((hm.popped_frame hf).closed f.base).cut f.prevTop

theorem Tidy.follows_left (hm : m.Tidy t own) (hf : m.frames = f :: rest) :
    Follows t reach m (m.left f rest) :=
  (Follows.withFrames rest).trans (((hm.popped_frame hf).follows_closed f.base).trans
    (((hm.popped_frame hf).closed f.base).follows_cut f.prevTop))

theorem Tidy.opened_left (hm : m.Tidy t own) (hf : m.frames = f :: rest) {c : Ref} {i : Nat}
    (hc : (m.left f rest).heap.outerState? c = some (.opened i)) : i < f.base :=
  ((hm.popped_frame hf).opened_closed
    (((hm.popped_frame hf).closed f.base).opened_cut hc)).2

end

end Machine

namespace Exec

variable {t : Terms} {own : List Value} {m : Machine}

theorem leaveFrame_eq (f : Frame) (rest : List Frame) (m : Machine) :
    leaveFrame f rest m = .ok () (m.left f rest) := by
  unfold leaveFrame
  have hpop : (modify fun (m : Machine) => { m with frames := rest } : Exec Unit) m =
    .ok () (m.withFrames rest) := rfl
  rw [bind_ok m hpop, bind_ok _ (closeOuters_eq f.base _)]
  exact truncate_eq _ _

/-- What is left of an entry into the instruction loop. -/
structure Cleared (t : Terms) (own : List Value) (low : Nat) (frames : List Frame)
    (m m' : Machine) : Prop extends m'.Tidy t own, Machine.Follows t .nothing m m' where
  frames : m'.frames = frames
  size : m'.stack.size = low
  below : ∀ r i, m'.heap.outerState? r = some (.opened i) → i < low

/-- The frame that was entered from outside is left. -/
theorem Cleared.of_root {f : Frame} {rest : List Frame} {low : Nat} (hm : m.Tidy t own)
    (hf : m.frames = f :: rest) (hbase : f.base = low) (hprev : f.prevTop = low)
    (htop : low ≤ m.stack.size) :
    Cleared t (.closure f.closure :: own) low rest m (m.left f rest) := by
  refine ⟨hm.left hf, hm.follows_left hf, rfl, ?_, fun r i hr => hbase ▸ hm.opened_left hf hr⟩
  rw [Machine.size_left, hprev]
  omega

theorem Cleared.release {v : Value} {low : Nat} {frames : List Frame} {m' : Machine}
    (h : Cleared t (v :: own) low frames m m') :
    Cleared t own low frames m (m'.withHeap (m'.heap.release v)) := by
  have hmoves := h.toTidy.backs_cons.release
  exact ⟨h.toTidy.release, h.toFollows.trans (.heap hmoves.evolves), h.frames, h.size,
    fun r i hr => h.below r i (hmoves.evolves.opened hr)⟩

theorem Cleared.after {low : Nat} {frames : List Frame} {m' m'' : Machine}
    (h : Cleared t own low frames m' m'') (hf : Machine.Follows t .nothing m m') :
    Cleared t own low frames m m'' :=
  ⟨h.toTidy, hf.trans h.toFollows, h.frames, h.size, h.below⟩

/-! ## Unwinding -/

/-- An error leaves all frames of an entry. -/
theorem unwindFrames_spec {low : Nat} {seg rest : List Frame} {e : ScriptError}
    (hseat : Seated low m.stack.size seg) (hm : m.Tidy t own) (hf : m.frames = seg ++ rest) :
    ∃ e' m', unwindFrames (seg ++ rest) e m = .ok e' m' ∧ Cleared t own low rest m m' ∧ ¬ e'.Raw := by
  generalize htop : m.stack.size = top at hseat
  induction hseat generalizing e m with
  | @root top f hroot hbase hprev hle =>
    have hcleared := Cleared.of_root hm hf hbase hprev (by omega)
    refine ⟨_, _, ?_, hcleared.release, ScriptError.leave_not_raw e f.traceEntry⟩
    show unwindFrames (f :: rest) e m = _
    unfold unwindFrames
    rw [bind_ok m (leaveFrame_eq f rest m), bind_ok _ (release_eq _ _)]
    simp only [hroot, if_true]
    rfl
  | @called top f g rest' hroot hbase hle htarget hroom hrest ih =>
    have hf' : m.frames = f :: ((g :: rest') ++ rest) := hf
    have hleft := hm.left hf'
    have hsize := Machine.size_left m f ((g :: rest') ++ rest)
    obtain ⟨e', m', heq, hcleared, hraw⟩ := ih (e := e.leave f.traceEntry)
      (m := (m.left f ((g :: rest') ++ rest)).withHeap
        ((m.left f ((g :: rest') ++ rest)).heap.release (.closure f.closure)))
      hleft.release rfl (by rw [Machine.withHeap_stack, hsize]; omega)
    refine ⟨e', m', ?_, hcleared.after ((hm.follows_left hf').trans hleft.follows_release), hraw⟩
    show unwindFrames (f :: ((g :: rest') ++ rest)) e m = _
    rw [unwindFrames, bind_ok m (leaveFrame_eq f _ m), bind_ok _ (release_eq _ _)]
    simp only [hroot]
    exact heq

end Exec

end ScriptMachine
