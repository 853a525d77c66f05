import ScriptMachine.Proofs.Machine.Natives
import ScriptMachine.Proofs.Machine.Stack

/-!
# Entering functions

The arguments are bound on a stack that has grown to the height of the new
frame. When the function is refused, the stack stays grown and nothing below the
arguments has changed.
-/

set_option autoImplicit false

namespace ScriptMachine

namespace Exec

variable {t : Terms} {s : Scope} {own : List Value} {m : Machine}

theorem Meets.outside {α : Type} {Q : α → Machine → Prop} {F : ScriptError → Machine → Prop}
    (h : ¬ t.strict) :
    Meets t (throw .outsideStack : Exec α) (throw .outsideStack) Q F m := ⟨rfl, h⟩

/-! ## Binding arguments -/

theorem takeSlot_found {i : Nat} {v : Value} (h : m.stack[i]? = some v) :
    takeSlot i m = .ok (some v) { m with stack := m.stack.setIfInBounds i .null } := by
  unfold takeSlot
  rw [bind_ok m (show slot? i m = .ok (some v) m by rw [← h]; rfl)]
  rfl

theorem takeSlots_spec (start count : Nat) (hm : m.Within t s own)
    (hw : ∀ i, start ≤ i → s.reach.writes i) (hin : start + count ≤ m.stack.size) :
    ∃ vs m', takeSlots start count m = .ok vs m' ∧ m'.Within t s (vs ++ own) := by
  induction count generalizing start own m with
  | zero => exact ⟨[], m, rfl, hm⟩
  | succ count ih =>
    obtain ⟨v, hv⟩ : ∃ v, m.stack[start]? = some v :=
      ⟨_, Array.getElem?_eq_getElem (by omega)⟩
    have hm1 := (hm.own_plain (v := .null) rfl).exchange (.inl (hw start (Nat.le_refl _))) hv
    obtain ⟨vs, m2, heq, hm2⟩ := ih (start + 1) hm1 (fun i hi => hw i (by omega))
      (by rw [Array.size_setIfInBounds]; omega)
    refine ⟨v :: vs, m2, ?_, hm2.perm List.perm_middle.symm⟩
    unfold takeSlots
    rw [bind_ok m (takeSlot_found hv)]
    simp only
    rw [bind_ok _ heq]
    rfl

theorem packArguments_keeps {p : Prototype} {base count : Nat} (hm : m.Within t s own)
    (hw : ∀ i, base ≤ i → s.reach.writes i) (hin : base + count ≤ m.stack.size)
    (hp : base + p.parameters.length ≤ m.stack.size) (hs : t.strict → p.parameters ≠ []) :
    Keeps t s own (packArguments p base count) (packArguments p base count) (fun _ => []) m := by
  unfold packArguments
  dsimp only
  split
  · exact .fail hm ErrorKind.noConfusion
  · obtain ⟨vs, m1, heq, hm1⟩ := takeSlots_spec (base + (p.parameters.length - 1))
      (count - (p.parameters.length - 1)) hm (fun i hi => hw i (by omega)) (by omega)
    refine .next heq (.next (heap_eq m1 _) ?_)
    have hm2 : (m1.withHeap (m1.heap.newArray vs.toArray).2).Within t s
        ((m1.heap.newArray vs.toArray).1 :: own) :=
      hm1.heap_cons (Heap.Backs.newArray (by rw [List.toList_toArray]; exact hm1.backs_append))
    rcases writeSlot_cases hm2 (hw _ (Nat.le_add_right base _)) with ⟨hsize, h⟩ | ⟨m3, -, h, hm3⟩
    · refine .next h (Meets.outside fun ht => ?_)
      have hpos := List.length_pos_iff.2 (hs ht)
      have h1 := hm2.size
      have h2 := hm.size
      omega
    · exact .next h (.pure hm3)

/-- Shared values fill slots as long as someone else holds them. -/
theorem fillSlots_spec (start : Nat) (vs : List Value) (hm : m.Within t s own)
    (hv : ∀ m' : Machine, m'.Within t s own → ∀ v ∈ vs, m'.heap.Has v)
    (hw : ∀ i, start ≤ i → s.reach.writes i) (hin : start + vs.length ≤ m.stack.size) :
    ∃ m', fillSlots start vs m = .ok () m' ∧ m'.Within t s own := by
  induction vs generalizing start m with
  | nil => exact ⟨m, rfl, hm⟩
  | cons v vs ih =>
    rw [List.length_cons] at hin
    have hm1 := hm.retain (hv m hm v List.mem_cons_self)
    have hsize := hm.size
    rcases writeSlot_cases hm1 (hw start (Nat.le_refl _)) with ⟨hout, -⟩ | ⟨m2, -, h, hm2⟩
    · simp only [Machine.withHeap_stack] at hout
      omega
    · obtain ⟨m3, heq, hm3⟩ := ih (start + 1) hm2
        (fun m' hm' w hw' => hv m' hm' w (List.mem_cons_of_mem _ hw')) (fun i hi => hw i (by omega))
        (by rw [hm2.size]; omega)
      refine ⟨m3, ?_, hm3⟩
      unfold fillSlots
      rw [bind_ok m (retain_eq m v), bind_ok _ h]
      exact heq

/-- The default values of a function live as long as it does. -/
theorem has_default {r : Ref} {c : ClosureObject} (hm : m.Within t s own)
    (hr : .closure r ∈ own) (hc : s.start.heap.closure? r = some c) {v : Value}
    (hv : v ∈ c.defaults) : m.heap.Has v := by
  have hc' := hm.drifts.keeps_closure hc (hm.has hr)
  exact hm.has_body (Heap.closure?_eq_some.1 hc') (by simp [Body.values, hv])

theorem fillDefaults_keeps {r : Ref} {c : ClosureObject} {p : Prototype} {base count : Nat}
    (hm : m.Within t s own) (hr : .closure r ∈ own) (hc : s.start.heap.closure? r = some c)
    (hw : ∀ i, base ≤ i → s.reach.writes i) (hp : base + p.parameters.length ≤ m.stack.size) :
    Keeps t s own (fillDefaults p c.defaults base count) (fillDefaults p c.defaults base count)
      (fun _ => []) m := by
  unfold fillDefaults
  dsimp only
  split
  · exact .fail hm ErrorKind.noConfusion
  · rename_i hcount
    have hlen : (c.defaults.drop (c.defaults.length - (p.parameters.length - count))).length =
        p.parameters.length - count := by
      rw [List.length_drop]
      omega
    obtain ⟨m1, heq, hm1⟩ := fillSlots_spec (base + count)
      (c.defaults.drop (c.defaults.length - (p.parameters.length - count))) hm
      (fun m' hm' v hv => has_default hm' hr hc (List.mem_of_mem_drop hv))
      (fun i hi => hw i (by omega)) (by rw [hlen]; omega)
    exact .next heq (.pure hm1)

theorem bindArguments_keeps {r : Ref} {c : ClosureObject} {base count : Nat}
    (hm : m.Within t s own) (hr : .closure r ∈ own) (hc : s.start.heap.closure? r = some c)
    (hw : ∀ i, base ≤ i → s.reach.writes i)
    (hin : frameTop c.prototype base count ≤ m.stack.size) :
    Keeps t s own (bindArguments c.prototype c.defaults base count)
      (bindArguments c.prototype c.defaults base count) (fun _ => []) m := by
  unfold frameTop at hin
  unfold bindArguments
  split
  · refine packArguments_keeps hm hw (by omega) (by omega) fun ht => ?_
    have hc' := hm.drifts.keeps_closure hc (hm.has hr)
    exact (hm.law_closure hc' ht).1.parameters
  · split
    · exact fillDefaults_keeps hm hr hc hw (by omega)
    · exact .pure hm

end Exec

/-! ## The frame -/

namespace Machine

variable {t : Terms} {own : List Value} {m : Machine} {reach : Reach}

/-- A frame holds the reference to its function. -/
theorem withFrames_backing (f : Frame) (rest : List Frame) :
    (own : Multiset Value) + ((t.host : Multiset Value) + (m.withFrames (f :: rest)).roots) =
      ((.closure f.closure :: own : List Value) : Multiset Value) +
        ((t.host : Multiset Value) + (m.withFrames rest).roots) := by
  simp only [roots, anchors, withFrames, List.map_cons, coe_cons_add, Multiset.add_cons,
    Multiset.cons_add]

theorem Tidy.pushed_frame {f : Frame} {c : ClosureObject}
    (hm : m.Tidy t (.closure f.closure :: own)) (hc : m.heap.closure? f.closure = some c)
    (hp : c.prototype = f.prototype)
    (hd : m.frames.length + m.nativeDepth < m.config.maxCallDepth) :
    (m.withFrames (f :: m.frames)).Tidy t own := by
  refine ⟨?_, hm.cells, fun g hg => ?_, ?_⟩
  · show m.heap.Backs t.law _
    rw [withFrames_backing]
    exact hm.backs
  · rcases List.mem_cons.1 hg with rfl | hg
    · exact ⟨c, hc, hp⟩
    · exact hm.running g hg
  · show (f :: m.frames).length + m.nativeDepth ≤ m.config.maxCallDepth
    rw [List.length_cons]
    omega

theorem Tidy.popped_frame {f : Frame} {rest : List Frame} (hm : m.Tidy t own)
    (hf : m.frames = f :: rest) : (m.withFrames rest).Tidy t (.closure f.closure :: own) := by
  refine ⟨?_, hm.cells, fun g hg => hm.running g (hf ▸ List.mem_cons_of_mem f hg), ?_⟩
  · have hb := hm.backs
    rw [show m = m.withFrames (f :: rest) by rw [← hf]; rfl, withFrames_backing] at hb
    exact hb
  · have hd := hm.depth
    rw [hf, List.length_cons] at hd
    show rest.length + m.nativeDepth ≤ m.config.maxCallDepth
    omega

end Machine

namespace Exec

variable {t : Terms} {own : List Value} {m : Machine}

/-- What an attempt to enter a function may change. -/
def entryReach (base : Nat) : Reach := ⟨(base ≤ ·), fun _ => False⟩

/-- A function has been entered over its arguments. -/
structure Entered (t : Terms) (own : List Value) (closure : Ref) (base : Nat)
    (target : Option Nat) (outside : Bool) (m m' : Machine) : Prop extends
    m'.Tidy t own, Machine.Follows t (entryReach base) m m' where
  size : m.stack.size ≤ m'.stack.size
  frames : ∃ prototype, base + prototype.stackSize ≤ m'.stack.size ∧ m'.frames =
    ⟨closure, prototype, 0, base, if outside then base else m.stack.size, target, outside⟩ ::
      m.frames

/-- A function has been refused. -/
structure Refused (t : Terms) (own : List Value) (base : Nat) (m : Machine) (e : ScriptError)
    (m' : Machine) : Prop extends m'.Tidy t own, Machine.Follows t (entryReach base) m m' where
  size : m.stack.size ≤ m'.stack.size
  frames : m'.frames = m.frames
  decent : t.strict → ¬ e.Raw

theorem Refused.of_within {r : Ref} {base : Nat} {e : ScriptError} {m0 m1 m2 : Machine}
    (hm : m2.Within t (.still m1 (entryReach base)) (.closure r :: own))
    (hf : Machine.Follows t (entryReach base) m0 m1) (hsize : m0.stack.size ≤ m1.stack.size)
    (hframes : m1.frames = m0.frames) (he : t.strict → ¬ e.Raw) :
    Refused t own base m0 e (m2.withHeap (m2.heap.release (.closure r))) := by
  have hrel := hm.release
  refine ⟨hrel.toTidy, hf.trans hrel.toFollows, ?_, hrel.frames_still.trans hframes, he⟩
  rw [hrel.size]
  exact hsize

theorem heightBelow_eq (base : Nat) (outside : Bool) (m : Machine) :
    heightBelow base outside m = .ok (if outside then base else m.stack.size) m := by
  cases outside <;> rfl

theorem pushFrame_meets {r : Ref} {base count : Nat} {target : Option Nat} {outside : Bool}
    (hm : m.Tidy t (.closure r :: own)) (hin : base ≤ m.stack.size) :
    Meets t (pushFrame r base count target outside) (pushFrame r base count target outside)
      (fun _ m' => Entered t own r base target outside m m') (Refused t own base m) m := by
  unfold pushFrame
  refine Meets.handing ?_
  have hstart : m.Within t (.still m (entryReach base)) (.closure r :: own) := .of_start hm
  have hdepth : Reads t checkDepth _ m := checkDepth_reads
  rcases hdepth with ⟨⟨⟩, hok, hdepth⟩ | ⟨e, he, hraw⟩
  swap
  · exact Meets.bind (Meets.of_error he (.of_within hstart (.refl m) (Nat.le_refl _) rfl hraw))
  refine Meets.next hok (Meets.next (updateHeap_eq m _) ?_)
  have hm1 : (m.withHeap m.heap.maybeCollect).Within t (.still m (entryReach base))
      (.closure r :: own) := hstart.heap hstart.backs.maybeCollect
  obtain ⟨c, hbody⟩ := (hm1.has List.mem_cons_self).closure
  have hc := Heap.closure?_eq_some.2 hbody
  have hframes1 := hm1.frames_still
  have hsize1 : (m.withHeap m.heap.maybeCollect).stack.size = m.stack.size := hm1.size
  generalize m.withHeap m.heap.maybeCollect = m1 at hm1 hc hframes1 hsize1 ⊢
  have hread : readHeap (fun (h : Heap) => h.closure? r) m1 = .ok (some c) m1 := by
    rw [← hc]
    rfl
  refine Meets.next hread ?_
  refine Meets.next (heightBelow_eq base outside m1) (Meets.next (growTo_eq m1 _) ?_)
  -- from here on the stack has the height of the new frame
  have hsize2 := Machine.size_pushed m1
    (List.replicate (frameTop c.prototype base count - m1.stack.size) .null)
  rw [List.length_replicate] at hsize2
  have hc2 : (m1.pushed (List.replicate (frameTop c.prototype base count - m1.stack.size)
      .null)).heap.closure? r = some c := hc
  have hframes2 : (m1.pushed (List.replicate (frameTop c.prototype base count - m1.stack.size)
      .null)).frames = m.frames := hframes1
  have htidy2 := (hm1.toTidy.own_nulls (frameTop c.prototype base count - m1.stack.size)).pushed
  have hfollows2 : Machine.Follows t (entryReach base) m (m1.pushed
      (List.replicate (frameTop c.prototype base count - m1.stack.size) .null)) := by
    refine hm1.toFollows.trans (.pushed fun i hi => ?_)
    show base ≤ i
    omega
  generalize m1.pushed (List.replicate (frameTop c.prototype base count - m1.stack.size) .null) =
    m2 at hsize2 hc2 hframes2 htidy2 hfollows2 ⊢
  have hm2 : m2.Within t (.still m2 (entryReach base)) (.closure r :: own) := .of_start htidy2
  have hrefuse : ∀ e m3, Fails t (.still m2 (entryReach base)) (.closure r :: own) e m3 →
      Refused t own base m e (m3.withHeap (m3.heap.release (.closure r))) :=
    fun e m3 he => .of_within he.1 hfollows2 (by omega) hframes2 he.2
  refine Meets.bind (Meets.mono (bindArguments_keeps hm2 List.mem_cons_self hc2
    (fun i hi => hi) (by omega)) (fun bound m3 hm3 => ?_) hrefuse)
  refine Meets.bind (Meets.mono (Keeps.nullSlots _ _ hm3 fun i hi => ?_)
    (fun _ m4 hm4 => ?_) hrefuse)
  · show base ≤ i
    omega
  have hfollows4 := hfollows2.trans hm4.toFollows
  have hframes4 : m4.frames = m.frames := hm4.frames_still.trans hframes2
  have hsize4 : m4.stack.size = m2.stack.size := hm4.size
  have hc4 := hm4.drifts.keeps_closure hc2 (hm4.has List.mem_cons_self)
  have htidy5 := hm4.toTidy.pushed_frame
    (f := ⟨r, c.prototype, 0, base, if outside then base else m1.stack.size, target, outside⟩) hc4 rfl
    (by rw [hframes4, hfollows4.nativeDepth, hfollows4.config]; exact hdepth)
  refine Meets.of_ok (a := ()) rfl ⟨htidy5, hfollows4.trans (.withFrames _), ?_, c.prototype, ?_, ?_⟩
  · show m.stack.size ≤ m4.stack.size
    omega
  · show base + c.prototype.stackSize ≤ m4.stack.size
    simp only [frameTop] at hsize2
    omega
  · rw [← hframes4, ← hsize1]

end Exec

end ScriptMachine
