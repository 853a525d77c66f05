import ScriptMachine.Proofs.Machine.Leaving

/-!
# Running above an entry

While instructions run, the frames above the entry are seated, and the current
function has room for its registers. When the last of the frames is left, the
machine is as it was at the entry, apart from what was stored through cells.
-/

set_option autoImplicit false

namespace ScriptMachine

namespace Machine

variable {t : Terms} {s : Scope} {own own' : List Value} {m0 m m' : Machine}

/-- The machine runs functions above the state of an entry. -/
structure Above (t : Terms) (m0 : Machine) (own : List Value) (m : Machine) : Prop extends
    m.Tidy t own, Follows t (.upFrom m0.stack.size) m0 m where
  seated : ∃ seg, m.frames = seg ++ m0.frames ∧ Seated m0.stack.size m.stack.size seg

/-- The registers of the current function are there. -/
def Roomy (m : Machine) : Prop :=
  ∀ f rest, m.frames = f :: rest → f.base + f.prototype.stackSize ≤ m.stack.size

namespace Above

/-- The current function, with what lies below it. -/
theorem current (hm : Machine.Above t m0 own m) : ∃ f seg c, m.frames = f :: (seg ++ m0.frames) ∧
    Seated m0.stack.size m.stack.size (f :: seg) ∧ m.heap.closure? f.closure = some c ∧
      f.prototype = c.prototype := by
  obtain ⟨seg, hframes, hseat⟩ := hm.seated
  cases seg with
  | nil => cases hseat
  | cons f seg =>
    obtain ⟨c, hc, hp⟩ := hm.running f (hframes ▸ List.mem_cons_self)
    exact ⟨f, seg, c, hframes, hseat, hc, hp.symm⟩

/-- The machine goes on from there, with frames that are seated. -/
theorem step {f f' : Frame} {seg seg' : List Frame} (hm : Machine.Above t m0 own m)
    (hseat : Seated m0.stack.size m.stack.size (f :: seg))
    {reach : Reach} (hm' : m'.Tidy t own') (hfollows : Follows t reach m m')
    (hwrites : ∀ i, reach.writes i → f.base ≤ i) (hopens : ∀ i, reach.opens i → f.base ≤ i)
    (hframes' : m'.frames = f' :: (seg' ++ m0.frames))
    (hseat' : Seated m0.stack.size m'.stack.size (f' :: seg')) : Machine.Above t m0 own' m' := by
  have hbase := hseat.base_le
  refine ⟨hm', hm.toFollows.trans (hfollows.narrow (fun i hi _ => ?_) fun r i hi _ => ?_),
    f' :: seg', hframes', hseat'⟩
  · exact Nat.le_trans hbase (hwrites i hi)
  · exact Nat.le_trans hbase (hopens i hi)

/-- An effect on the registers of the current function. -/
theorem of_within {f : Frame} {rest : List Frame} {jumps : Prop} (hm : Machine.Above t m0 own m)
    (hf : m.frames = f :: rest) (hm' : m'.Within t ⟨m, .upFrom f.base, jumps⟩ own') :
    Machine.Above t m0 own' m' := by
  obtain ⟨g, seg, -, hframes, hseat, -, -⟩ := hm.current
  obtain ⟨rfl, rfl⟩ := List.cons_eq_cons.1 (hf.symm.trans hframes)
  have hsize : m'.stack.size = m.stack.size := hm'.size
  rcases hm'.frames with heq | ⟨-, g, rest, ip, heq, heq'⟩
  · refine hm.step hseat hm'.toTidy hm'.toFollows (fun _ hi => hi) (fun _ hi => hi)
      (heq.trans hframes) ?_
    rw [hsize]
    exact hseat
  · obtain ⟨rfl, rfl⟩ := List.cons_eq_cons.1 (hf.symm.trans heq)
    refine hm.step hseat hm'.toTidy hm'.toFollows (fun _ hi => hi) (fun _ hi => hi) heq' ?_
    rw [hsize]
    exact hseat.replace rfl rfl rfl rfl

theorem roomy_of_within {f : Frame} {rest : List Frame} {jumps : Prop} (hr : m.Roomy)
    (hf : m.frames = f :: rest) (hm' : m'.Within t ⟨m, .upFrom f.base, jumps⟩ own') : m'.Roomy := by
  have hsize : m'.stack.size = m.stack.size := hm'.size
  have hroom := hr f rest hf
  intro g rest' hg
  rcases hm'.frames with heq | ⟨-, g', rest'', ip, heq, heq'⟩
  · obtain ⟨rfl, rfl⟩ := List.cons_eq_cons.1 (hg.symm.trans (heq.trans hf))
    omega
  · obtain ⟨rfl, rfl⟩ := List.cons_eq_cons.1 (hf.symm.trans heq)
    obtain ⟨rfl, rfl⟩ := List.cons_eq_cons.1 (hg.symm.trans heq')
    show f.base + f.prototype.stackSize ≤ m'.stack.size
    omega

/-- The current function runs its instructions with its registers at its base. -/
theorem runs {f : Frame} {rest : List Frame} {c : ClosureObject} {jumps : Prop} (hr : m.Roomy)
    (hf : m.frames = f :: rest) (hc : m.heap.closure? f.closure = some c)
    (hp : f.prototype = c.prototype) : Scope.Runs ⟨m, .upFrom f.base, jumps⟩ c f.base :=
  ⟨fun _ hi => hi, fun _ hi => hi, hp ▸ hr f rest hf, f, rest, hf, hp, hc⟩

end Above

end Machine

namespace Exec

variable {t : Terms} {s : Scope} {own own' : List Value} {m0 m m' : Machine}

/-- Once all frames are left, only stores through cells remain of the run. -/
theorem Cleared.ended (h : Cleared t own' m0.stack.size m0.frames m m')
    (hm : Machine.Above t m0 own m) : m'.Within t (.still m0 .nothing) own' := by
  refine ⟨h.toTidy, (hm.toFollows.trans h.toFollows.of_nothing).narrow (fun i hi hlt => ?_)
    fun r i hi hr => ?_, .inl h.frames, h.size⟩
  · have hle : m0.stack.size ≤ i := hi
    have hsize := h.size
    show False
    omega
  · have hle : m0.stack.size ≤ i := hi
    have hlt := h.below r i hr
    show False
    omega

/-! ## Errors -/

/-- What is left when an instruction fails. -/
structure Broken (t : Terms) (m0 : Machine) (own : List Value) (e : ScriptError) (m : Machine) :
    Prop extends Machine.Above t m0 own m where
  decent : t.strict → ¬ e.Raw

theorem unwinding_meets {α : Type} {e : ScriptError} (hm : Machine.Above t m0 own m)
    {Q : α → Machine → Prop} : Meets t (unwinding (.script e) : Exec α) (unwinding (.script e)) Q
      (Fails t (.still m0 .nothing) own) m := by
  obtain ⟨seg, hframes, hseat⟩ := hm.seated
  obtain ⟨e', m', heq, hcleared, hraw⟩ := unwindFrames_spec (e := e) hseat hm.toTidy hframes
  have hunwind : unwind e m = .ok e' m' := by
    unfold unwind
    rw [← hframes] at heq
    exact heq
  exact Meets.next hunwind (Meets.of_fail ⟨hcleared.ended hm, fun _ => hraw⟩)

/-! ## Returning -/

/-- How the machine goes on after an instruction. -/
def Proceeds (t : Terms) (m0 : Machine) (own : List Value) : Flow → Machine → Prop
  | .next, m => Machine.Above t m0 own m ∧ m.Roomy
  | .finished v, m => m.Within t (.still m0 .nothing) (v :: own)

theorem returnFromFrame_meets {v : Value} (hm : Machine.Above t m0 (v :: own) m) :
    Meets t (returnFromFrame v) (returnFromFrame v) (Proceeds t m0 own) (Broken t m0 own) m := by
  obtain ⟨f, seg, c, hframes, hseat, -, -⟩ := hm.current
  unfold returnFromFrame
  refine Meets.next (show (get : Exec Machine) m = .ok m m from rfl) ?_
  rw [hframes]
  dsimp only
  refine Meets.next (leaveFrame_eq f _ m) ?_
  have htidy := hm.toTidy.left hframes
  have hsize := Machine.size_left m f (seg ++ m0.frames)
  have hfollows : Machine.Follows t .nothing m (m.left f (seg ++ m0.frames)) :=
    hm.toTidy.follows_left hframes
  cases hseat with
  | root hroot hbase hprev htop =>
    rw [if_pos hroot]
    have hcleared : Cleared t (.closure f.closure :: v :: own) m0.stack.size m0.frames m
        (m.left f ([] ++ m0.frames)) := .of_root hm.toTidy hframes hbase hprev htop
    exact Meets.next (release_eq _ _) (Meets.of_ok rfl (hcleared.release.ended hm))
  | @called _ _ g rest hroot hbase htop htarget hroom hrest =>
    rw [if_neg (by simp [hroot])]
    -- the caller goes on at the height that it had
    have hheight : (m.left f ((g :: rest) ++ m0.frames)).stack.size = f.prevTop := by omega
    have hgo : ∀ {m' : Machine}, m'.Tidy t own →
        Machine.Follows t (.upFrom m0.stack.size) (m.left f ((g :: rest) ++ m0.frames)) m' →
        m'.frames = (g :: rest) ++ m0.frames → m'.stack.size = f.prevTop →
          Proceeds t m0 own .next m' := by
      intro m' hm' hf' hframes' hsize'
      refine ⟨⟨hm', hm.toFollows.trans (hfollows.of_nothing.trans hf'), g :: rest, hframes', ?_⟩, ?_⟩
      · rw [hsize']
        exact hrest
      · intro h hs hh
        obtain ⟨rfl, -⟩ := List.cons_eq_cons.1 (hh.symm.trans hframes')
        omega
    cases ht : f.target with
    | none =>
      refine Meets.next (release_eq _ _) (Meets.next (release_eq _ v) (Meets.of_ok rfl ?_))
      exact hgo htidy.release.release
        (htidy.follows_release.trans htidy.release.follows_release) rfl hheight
    | some i =>
      obtain ⟨hlow, hlt⟩ := htarget i ht
      have hw : (m.left f ((g :: rest) ++ m0.frames)).Within t
          (.still (m.left f ((g :: rest) ++ m0.frames)) (.upFrom m0.stack.size))
          (v :: .closure f.closure :: own) := .of_start (htidy.perm (.swap _ _ _))
      rcases writeSlot_cases hw hlow with ⟨hout, -⟩ | ⟨m1, -, hwrite, hm1⟩
      · omega
      · refine Meets.next hwrite (Meets.next (release_eq _ _) (Meets.of_ok rfl ?_))
        have hrel := hm1.release
        exact hgo hrel.toTidy hrel.toFollows hrel.frames_still (hrel.size.trans hheight)

/-! ## Entering from outside -/

theorem cuttingBack_ok {α : Type} {act : Exec α} {a : α} {m' : Machine} (height : Nat)
    (h : act m = .ok a m') : cuttingBack height act m = .ok a m' := by
  unfold cuttingBack
  rw [h]

theorem cuttingBack_error {α : Type} {act : Exec α} {e : Fault} {m' : Machine} (height : Nat)
    (h : act m = .error e m') : cuttingBack height act m = .error e (m'.cut height) := by
  unfold cuttingBack
  rw [h]
  simp only [truncate_eq]

theorem Meets.cuttingBack {α : Type} {act act' : Exec α} {height : Nat}
    {Q : α → Machine → Prop} {F : ScriptError → Machine → Prop}
    (h : Meets t act act' Q (fun e m' => F e (m'.cut height)) m) :
    Meets t (cuttingBack height act) (cuttingBack height act') Q F m := by
  obtain ⟨heq, h2⟩ := h
  unfold Meets Exec.cuttingBack
  rw [heq]
  cases hm : act m with
  | ok a m1 =>
    rw [hm] at h2
    exact ⟨rfl, h2⟩
  | error e m1 =>
    rw [hm] at h2
    simp only [truncate_eq]
    refine ⟨trivial, ?_⟩
    cases e with
    | script e => exact h2
    | outsideStack => exact h2
    | outOfSteps => trivial

/-- The arguments are on the stack and the function is retained when its frame is pushed. -/
theorem enter_eq (c : Ref) (args : List Value) (m : Machine) :
    enter c args m = cuttingBack m.stack.size (pushFrame c m.stack.size args.length none true)
      ((m.pushed args).withHeap ((m.pushed args).heap.retain (.closure c))) := by
  unfold enter
  rw [bind_ok m (show stackSize m = .ok m.stack.size m from rfl), bind_ok m (pushValues_eq m args),
    bind_ok _ (retain_eq _ _)]

theorem enter_meets {c : Ref} {args : List Value} (hm : m.Tidy t (args ++ own))
    (hc : m.heap.Has (.closure c)) :
    Meets t (enter c args) (enter c args) (fun _ m' => Machine.Above t m own m' ∧ m'.Roomy)
      (Fails t (.still m .nothing) own) m := by
  unfold enter
  refine Meets.next (show stackSize m = .ok m.stack.size m from rfl)
    (Meets.next (pushValues_eq m args) (Meets.next (retain_eq _ _) ?_))
  have hpushed := hm.pushed
  have hheap : (m.pushed args).heap.Has (.closure c) := hc
  have hretained := hpushed.retain hheap
  have hsize := Machine.size_pushed m args
  have hfollows : Machine.Follows t (entryReach m.stack.size) m
      ((m.pushed args).withHeap ((m.pushed args).heap.retain (.closure c))) :=
    (Machine.Follows.pushed fun _ hi => hi).trans (.heap (hpushed.backs.retain hheap).evolves)
  have hframes : ((m.pushed args).withHeap
      ((m.pushed args).heap.retain (.closure c))).frames = m.frames := rfl
  have hsize1 : ((m.pushed args).withHeap
      ((m.pushed args).heap.retain (.closure c))).stack.size = m.stack.size + args.length := hsize
  generalize (m.pushed args).withHeap ((m.pushed args).heap.retain (.closure c)) = m1 at *
  refine Meets.cuttingBack (Meets.mono (pushFrame_meets hretained (by omega))
    (fun _ m2 hm2 => ?_) fun e m2 hm2 => ?_)
  · obtain ⟨p, hroom, hframes2⟩ := hm2.frames
    rw [hframes] at hframes2
    have hsize2 := hm2.size
    refine ⟨⟨hm2.toTidy, (hfollows.trans hm2.toFollows).narrow (fun _ hi _ => hi)
      fun _ _ hi _ => hi.elim, [_], hframes2, .root rfl rfl rfl (by omega)⟩, ?_⟩
    intro f rest hf
    obtain ⟨rfl, -⟩ := List.cons_eq_cons.1 (hf.symm.trans hframes2)
    exact hroom
  · have hsize2 := hm2.size
    have hcut := Machine.size_cut m2 m.stack.size
    refine ⟨⟨hm2.toTidy.cut _, ?_, .inl (hm2.frames.trans hframes), ?_⟩, hm2.decent⟩
    · refine ((hfollows.trans hm2.toFollows).trans (hm2.toTidy.follows_cut _)).narrow
        (fun i hi hlt => ?_) fun _ _ hi _ => hi.elim
      have hle : m.stack.size ≤ i := hi
      show False
      omega
    · show (m2.cut m.stack.size).stack.size = m.stack.size
      omega

end Exec

end ScriptMachine
