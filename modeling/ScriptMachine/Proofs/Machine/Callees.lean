import ScriptMachine.Machine.Calls
import ScriptMachine.Proofs.Machine.Activations

/-!
# Call instructions

A call seats a frame upon the current one; a tail call puts one in its place,
and the old frame is back when the new one is refused.
-/

set_option autoImplicit false

namespace ScriptMachine.Exec

variable {t : Terms} {s : Scope} {own : List Value} {m0 m : Machine}
variable {call call' : Caller} {c : ClosureObject} {base : Nat} {i : Instruction}

theorem Meets.reading {α β : Type} {act : Exec α} {G : α → Prop} {f f' : α → Exec β}
    {Q : β → Machine → Prop} {F : ScriptError → Machine → Prop} (h : Reads t act G m)
    (hF : ∀ e : ScriptError, (t.strict → ¬ e.Raw) → F e m)
    (hf : ∀ a, G a → Meets t (f a) (f' a) Q F m) :
    Meets t (act >>= f) (act >>= f') Q F m := by
  rcases h with ⟨a, ha, hg⟩ | ⟨e, he, hraw⟩
  · exact Meets.next ha (hf a hg)
  · exact Meets.bind (Meets.of_error he (hF e hraw))

/-! ## Operands -/

theorem window_reads {start count : Nat} (hm : m.Tidy t own)
    (hin : t.strict → start + count ≤ m.stack.size) : Reads t (window start count)
      (fun vs => start + count ≤ m.stack.size ∧ vs.length = count ∧ ∀ v ∈ vs, m.heap.Has v) m := by
  unfold window
  refine .bind (G := fun m1 => m1 = m) (.inl ⟨m, rfl, rfl⟩) ?_
  rintro _ rfl
  dsimp only
  split
  · rename_i hle
    refine .pure ⟨hle, ?_, fun v hv => ?_⟩
    · rw [Array.length_toList, Array.size_extract]
      omega
    · obtain ⟨k, hk⟩ := List.mem_iff_getElem?.1 hv
      rw [Array.getElem?_toList, Array.getElem?_extract] at hk
      split at hk
      · exact hm.has_slot hk
      · cases hk
  · rename_i hgt
    exact .malformed fun ht => hgt (hin ht)

theorem resultSlot_reads {r : Int64} (hin : t.strict → isPresent r = true →
    0 ≤ r ∧ base + r.toInt.toNat < m.stack.size) : Reads t (resultSlot base r)
      (fun target => ∀ k, target = some k → isPresent r = true ∧ base ≤ k ∧ k < m.stack.size) m := by
  unfold resultSlot
  split
  · rename_i hp
    refine .bind (registerSlot_reads fun ht => (hin ht hp).1) ?_
    rintro slot ⟨-, rfl⟩
    refine .bind (G := fun n => n = m.stack.size) (.inl ⟨_, rfl, rfl⟩) ?_
    rintro _ rfl
    split
    · rename_i hlt
      refine .pure fun k hk => ?_
      cases hk
      exact ⟨hp, Nat.le_add_right _ _, hlt⟩
    · rename_i hge
      exact .malformed fun ht => hge (hin ht hp).2
  · exact .pure fun k hk => by cases hk

/-! ## Calls -/

theorem callForeign_keeps (hc : Faithful t call call') (hs : s.Runs c base)
    {callee : Value} {start count : Nat} {target : Option Nat} (hm : m.Within t s own)
    (hcallee : m.heap.Has callee) (hin : t.strict → start + count ≤ m.stack.size)
    (htarget : t.strict → ∀ k, target = some k → c.prototype.HasRegister i.arg0) :
    Keeps t s own (callForeign call base i callee start count target)
      (callForeign call' base i callee start count target) (fun _ => []) m := by
  unfold callForeign
  refine .next (retainAll_eq m _) (.owning ?_)
  have hm1 : (m.withHeap (m.heap.retainAll [callee])).Within t s ([callee] ++ own) :=
    hm.retainAll (by simpa using hcallee)
  refine .reading (window_reads hm1.toTidy hin) hm1 fun args hargs => ?_
  refine .retainAll hm1 hargs.2.2 fun m2 hm2 hw2 => ?_
  refine .bind (hc s callee args _ m2 hm2 (hm2.has (by simp))) fun v m3 hm3 => ?_
  cases target with
  | none => exact .released hm3
  | some k => exact .setRegister hs hm3 fun ht => htarget ht k rfl

section

variable {f : Frame} {rest : List Frame}

/-- What the call instructions need to be well-formed. -/
def CallsWell (p : Prototype) (i : Instruction) : Prop :=
  p.HasOptional i.arg0 ∧ p.HasRegister i.arg1 ∧ p.HasWindow i.arg2 i.arg3

theorem window_fits (hr : m.Roomy) (hf : m.frames = f :: rest) (hp : f.prototype = c.prototype)
    (hi : CallsWell c.prototype i) :
    f.base + i.arg2.toInt.toNat + i.arg3.toInt.toNat ≤ m.stack.size := by
  have hroom := hr f rest hf
  have hwindow := hi.2.2.2.2
  rw [hp] at hroom
  omega

/-- A callee is seated upon the current frame. -/
theorem callee_meets (hm : Machine.Above t m0 own m) (hr : m.Roomy) (hf : m.frames = f :: rest)
    {r : Ref} {start count : Nat} {target : Option Nat} (hlive : m.heap.Has (.closure r))
    (hstart : f.base ≤ start) (hin : start ≤ m.stack.size)
    (htarget : ∀ k, target = some k → f.base ≤ k ∧ k < m.stack.size) :
    Meets t (pushFrame r start count target false) (pushFrame r start count target false)
      (fun _ m' => Machine.Above t m0 own m' ∧ m'.Roomy) (Broken t m0 own)
      (m.withHeap (m.heap.retain (.closure r))) := by
  have hm1 := hm.toTidy.retain hlive
  have hevolves := (hm.backs.retain hlive).evolves
  obtain ⟨g, seg, -, hframes, hseat, -, -⟩ := hm.current
  obtain ⟨rfl, rfl⟩ := List.cons_eq_cons.1 (hf.symm.trans hframes)
  have hbase := hseat.base_le
  refine Meets.mono (pushFrame_meets hm1 hin) (fun _ m2 hm2 => ?_) fun e m2 hm2 => ?_
  · obtain ⟨p, hroom, hframes2⟩ := hm2.frames
    have hsize2 : m.stack.size ≤ m2.stack.size := hm2.size
    have hseat2 : Seated m0.stack.size m2.stack.size
        (⟨r, p, 0, start, m.stack.size, target, false⟩ :: f :: seg) := by
      refine .called rfl (hbase.trans hstart) hsize2 (fun k hk => ?_) (hr f _ hf)
        (hseat.under hseat.prevTop_le)
      obtain ⟨hlow, hlt⟩ := htarget k hk
      exact ⟨hbase.trans hlow, hlt⟩
    have hframes3 : m2.frames =
        ⟨r, p, 0, start, m.stack.size, target, false⟩ :: (f :: seg ++ m0.frames) :=
      hframes2.trans (congrArg (List.cons _) hf)
    refine ⟨hm.step hseat hm2.toTidy ((Machine.Follows.heap hevolves).trans hm2.toFollows)
      (fun k hk => hstart.trans hk) (fun k hk => hk.elim) hframes3 hseat2, ?_⟩
    intro g rest hg
    obtain ⟨rfl, -⟩ := List.cons_eq_cons.1 (hg.symm.trans hframes2)
    exact hroom
  · have hsize2 : m.stack.size ≤ m2.stack.size := hm2.size
    refine ⟨hm.step hseat hm2.toTidy ((Machine.Follows.heap hevolves).trans hm2.toFollows)
      (fun k hk => hstart.trans hk) (fun k hk => hk.elim)
      (hm2.frames.trans hf) (hseat.under (hseat.prevTop_le.trans hsize2)), hm2.decent⟩

theorem callInstruction_meets (hc : Faithful t call call') (hm : Machine.Above t m0 own m)
    (hr : m.Roomy) (hf : m.frames = f :: rest) (hcl : m.heap.closure? f.closure = some c)
    (hp : f.prototype = c.prototype) (hi : t.strict → CallsWell c.prototype i) :
    Meets t (callInstruction call f.base i) (callInstruction call' f.base i)
      (fun _ m' => Machine.Above t m0 own m' ∧ m'.Roomy) (Broken t m0 own) m := by
  have hs : Scope.Runs ⟨m, .upFrom f.base, False⟩ c f.base := Machine.Above.runs hr hf hcl hp
  have hw : m.Within t ⟨m, .upFrom f.base, False⟩ own := .of_start hm.toTidy
  have hbreak : ∀ e : ScriptError, (t.strict → ¬ e.Raw) → Broken t m0 own e m :=
    fun e he => ⟨hm, he⟩
  unfold callInstruction
  refine .reading (register_reads hs hw fun ht => (hi ht).2.1) hbreak fun callee hcallee => ?_
  have hlive := hm.has_slot hcallee.2
  refine .reading (registerSlot_reads fun ht => (hi ht).2.2.1) hbreak ?_
  rintro start ⟨-, rfl⟩
  refine .reading (indexArg_reads fun ht => (hi ht).2.2.2.1) hbreak ?_
  rintro count ⟨-, rfl⟩
  refine .reading (resultSlot_reads fun ht hp' => ?_) hbreak fun target htarget => ?_
  · have hreg := (hi ht).1 hp'
    have hroom := hr f rest hf
    have hlt := hreg.2
    rw [hp] at hroom
    exact ⟨hreg.1, by omega⟩
  have hforeign : ∀ v : Value, m.heap.Has v →
      Meets t (callForeign call f.base i v (f.base + i.arg2.toInt.toNat) i.arg3.toInt.toNat target)
        (callForeign call' f.base i v (f.base + i.arg2.toInt.toNat) i.arg3.toInt.toNat target)
        (fun _ m' => Machine.Above t m0 own m' ∧ m'.Roomy) (Broken t m0 own) m := by
    intro v hv
    refine Meets.mono (callForeign_keeps hc hs hw hv (fun ht => window_fits hr hf hp (hi ht))
      fun ht k hk => (hi ht).1 (htarget k hk).1) (fun _ m1 hm1 => ?_) fun e m1 he => ?_
    · exact ⟨hm.of_within hf hm1, Machine.Above.roomy_of_within hr hf hm1⟩
    · exact ⟨hm.of_within hf he.1, he.2⟩
  cases callee with
  | closure r =>
    dsimp only
    refine Meets.next (show stackSize m = .ok m.stack.size m from rfl) ?_
    split
    swap
    · rename_i hgt
      exact Meets.of_fail ⟨hm, fun ht => absurd (window_fits hr hf hp (hi ht)) hgt⟩
    · rename_i hle
      exact Meets.next (retain_eq m _) (callee_meets hm hr hf hlive (Nat.le_add_right _ _) (by omega)
        fun k hk => (htarget k hk).2)
  | null | integer n | float x | complex z | bool b | string s | space s | weak w | array r | dict r
  | native r | classObject r | instanceObject r | outer r | prototype r p => exact hforeign _ hlive

/-! ## Tail calls -/

theorem placeSlots_spec (start : Nat) (vs : List Value) (hm : m.Within t s (vs ++ own))
    (hw : ∀ k, start ≤ k → s.reach.writes k) (hin : start + vs.length ≤ m.stack.size) :
    ∃ m', placeSlots start vs m = .ok () m' ∧ m'.Within t s own := by
  induction vs generalizing start m with
  | nil => exact ⟨m, rfl, hm⟩
  | cons v vs ih =>
    rw [List.length_cons] at hin
    rcases writeSlot_cases hm (hw start (Nat.le_refl _)) with ⟨hout, -⟩ | ⟨m1, -, hwrite, hm1⟩
    · omega
    · have hsize : m1.stack.size = m.stack.size := hm1.size.trans hm.size.symm
      obtain ⟨m2, heq, hm2⟩ := ih (start + 1) hm1 (fun k hk => hw k (by omega)) (by omega)
      refine ⟨m2, ?_, hm2⟩
      unfold placeSlots
      rw [bind_ok m hwrite]
      exact heq

theorem restoring_ok {α : Type} {act : Exec α} {a : α} {m' : Machine} (undo : Machine → Machine)
    (h : act m = .ok a m') : restoring act undo m = .ok a m' := by
  unfold restoring
  rw [h]

theorem restoring_error {α : Type} {act : Exec α} {e : Fault} {m' : Machine}
    (undo : Machine → Machine) (h : act m = .error e m') :
    restoring act undo m = .error e (undo m') := by
  unfold restoring
  rw [h]

theorem setPrevTop_eq (n : Nat) (hf : m.frames = f :: rest) :
    setPrevTop n m = .ok () (m.withFrames ({ f with prevTop := n } :: rest)) := by
  show EStateM.Result.ok () _ = _
  simp only [hf]
  rfl

/-- The frame of the caller gives way to the arguments of the callee. -/
theorem vacate_spec {r : Ref} {args : List Value} (hm : m.Tidy t own) (hf : m.frames = f :: rest)
    (hr : m.heap.Has (.closure r)) (ha : ∀ v ∈ args, m.heap.Has v)
    (hin : f.base + args.length ≤ m.stack.size) :
    ∃ m', vacate f f.base r args m = .ok () m' ∧
      m'.Tidy t (.closure r :: .closure f.closure :: own) ∧
      Machine.Follows t (entryReach f.base) m m' ∧ m'.frames = rest ∧
      m'.stack.size = min (max f.prevTop (f.base + args.length)) m.stack.size := by
  have hlive : ∀ v ∈ .closure r :: args, m.heap.Has v := by
    intro v hv
    rcases List.mem_cons.1 hv with rfl | hv
    · exact hr
    · exact ha v hv
  have hw : m.Within t (.still m (entryReach f.base)) own := .of_start hm
  have hm1 := (hw.retainAll hlive).closed f.base
  have hframes1 := hm1.frames_still
  have hsize1 : ((m.withHeap (m.heap.retainAll (.closure r :: args))).closed f.base).stack.size =
    m.stack.size := hm1.size
  unfold vacate
  rw [bind_ok m (retainAll_eq m _), bind_ok _ (closeOuters_eq f.base _)]
  generalize (m.withHeap (m.heap.retainAll (.closure r :: args))).closed f.base = m1 at hm1 hframes1 hsize1 ⊢
  have hpop : (modify fun (m : Machine) => { m with frames := m.frames.tail } : Exec Unit) m1 =
      .ok () (m1.withFrames rest) := by
    show EStateM.Result.ok () _ = _
    simp only [hframes1, hf, List.tail_cons]
    rfl
  rw [bind_ok m1 hpop]
  have hperm : (args ++ .closure r :: .closure f.closure :: own).Perm
      (.closure f.closure :: (.closure r :: args ++ own)) :=
    (List.perm_middle.trans (.cons _ List.perm_middle)).trans (.swap _ _ _)
  have hm2 : (m1.withFrames rest).Within t (.still (m1.withFrames rest) (entryReach f.base))
      (args ++ .closure r :: .closure f.closure :: own) :=
    .of_start ((hm1.toTidy.popped_frame (hframes1.trans hf)).perm hperm)
  have hsize2 : (m1.withFrames rest).stack.size = m1.stack.size := rfl
  obtain ⟨m3, hplace, hm3⟩ := placeSlots_spec f.base args hm2 (fun _ hk => hk) (by omega)
  have hsize3 : m3.stack.size = m1.stack.size := hm3.size
  rw [bind_ok _ hplace]
  refine ⟨_, truncate_eq m3 _, hm3.toTidy.cut _, ?_, hm3.frames_still, ?_⟩
  · exact hm1.toFollows.trans ((Machine.Follows.withFrames rest).trans
      (hm3.toFollows.trans (hm3.toTidy.follows_cut _)))
  · rw [Machine.size_cut]
    omega

/-- The callee has the seat of the frame that gives way, or that frame is back in it. -/
theorem replace_meets (hm : Machine.Above t m0 own m) (hf : m.frames = f :: rest)
    (hcl : m.heap.closure? f.closure = some c) (hp : f.prototype = c.prototype) {r : Ref}
    {args : List Value} {count : Nat} (hlive : m.heap.Has (.closure r))
    (hargs : ∀ v ∈ args, m.heap.Has v) (hin : f.base + args.length ≤ m.stack.size) :
    let replace : Exec Unit := do
      vacate f f.base r args
      restoring (pushFrame r f.base count f.target f.root) (pushBack f)
      setPrevTop f.prevTop
      release (.closure f.closure)
    Meets t replace replace (fun _ m' => Machine.Above t m0 own m' ∧ m'.Roomy) (Broken t m0 own) m := by
  obtain ⟨g, seg, -, hframes, hseat, -, -⟩ := hm.current
  obtain ⟨rfl, rfl⟩ := List.cons_eq_cons.1 (hf.symm.trans hframes)
  obtain ⟨m1, hvacate, hm1, hfollows1, hframes1, hsize1⟩ := vacate_spec hm.toTidy hf hlive hargs hin
  have hprev := hseat.prevTop_le
  refine Meets.next hvacate (Meets.bind (Meets.restoring ?_))
  refine Meets.mono (pushFrame_meets hm1 (by omega)) (fun _ m2 hm2 => ?_) fun e m2 hm2 => ?_
  · -- the callee has the seat of the caller
    obtain ⟨p, hroom, hframes2⟩ := hm2.frames
    rw [hframes1] at hframes2
    have hm3 : (m2.withFrames (⟨r, p, 0, f.base, f.prevTop, f.target, f.root⟩ ::
        (seg ++ m0.frames))).Tidy t (.closure f.closure :: own) :=
      hm2.toTidy.reframe hframes2 rfl rfl
    have hsize2 := hm2.size
    refine Meets.next (setPrevTop_eq f.prevTop hframes2) (Meets.of_ok (release_eq _ _) ⟨?_, ?_⟩)
    · refine hm.step hseat hm3.release ((hfollows1.trans hm2.toFollows).trans
        ((Machine.Follows.withFrames _).trans hm3.follows_release)) (fun _ hk => hk)
        (fun _ hk => hk.elim) rfl ?_
      have hnew : Seated m0.stack.size m.stack.size
          (⟨r, p, 0, f.base, f.prevTop, f.target, f.root⟩ :: seg) := hseat.replace rfl rfl rfl rfl
      refine hnew.under ?_
      show f.prevTop ≤ m2.stack.size
      omega
    · intro g rest hg
      obtain ⟨rfl, -⟩ := List.cons_eq_cons.1 (Eq.symm hg)
      exact hroom
  · -- the caller is back in its seat
    have hframes2 : m2.frames = seg ++ m0.frames := hm2.frames.trans hframes1
    have hfollows2 := hfollows1.trans hm2.toFollows
    have hsize2 := hm2.size
    have hback := hm2.toTidy.pushed_frame
      (hfollows2.drifts.keeps_closure hcl (hm2.has List.mem_cons_self)) hp.symm (by
        have hd := hm.depth
        rw [hf, List.length_cons] at hd
        rw [hframes2, hfollows2.nativeDepth, hfollows2.config]
        omega)
    refine ⟨hm.step hseat hback (hfollows2.trans (.withFrames _)) (fun _ hk => hk)
      (fun _ hk => hk.elim) (congrArg (List.cons f) hframes2) (hseat.under ?_), hm2.decent⟩
    show f.prevTop ≤ m2.stack.size
    omega

theorem tailCallInstruction_meets (hc : Faithful t call call') (hm : Machine.Above t m0 own m)
    (hr : m.Roomy) (hf : m.frames = f :: rest) (hcl : m.heap.closure? f.closure = some c)
    (hp : f.prototype = c.prototype) (hi : t.strict → CallsWell c.prototype i) :
    Meets t (tailCallInstruction call f.base i) (tailCallInstruction call' f.base i)
      (fun _ m' => Machine.Above t m0 own m' ∧ m'.Roomy) (Broken t m0 own) m := by
  have hs : Scope.Runs ⟨m, .upFrom f.base, False⟩ c f.base := Machine.Above.runs hr hf hcl hp
  have hw : m.Within t ⟨m, .upFrom f.base, False⟩ own := .of_start hm.toTidy
  have hbreak : ∀ e : ScriptError, (t.strict → ¬ e.Raw) → Broken t m0 own e m :=
    fun e he => ⟨hm, he⟩
  unfold tailCallInstruction
  refine .reading (register_reads hs hw fun ht => (hi ht).2.1) hbreak fun callee hcallee => ?_
  have hlive := hm.has_slot hcallee.2
  cases callee with
  | closure r =>
    dsimp only
    refine .reading (registerSlot_reads fun ht => (hi ht).2.2.1) hbreak ?_
    rintro start ⟨-, rfl⟩
    refine .reading (indexArg_reads fun ht => (hi ht).2.2.2.1) hbreak ?_
    rintro count ⟨-, rfl⟩
    refine .reading (window_reads hm.toTidy fun ht => window_fits hr hf hp (hi ht)) hbreak ?_
    rintro args ⟨hin, hlen, hargs⟩
    exact Meets.next (currentFrame_eq hf) (replace_meets hm hf hcl hp hlive hargs (by omega))
  | null | integer n | float x | complex z | bool b | string s | space s | weak w | array r | dict r
  | native r | classObject r | instanceObject r | outer r | prototype r p =>
    exact callInstruction_meets hc hm hr hf hcl hp hi

end

end ScriptMachine.Exec
