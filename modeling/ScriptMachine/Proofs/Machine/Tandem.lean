import ScriptMachine.Proofs.Machine.Unison

/-!
# Frames at two machines

Entering a function may collect at either machine, by the rule of each. The function
that is entered and its arguments are held meanwhile, so both go on with the same
frame; leaving frames closes the same cells and cuts the stack alike.
-/

set_option autoImplicit false

namespace ScriptMachine

variable {P : NativeObject → Prop} {φ : Fault} {t : Terms} {s s' : Scope}

namespace Machine

/-- Two machines at the same point that are both in order. -/
structure Peers (P : NativeObject → Prop) (t : Terms) (own : List Value) (m m' : Machine) :
    Prop where
  twin : m.Twin P m'
  left : m.Tidy t own
  right : m'.Tidy t own

namespace Peers

variable {own vs : List Value} {m m' : Machine} {v : Value}

/-- An action starts at both machines, with the same reach. -/
theorem level (hp : Peers P t own m m') (reach : Reach) (jumps : Prop) :
    Level P t ⟨m, reach, jumps⟩ ⟨m', reach, jumps⟩ own m m' :=
  ⟨hp.twin, .of_start hp.left, .of_start hp.right⟩

theorem abreast (hp : Peers P t own m m') : m.heap.Abreast P t.law m'.heap :=
  (hp.level .nothing False).abreast

theorem shared (hp : Peers P t own m m') (hv : v ∈ own) : Shared m m' v :=
  ⟨hp.left.has hv, hp.right.has hv⟩

theorem retain (hp : Peers P t own m m') (hv : Shared m m' v) :
    Peers P t (v :: own) (m.withHeap (m.heap.retain v)) (m'.withHeap (m'.heap.retain v)) :=
  ⟨hp.twin.retain v, hp.left.retain hv.1, hp.right.retain hv.2⟩

theorem release (hp : Peers P t (v :: own) m m') :
    Peers P t own (m.withHeap (m.heap.release v)) (m'.withHeap (m'.heap.release v)) :=
  ⟨hp.twin.release v, hp.left.release, hp.right.release⟩

/-- Either machine collects when it is due there. -/
theorem collected (hp : Peers P t own m m') : Peers P t own (m.withHeap m.heap.maybeCollect)
    (m'.withHeap m'.heap.maybeCollect) where
  twin := hp.twin.withHeap
    (hp.twin.mirrors.trims hp.left.backs.trims_maybeCollect hp.right.backs.trims_maybeCollect)
  left := hp.left.heap hp.left.backs.maybeCollect
  right := hp.right.heap hp.right.backs.maybeCollect

end Peers

theorem Level.peers {own : List Value} {m m' : Machine} (hl : Level P t s s' own m m') :
    Peers P t own m m' := ⟨hl.twin, hl.left.toTidy, hl.right.toTidy⟩

namespace Twin

variable {m m' : Machine}

theorem withFrames (ht : m.Twin P m') (frames : List Frame) :
    (m.withFrames frames).Twin P (m'.withFrames frames) :=
  ht.update (f := fun m => m.withFrames frames) (fun _ _ => rfl) rfl

theorem pushed (ht : m.Twin P m') (vs : List Value) : (m.pushed vs).Twin P (m'.pushed vs) :=
  ht.update (f := fun m => m.pushed vs) (fun _ _ => rfl) rfl

theorem cut (ht : m.Twin P m') (n : Nat) : (m.cut n).Twin P (m'.cut n) := by
  obtain ⟨h, c, rfl, hm⟩ := ht
  exact ⟨_, c, rfl, hm.releaseAll _ _⟩

end Twin

/-- Both leave their current frame. -/
theorem Peers.leave {own : List Value} {m m' : Machine} {f : Frame} {rest : List Frame}
    (hp : Peers P t own m m') (hf : m.frames = f :: rest) :
    Peers P t (.closure f.closure :: own) (m.left f rest) (m'.left f rest) := by
  have hf' : m'.frames = f :: rest := hp.twin.frames_eq.trans hf
  have hpop : Peers P t (.closure f.closure :: own) (m.withFrames rest) (m'.withFrames rest) :=
    ⟨hp.twin.withFrames rest, hp.left.popped_frame hf, hp.right.popped_frame hf'⟩
  exact ⟨((hpop.level .nothing False).closed f.base).cut f.prevTop, hp.left.left hf,
    hp.right.left hf'⟩

end Machine

namespace Exec

open ScriptMachine.Machine (Level Peers Shared)

variable {α β : Type} {m m' : Machine} {own : List Value} {call call' : Caller}

/-! ## Entering -/

section

variable (ht : m.Twin P m')
include ht

theorem checkDepth_echo : EchoAt P φ checkDepth checkDepth m m' := by
  obtain ⟨h, c, rfl, hm⟩ := ht
  show EchoAt P φ
    (if m.config.maxCallDepth ≤ m.frames.length + m.nativeDepth then
      fail (depthError m.config.maxCallDepth) else pure ())
    (if m.config.maxCallDepth ≤ m.frames.length + m.nativeDepth then
      fail (depthError m.config.maxCallDepth) else pure ()) m (m.across h c)
  split
  · exact .fail ⟨h, c, rfl, hm⟩ _
  · exact .pure ⟨h, c, rfl, hm⟩ ()

theorem takeSlots_echo (start count : Nat) :
    EchoAt P φ (takeSlots start count) (takeSlots start count) m m' := by
  induction count generalizing start m m' with
  | zero => exact .pure ht []
  | succ count ih =>
    unfold takeSlots
    refine (takeSlot_echo ht start).seq fun o n n' hn => ?_
    cases o with
    | none => exact .throw hn _
    | some v => exact (ih hn (start + 1)).seq fun vs _ _ hn1 => .pure hn1 (v :: vs)

theorem packArguments_echo (p : Prototype) (base count : Nat) :
    EchoAt P φ (packArguments p base count) (packArguments p base count) m m' := by
  unfold packArguments
  dsimp only
  split
  · exact .fail ht _
  · refine (takeSlots_echo ht _ _).seq fun rest n n' hn => ?_
    refine (heap_echo hn (hn.mirrors.newArray _)).seq fun packed n1 n1' hn1 => ?_
    refine (writeSlot_echo hn1 _ packed).seq fun found _ _ hn2 => ?_
    cases found with
    | true => exact .pure hn2 _
    | false => exact .throw hn2 _

theorem fillSlots_echo (start : Nat) (vs : List Value) :
    EchoAt P φ (fillSlots start vs) (fillSlots start vs) m m' := by
  induction vs generalizing start m m' with
  | nil => exact .pure ht ()
  | cons v vs ih =>
    unfold fillSlots
    refine (retain_echo ht v).seq fun _ n n' hn => ?_
    refine (writeSlot_echo hn start v).seq fun found _ _ hn1 => ?_
    cases found with
    | true => exact ih hn1 (start + 1)
    | false => exact .throw hn1 _

theorem bindArguments_echo (p : Prototype) (defaults : List Value) (base count : Nat) :
    EchoAt P φ (bindArguments p defaults base count) (bindArguments p defaults base count) m m' := by
  unfold bindArguments
  split
  · exact packArguments_echo ht p base count
  · split
    · unfold fillDefaults
      dsimp only
      split
      · exact .fail ht _
      · exact (fillSlots_echo ht _ _).seq fun _ _ _ hn => .pure hn _
    · exact .pure ht count

theorem heightBelow_echo (base : Nat) (root : Bool) :
    EchoAt P φ (heightBelow base root) (heightBelow base root) m m' := by
  unfold heightBelow
  split
  · exact .pure ht base
  · exact stackSize_echo ht

end

/-- A closure is entered, after a collection at either machine or none. -/
theorem pushFrame_echo {r : Ref} (hp : Peers P t (.closure r :: own) m m') (base count : Nat)
    (target : Option Nat) (root : Bool) :
    EchoAt P φ (pushFrame r base count target root) (pushFrame r base count target root) m m' := by
  unfold pushFrame
  refine .handing (EchoAt.bind (checkDepth_echo hp.twin) fun _ n n' hok hok' _ => ?_)
  -- the depth is only looked at
  have hsame : ∀ {k k' : Machine}, checkDepth k = .ok () k' → k' = k := by
    intro k k' hk
    rcases (checkDepth_reads : Reads t checkDepth _ k) with ⟨_, h, -⟩ | ⟨e, h, -⟩
    · rw [hk] at h
      cases h
      rfl
    · rw [hk] at h
      cases h
  cases hsame hok
  cases hsame hok'
  refine .next (updateHeap_eq _ _) (updateHeap_eq _ _) ?_
  have hp1 := hp.collected
  refine .readHeap (hp1.abreast.closure?_eq (hp1.shared List.mem_cons_self)) ?_
  split
  · exact .fail hp1.twin _
  · refine (heightBelow_echo hp1.twin base root).seq fun prevTop _ _ hn => ?_
    refine (growTo_echo hn _).seq fun _ _ _ hn1 => ?_
    refine (bindArguments_echo hn1 _ _ base count).seq fun bound _ _ hn2 => ?_
    refine (nullSlots_echo hn2 _ _).seq fun _ _ _ hn3 => ?_
    exact modify_echo hn3 (fun _ _ => rfl) rfl

/-! ## Leaving -/

theorem unwindFrames_echo (fs : List Frame) (e : ScriptError) (hp : Peers P t own m m')
    (hf : m.frames = fs) : EchoAt P φ (unwindFrames fs e) (unwindFrames fs e) m m' := by
  induction fs generalizing e m m' with
  | nil => exact .pure hp.twin e
  | cons f rest ih =>
    unfold unwindFrames
    have hleft := hp.leave hf
    refine .next (leaveFrame_eq f rest m) (leaveFrame_eq f rest m') ?_
    refine .next (release_eq _ _) (release_eq _ _) ?_
    dsimp only
    split
    · exact .pure hleft.release.twin _
    · exact ih _ hleft.release rfl

theorem unwinding_echo (fault : Fault) (hp : Peers P t own m m') :
    EchoAt P φ (unwinding fault : Exec α) (unwinding fault) m m' := by
  cases fault with
  | script e =>
    have hunwind : EchoAt P φ (unwind e) (unwind e) m m' := by
      unfold unwind
      refine .get ?_
      rw [hp.twin.frames_eq]
      exact unwindFrames_echo m.frames e hp rfl
    exact hunwind.seq fun e' _ _ hn => .fail hn e'
  | outsideStack | outOfSteps => exact .throw hp.twin _

theorem returnFromFrame_echo {v : Value} (hp : Peers P t (v :: own) m m') :
    EchoAt P φ (returnFromFrame v) (returnFromFrame v) m m' := by
  unfold returnFromFrame
  refine .get ?_
  rw [hp.twin.frames_eq]
  cases hf : m.frames with
  | nil => exact (release_echo hp.twin v).seq fun _ _ _ hn => .fail hn _
  | cons f rest =>
    refine .next (leaveFrame_eq f rest m) (leaveFrame_eq f rest m') ?_
    have hn := (hp.leave hf).twin
    split
    · exact (release_echo hn _).seq fun _ _ _ hn1 => .pure hn1 _
    · split
      · refine (release_echo hn _).seq fun _ _ _ hn1 => ?_
        exact (release_echo hn1 v).seq fun _ _ _ hn2 => .pure hn2 _
      · refine (writeSlot_echo hn _ v).seq fun found _ _ hn1 => ?_
        cases found with
        | true => exact (release_echo hn1 _).seq fun _ _ _ hn2 => .pure hn2 _
        | false =>
          refine (release_echo hn1 _).seq fun _ _ _ hn2 => ?_
          exact (release_echo hn2 v).seq fun _ _ _ hn3 => .fail hn3 _

/-! ## Call instructions -/

variable {c : ClosureObject} {base : Nat} {i : Instruction}

theorem window_echo (ht : m.Twin P m') (start count : Nat) :
    EchoAt P φ (window start count) (window start count) m m' := by
  unfold window
  refine .get ?_
  rw [ht.stack_eq]
  dsimp only
  split
  · exact .pure ht _
  · exact .fail ht _

theorem resultSlot_echo (ht : m.Twin P m') (r : Int64) :
    EchoAt P φ (resultSlot base r) (resultSlot base r) m m' := by
  unfold resultSlot
  split
  · refine (registerSlot_echo ht base r).seq fun slot _ _ hn => ?_
    refine (stackSize_echo hn).seq fun size _ _ hn1 => ?_
    split
    · exact .pure hn1 _
    · exact .fail hn1 _
  · exact .pure ht none

/-- Both read the values of some slots, which live in both. -/
theorem EchoAt.window {f f' : List Value → Exec β} {start count : Nat} (hp : Peers P t own m m')
    (hlax : ¬ t.strict)
    (hf : ∀ vs, start + count ≤ m.stack.size → vs.length = count → (∀ v ∈ vs, Shared m m' v) →
      EchoAt P φ (f vs) (f' vs) m m') :
    EchoAt P φ (Exec.window start count >>= f) (Exec.window start count >>= f') m m' :=
  .reading (window_echo hp.twin start count) (window_reads hp.left fun h => absurd h hlax)
    (window_reads hp.right fun h => absurd h hlax) fun vs hvs hvs' =>
      hf vs hvs.1 hvs.2.1 fun v hv => ⟨hvs.2.2 v hv, hvs'.2.2 v hv⟩

theorem callForeign_echo (hc : Accord P φ t call call') (hlax : ¬ t.strict) {callee : Value}
    {start count : Nat} {target : Option Nat} (hl : Level P t s s' own m m')
    (hcallee : Shared m m' callee) :
    EchoAt P φ (callForeign call base i callee start count target)
      (callForeign call' base i callee start count target) m m' := by
  unfold callForeign
  refine .holding hl (by simpa using hcallee) fun n n' hn hw => ?_
  refine .window hn.peers hlax fun args _ _ hargs => ?_
  refine .retainingAll hn hargs fun n1 n1' hn1 hw1 => ?_
  refine (hc.echo hn1 (hw1 _ (hw _ hcallee))).seq fun v _ _ hn2 => ?_
  split
  · exact setRegister_echo hn2 base i.arg0 v
  · exact release_echo hn2 v

theorem callInstruction_echo (hc : Accord P φ t call call') (hs : RunBoth t s s' c base)
    (hl : Level P t s s' own m m') :
    EchoAt P φ (callInstruction call base i) (callInstruction call' base i) m m' := by
  unfold callInstruction
  refine .register hs hl fun callee hcallee => ?_
  refine .reading (registerSlot_echo hl.twin base _) (registerSlot_reads fun h => absurd h hs.lax)
    (registerSlot_reads fun h => absurd h hs.lax) fun start _ _ => ?_
  refine .reading (indexArg_echo hl.twin _ _) (indexArg_reads fun h => absurd h hs.lax)
    (indexArg_reads fun h => absurd h hs.lax) fun count _ _ => ?_
  refine .reading (resultSlot_echo hl.twin _) (resultSlot_reads fun h => absurd h hs.lax)
    (resultSlot_reads fun h => absurd h hs.lax) fun target _ _ => ?_
  split
  · have hsize' : stackSize m' = .ok m.stack.size m' := by
      rw [← hl.twin.stack_eq]
      rfl
    refine .next (show stackSize m = .ok m.stack.size m from rfl) hsize' ?_
    split
    · refine .next (retain_eq _ _) (retain_eq _ _) ?_
      exact pushFrame_echo (hl.peers.retain hcallee) _ _ _ _
    · exact .fail hl.twin _
  · exact callForeign_echo hc hs.lax hl hcallee

/-! ## Tail calls -/

theorem placeSlots_echo (ht : m.Twin P m') (start : Nat) (vs : List Value) :
    EchoAt P φ (placeSlots start vs) (placeSlots start vs) m m' := by
  induction vs generalizing start m m' with
  | nil => exact .pure ht ()
  | cons v vs ih =>
    unfold placeSlots
    refine (writeSlot_echo ht start v).seq fun found _ _ hn => ?_
    cases found with
    | true => exact ih hn (start + 1)
    | false => exact .throw hn _

theorem vacate_echo (old : Frame) (r : Ref) {args : List Value} (hp : Peers P t own m m')
    (hlive : ∀ v ∈ .closure r :: args, Shared m m' v) :
    EchoAt P φ (vacate old base r args) (vacate old base r args) m m' := by
  unfold vacate
  refine .retainingAll (hp.level .nothing False) hlive fun n n' hn _ => ?_
  refine (closeOuters_echo hn base).seq fun _ n1 n1' hn1 => ?_
  refine (modify_echo hn1 (fun _ _ => rfl) rfl).seq fun _ n2 n2' hn2 => ?_
  exact (placeSlots_echo hn2 base args).seq fun _ _ _ hn3 => truncate_echo hn3 _

theorem tailCallInstruction_echo (hc : Accord P φ t call call') (hs : RunBoth t s s' c base)
    {f : Frame} {rest : List Frame} (hl : Level P t s s' own m m') (hf : m.frames = f :: rest)
    (hbase : f.base = base) :
    EchoAt P φ (tailCallInstruction call base i) (tailCallInstruction call' base i) m m' := by
  subst hbase
  have hf' : m'.frames = f :: rest := hl.twin.frames_eq.trans hf
  unfold tailCallInstruction
  refine .register hs hl fun callee hcallee => ?_
  split
  swap
  · exact callInstruction_echo hc hs hl
  rename_i r
  refine .reading (registerSlot_echo hl.twin _ _) (registerSlot_reads fun h => absurd h hs.lax)
    (registerSlot_reads fun h => absurd h hs.lax) fun start hstart _ => ?_
  refine .reading (indexArg_echo hl.twin _ _) (indexArg_reads fun h => absurd h hs.lax)
    (indexArg_reads fun h => absurd h hs.lax) fun count _ _ => ?_
  refine .window hl.peers hs.lax fun args hin hlen hargs => ?_
  refine .next (currentFrame_eq hf) (currentFrame_eq hf') ?_
  have hfit : f.base + args.length ≤ m.stack.size := by
    obtain ⟨-, rfl⟩ := hstart
    omega
  obtain ⟨m1, hvacate, htidy, -⟩ := vacate_spec hl.left.toTidy hf hcallee.1 (fun v hv => (hargs v hv).1) hfit
  obtain ⟨m1', hvacate', htidy', -⟩ := vacate_spec hl.right.toTidy hf' hcallee.2
    (fun v hv => (hargs v hv).2) (by rwa [hl.twin.stack_eq])
  refine EchoAt.bind (vacate_echo f r hl.peers ?_) fun _ n n' heq heq' hn => ?_
  · intro v hv
    rcases List.mem_cons.1 hv with rfl | hv
    · exact hcallee
    · exact hargs v hv
  cases hvacate.symm.trans heq
  cases hvacate'.symm.trans heq'
  -- the callee is held by what the vacated frame leaves behind
  have hback : ∀ k k' : Machine, k.Twin P k' → (pushBack f k).Twin P (pushBack f k') := fun _ _ hk =>
    hk.update (f := pushBack f) (fun _ _ => rfl) rfl
  refine (EchoAt.restoring hback (pushFrame_echo ⟨hn, htidy, htidy'⟩ _ _ _ _)).seq ?_
  intro _ n1 n1' hn1
  exact (reframe_echo hn1 fun g => { g with prevTop := f.prevTop }).seq fun _ _ _ hn2 =>
    release_echo hn2 _

end Exec

end ScriptMachine
