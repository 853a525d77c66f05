import ScriptMachine.Proofs.Machine.Keeping

/-!
# Slots and registers

What reading and writing the stack does to a machine in order. A register of a
well-formed function always exists; a malformed one is an error.
-/

set_option autoImplicit false

namespace ScriptMachine

/-- The current function of the scope has its registers from a base on. -/
structure Scope.Runs (s : Scope) (c : ClosureObject) (base : Nat) : Prop where
  writes : ∀ i, base ≤ i → s.reach.writes i
  opens : ∀ i, base ≤ i → s.reach.opens i
  room : base + c.prototype.stackSize ≤ s.start.stack.size
  current : ∃ f rest, s.start.frames = f :: rest ∧ f.prototype = c.prototype ∧
    s.start.heap.closure? f.closure = some c

theorem Scope.Runs.quiet {s : Scope} {c : ClosureObject} {base : Nat} (h : s.Runs c base) :
    s.quiet.Runs c base := ⟨h.writes, h.opens, h.room, h.current⟩

namespace Machine

variable {t : Terms} {s : Scope} {own own' : List Value} {m : Machine}

namespace Within

/-- Values change places between the stack and their owner. -/
theorem restack (hm : m.Within t s own) {stack : Array Value}
    (hle : (own' : Multiset Value) + stack.toList ≤ own + m.stack.toList)
    (hsize : stack.size = m.stack.size)
    (hslots : ∀ i v, stack[i]? = some v →
      m.stack[i]? = some v ∨ s.reach.writes i ∨ t.stores i v) :
    { m with stack }.Within t s own' := by
  refine ⟨hm.toTidy.restack hle, hm.toFollows.trans ?_, hm.frames, hsize.trans hm.size⟩
  exact ⟨rfl, rfl, rfl, rfl, .refl _, hslots, fun _ _ hr => .inl hr⟩

theorem frames_quiet (hm : m.Within t s.quiet own) : m.frames = s.start.frames :=
  hm.frames.elim id fun h => h.1.elim

/-- A slot takes a value over in the place of another. -/
theorem exchange {i : Nat} {v old : Value} (hm : m.Within t s (v :: own))
    (hi : s.reach.writes i ∨ t.stores i v) (hold : m.stack[i]? = some old) :
    { m with stack := m.stack.setIfInBounds i v }.Within t s (old :: own) := by
  refine hm.restack ?_ Array.size_setIfInBounds fun j w hw => ?_
  · have hl : m.stack.toList[i]? = some old := by rw [Array.getElem?_toList, hold]
    have hset := coe_set (v := v) hl
    rw [Array.toList_setIfInBounds]
    simp only [← Multiset.cons_coe, ← Multiset.singleton_add] at hset ⊢
    rw [add_right_comm, hset]
    exact le_of_eq (by ac_rfl)
  · by_cases hji : i = j
    · subst hji
      rw [Array.getElem?_setIfInBounds_self_of_lt (Array.getElem?_eq_some_iff.1 hold).1] at hw
      cases hw
      exact .inr hi
    · rw [Array.getElem?_setIfInBounds_ne hji] at hw
      exact .inl hw

/-- The current function is the one that runs at the start. -/
theorem current {c : ClosureObject} {base : Nat} (hs : s.Runs c base) (hm : m.Within t s own) :
    ∃ f rest, m.frames = f :: rest ∧ f.prototype = c.prototype ∧
      m.heap.closure? f.closure = some c := by
  obtain ⟨f, rest, hf, hp, hc⟩ := hs.current
  have hlive : ∀ g ∈ m.frames, g.closure = f.closure → m.heap.closure? f.closure = some c := by
    intro g hg heq
    exact hm.drifts.keeps_closure hc (heq ▸ hm.has_running hg)
  rcases hm.frames with heq | ⟨-, g, rest', ip, heq, hfs⟩
  · have heq' := heq.trans hf
    exact ⟨f, rest, heq', hp, hlive f (heq' ▸ List.mem_cons_self) rfl⟩
  · rw [hf] at heq
    cases heq
    exact ⟨_, _, hfs, hp, hlive { f with ip } (hfs ▸ List.mem_cons_self) rfl⟩

end Within

/-! ## Frames -/

/-- The machine with other frames. -/
def withFrames (m : Machine) (frames : List Frame) : Machine := { m with frames }

theorem Follows.withFrames {reach : Reach} (frames : List Frame) : Follows t reach m (m.withFrames frames) :=
  ⟨rfl, rfl, rfl, rfl, .refl _, fun _ _ hv => .inl hv, fun _ _ hr => .inl hr⟩

/-- Another frame of the same function. -/
theorem Tidy.reframe {f f' : Frame} {rest : List Frame} (hm : m.Tidy t own)
    (hf : m.frames = f :: rest) (hc : f'.closure = f.closure) (hp : f'.prototype = f.prototype) :
    (m.withFrames (f' :: rest)).Tidy t own := by
  have hroots : (m.withFrames (f' :: rest)).roots = m.roots := by
    simp only [roots, anchors, withFrames, hf, List.map_cons, hc]
  refine ⟨?_, hm.cells, fun g hg => ?_, ?_⟩
  · show m.heap.Backs t.law (_ + (_ + roots _))
    rw [hroots]
    exact hm.backs
  · rcases List.mem_cons.1 hg with rfl | hg
    · rw [hc, hp]
      exact hm.running f (hf ▸ List.mem_cons_self)
    · exact hm.running g (hf ▸ List.mem_cons_of_mem f hg)
  · have hd := hm.depth
    rw [hf] at hd
    exact hd

end Machine

namespace Exec

variable {β : Type} {t : Terms} {s : Scope} {own : List Value} {m : Machine}
variable {c : ClosureObject} {base : Nat} {gives : β → List Value}

/-! ## Slots -/

theorem stack_eq {α : Type} (g : Array Value → α × Array Value) (m : Machine) :
    stack g m = .ok (g m.stack).1 { m with stack := (g m.stack).2 } := rfl

theorem writeSlot_missing {i : Nat} (v : Value) (h : m.stack[i]? = none) :
    writeSlot i v m = .ok false m := by
  unfold writeSlot
  rw [bind_ok m (show slot? i m = .ok none m by rw [← h]; rfl)]
  rfl

theorem writeSlot_found {i : Nat} {old : Value} (v : Value) (h : m.stack[i]? = some old) :
    writeSlot i v m = .ok true
      ({ m with stack := m.stack.setIfInBounds i v }.withHeap (m.heap.release old)) := by
  unfold writeSlot
  rw [bind_ok m (show slot? i m = .ok (some old) m by rw [← h]; rfl)]
  simp only
  rw [bind_ok m (stack_eq _ m), bind_ok _ (release_eq _ old)]
  rfl

/-- A slot takes a value over if it is there. -/
theorem writeSlot_cases {i : Nat} {v : Value} (hm : m.Within t s (v :: own)) (hi : s.reach.writes i) :
    (m.stack.size ≤ i ∧ writeSlot i v m = .ok false m) ∨
      ∃ m', i < m.stack.size ∧ writeSlot i v m = .ok true m' ∧ m'.Within t s own := by
  by_cases hlt : i < m.stack.size
  · obtain ⟨old, hold⟩ : ∃ old, m.stack[i]? = some old := ⟨_, Array.getElem?_eq_getElem hlt⟩
    exact .inr ⟨_, hlt, writeSlot_found v hold, (hm.exchange (.inl hi) hold).release⟩
  · exact .inl ⟨by omega, writeSlot_missing v (Array.getElem?_eq_none (by omega))⟩

theorem Keeps.nullSlots (start count : Nat) (hm : m.Within t s own) (hi : ∀ i, start ≤ i → s.reach.writes i) :
    Keeps t s own (nullSlots start count) (nullSlots start count) (fun _ => []) m := by
  induction count generalizing start m with
  | zero => exact .pure hm
  | succ count ih =>
    unfold Exec.nullSlots
    rcases writeSlot_cases (hm.own_plain (v := .null) rfl) (hi start (Nat.le_refl _)) with ⟨-, h⟩ | ⟨m', -, h, hm'⟩
    · exact .next h (ih (start + 1) hm fun i hlt => hi i (by omega))
    · exact .next h (ih (start + 1) hm' fun i hlt => hi i (by omega))

/-! ## Registers -/

theorem registerSlot_reads {r : Int64} (hr : t.strict → 0 ≤ r) :
    Reads t (registerSlot base r) (fun i => 0 ≤ r ∧ i = base + r.toInt.toNat) m := by
  unfold registerSlot
  split
  · rename_i h
    exact .malformed fun ht => Int64.not_le.2 h (hr ht)
  · rename_i h
    exact .pure ⟨Int64.not_lt.1 h, rfl⟩

theorem indexArg_reads {arg : Int64} {what : String} (hr : t.strict → 0 ≤ arg) :
    Reads t (indexArg arg what) (fun i => 0 ≤ arg ∧ i = arg.toInt.toNat) m := by
  unfold indexArg
  split
  · rename_i h
    exact .malformed fun ht => Int64.not_le.2 h (hr ht)
  · rename_i h
    exact .pure ⟨Int64.not_lt.1 h, rfl⟩

theorem not_strict_of_missing {r : Int64} (hs : s.Runs c base) (hm : m.Within t s own)
    (hr : t.strict → c.prototype.HasRegister r) (h : m.stack.size ≤ base + r.toInt.toNat) : ¬ t.strict := by
  intro ht
  have hlt := (hr ht).2
  have hroom := hs.room
  have heq := hm.size
  omega

/-- A register lends the value of its slot. -/
theorem register_reads {r : Int64} (hs : s.Runs c base) (hm : m.Within t s own)
    (hr : t.strict → c.prototype.HasRegister r) : Reads t (register base r)
      (fun v => 0 ≤ r ∧ m.stack[base + r.toInt.toNat]? = some v) m := by
  unfold register
  refine .bind (registerSlot_reads fun ht => (hr ht).1) ?_
  rintro i ⟨hpos, rfl⟩
  refine .bind (G := fun o => o = m.stack[base + r.toInt.toNat]?) (.inl ⟨_, rfl, rfl⟩) ?_
  rintro o rfl
  split
  · rename_i v hv
    exact .pure ⟨hpos, hv⟩
  · rename_i hnone
    exact .malformed (not_strict_of_missing hs hm hr (Array.getElem?_eq_none_iff.1 hnone))

theorem Keeps.register {r : Int64} {f f' : Value → Exec β} (hs : s.Runs c base)
    (hm : m.Within t s own) (hr : t.strict → c.prototype.HasRegister r)
    (hf : ∀ v, m.heap.Has v → Keeps t s own (f v) (f' v) gives m) :
    Keeps t s own (register base r >>= f) (register base r >>= f') gives m :=
  .reading (register_reads hs hm hr) hm fun v hv => hf v (hm.has_slot hv.2)

/-- A register takes a value over, which is let go when there is no such register. -/
theorem Keeps.setRegister {r : Int64} {v : Value} (hs : s.Runs c base)
    (hm : m.Within t s (v :: own)) (hr : t.strict → c.prototype.HasRegister r) :
    Keeps t s own (setRegister base r v) (setRegister base r v) (fun _ => []) m := by
  unfold Exec.setRegister
  refine Meets.handing ?_
  have hslot : Reads t (registerSlot base r) (fun i => 0 ≤ r ∧ i = base + r.toInt.toNat) m :=
    registerSlot_reads fun ht => (hr ht).1
  rcases hslot with ⟨i, hi, -, rfl⟩ | ⟨e, he, hraw⟩
  · refine Meets.next hi ?_
    rcases writeSlot_cases hm (hs.writes _ (Nat.le_add_right _ _)) with ⟨hsize, hw⟩ | ⟨m', -, hw, hm'⟩
    · refine Meets.next hw (Meets.of_fail ⟨hm.release, fun ht => ?_⟩)
      exact absurd ht (not_strict_of_missing hs hm hr hsize)
    · exact Meets.next hw (Meets.of_ok rfl hm')
  · exact Meets.bind (Meets.of_error he ⟨hm.release, hraw⟩)

theorem Keeps.setOptional {r : Int64} {v : Value} (hs : s.Runs c base)
    (hm : m.Within t s (v :: own)) (hr : t.strict → c.prototype.HasOptional r) :
    Keeps t s own (setOptional base r v) (setOptional base r v) (fun _ => []) m := by
  unfold Exec.setOptional
  split
  · rename_i hp
    exact .setRegister hs hm fun ht => hr ht hp
  · exact .released hm

/-! ## The current frame -/

theorem currentFrame_eq {f : Frame} {rest : List Frame} (hf : m.frames = f :: rest) :
    currentFrame m = .ok f m := by
  unfold currentFrame
  rw [bind_ok m (show (get : Exec Machine) m = .ok m m from rfl), hf]
  rfl

theorem setIp_eq {f : Frame} {rest : List Frame} (ip : Nat) (hf : m.frames = f :: rest) :
    setIp ip m = .ok () (m.withFrames ({ f with ip } :: rest)) := by
  show EStateM.Result.ok () _ = _
  simp only [hf]
  rfl

theorem currentFrame_reads (hs : s.Runs c base) (hm : m.Within t s own) :
    Reads t currentFrame (fun f => f.prototype = c.prototype ∧
      m.heap.closure? f.closure = some c ∧ ∃ rest, m.frames = f :: rest) m := by
  obtain ⟨f, rest, hf, hp, hc⟩ := hm.current hs
  exact .inl ⟨f, currentFrame_eq hf, hp, hc, rest, hf⟩

/-- The current function goes on elsewhere. -/
theorem Keeps.jump {offset : Int64} (hj : s.jumps) (hs : s.Runs c base) (hm : m.Within t s.quiet own)
    (hr : t.strict → ∀ f rest, m.frames = f :: rest → 0 ≤ Int64.ofNat f.ip + offset) :
    Keeps t s own (jump offset) (jump offset) (fun _ => []) m := by
  unfold Exec.jump
  refine .reading (currentFrame_reads hs hm.of_quiet) hm.of_quiet fun f ⟨_, _, rest, hf⟩ => ?_
  simp only
  split
  · rename_i hneg
    exact .malformed hm.of_quiet fun ht => Int64.not_le.2 hneg (hr ht f rest hf)
  · exact Meets.of_ok (setIp_eq _ hf) ⟨hm.toTidy.reframe hf rfl rfl, hm.toFollows.trans (.withFrames _),
      .inr ⟨hj, f, rest, _, hm.frames_quiet.symm.trans hf, rfl⟩, hm.size⟩

theorem ofLiteral_keeps (l : Literal) (hm : m.Within t s own) :
    Keeps t s own (ofLiteral l) (ofLiteral l) (fun v => [v]) m := by
  unfold ofLiteral
  cases l with
  | string x => exact Meets.of_ok (heap_eq m _) (hm.heap_cons (hm.backs.newString x))
  | space x =>
    refine Meets.of_ok (heap_eq m _) ?_
    refine hm.heap_cons (Heap.Backs.allocate (b := .content) ?_ ?_ trivial rfl rfl ?_)
    · exact hm.backs.mono (by simp [Body.values])
    · simp [Body.mentions, Body.values]
    · exact fun i hi => by cases hi
  | null | integer n | float x | complex re im | bool b => exact .pure (hm.own_plain rfl)

theorem Keeps.literal {index : Int64} (hs : s.Runs c base) (hm : m.Within t s own)
    (hr : t.strict → c.prototype.HasLiteral index) :
    Keeps t s own (literal index) (literal index) (fun v => [v]) m := by
  unfold Exec.literal
  refine .reading (currentFrame_reads hs hm) hm fun f ⟨hp, _⟩ => ?_
  split
  · exact ofLiteral_keeps _ hm
  · rename_i hnone
    refine .malformed hm fun ht => ?_
    obtain ⟨hpos, hlt⟩ := hr ht
    rw [if_neg (Int64.not_lt.2 hpos), hp, Array.getElem?_eq_getElem hlt] at hnone
    cases hnone

end Exec

end ScriptMachine
