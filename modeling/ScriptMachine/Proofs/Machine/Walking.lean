import ScriptMachine.Machine.Iteration
import ScriptMachine.Proofs.ByteOrder
import ScriptMachine.Proofs.Heap.Keys
import ScriptMachine.Proofs.Machine.Isolation

/-!
# Walking over a dict that changes

A step of a walk looks for the entry after the key that the step before left in a
register. Whatever is done to the dict between the steps, the keys ascend, each is
delivered with the value it has at its step, none that is there all the time is
passed over, and the walk ends where no key is left above the last one.
-/

set_option autoImplicit false

namespace ScriptMachine

/-- A register of the frame at the base has a value. -/
def Machine.Has (m : Machine) (base : Nat) (r : Int64) (v : Value) : Prop :=
  0 ≤ r ∧ m.stack[base + r.toInt.toNat]? = some v

namespace Exec

variable {call : Caller} {base : Nat} {i : Instruction} {r : Ref} {m m' : Machine}

/-! ## One step -/

/-- The registers of a walk over a dict are there, and the last of them has the
state that the walk is in. -/
structure Poised (base : Nat) (i : Instruction) (r : Ref) (state : Value) (m : Machine) : Prop where
  container : m.Has base i.arg0 (.dict r)
  key : ∃ v, m.Has base i.arg2 v
  value : ∃ v, m.Has base (i.arg2 + 1) v
  state : m.Has base (i.arg2 + 2) state

/-- The step goes on with an entry: key and value are in their registers, and the
state moves on to the key. No other slot changes, nor where the code goes on. -/
structure Delivers (call : Caller) (base : Nat) (i : Instruction) (m m' : Machine) (k : Text)
    (v : Value) : Prop where
  runs : foreachInstruction call base i m = .ok () m'
  key : m'.Has base i.arg2 (.string k)
  value : m'.Has base (i.arg2 + 1) v
  state : m'.Has base (i.arg2 + 2) (.string k)
  moves : ¬ m.Has base (i.arg2 + 2) (.string k)
  others : ∀ j, j ≠ base + i.arg2.toInt.toNat → j ≠ base + (i.arg2 + 1).toInt.toNat →
    j ≠ base + (i.arg2 + 2).toInt.toNat → m'.stack[j]? = m.stack[j]?
  frames : m'.frames = m.frames

/-- The step jumps, and does nothing else. -/
def WalksOff (call : Caller) (base : Nat) (i : Instruction) (m : Machine) : Prop :=
  ∃ h, foreachInstruction call base i m =
    match jump i.arg1 m with
    | .ok _ m' => .ok () (m'.withHeap h)
    | .error e m' => .error e (m'.withHeap h)

theorem register_eq {reg : Int64} {v : Value} (h : m.Has base reg v) :
    register base reg m = .ok v m := by
  have hslot : registerSlot base reg m = .ok (base + reg.toInt.toNat) m := by
    unfold registerSlot
    rw [if_neg (Int64.not_lt.2 h.1)]
    rfl
  unfold register
  rw [bind_ok m hslot,
    bind_ok m (show slot? _ m = .ok (some v) m from congrArg (EStateM.Result.ok · m) h.2)]
  rfl

theorem toInt_add_of_nonneg {r k : Int64} (hr : 0 ≤ r) (hk : 0 ≤ k) (hrk : 0 ≤ r + k) :
    (r + k).toInt = r.toInt + k.toInt := by
  rw [Int64.le_iff_toInt_le, Int64.toInt_zero] at hr hk hrk
  have h1 := r.toInt_lt
  have h2 := k.toInt_lt
  rw [Int64.toInt_add, Int.bmod] at hrk ⊢
  split at hrk <;> rename_i hs
  · rw [if_pos hs]
    omega
  · omega

theorem entries_retainAll (h : Heap) (vs : List Value) (r : Ref) :
    (h.retainAll vs).entries r = h.entries r := by
  induction vs generalizing h with
  | nil => rfl
  | cons v vs ih =>
    refine (ih (h.retain v)).trans ?_
    simp only [Heap.entries, Heap.body?_retain]

/-- A jump fails or moves within the frame, whatever the heap. -/
theorem jump_cases (offset : Int64) (m : Machine) :
    (∃ e, ∀ h, jump offset (m.withHeap h) = .error e (m.withHeap h)) ∨
      ∃ fs, ∀ h, jump offset (m.withHeap h) = .ok () ((m.withFrames fs).withHeap h) := by
  cases hf : m.frames with
  | nil =>
    refine .inl ⟨.script ⟨.compile, "no active call frame", []⟩, fun h => ?_⟩
    cases m
    cases hf
    rfl
  | cons f rest =>
    have hf' : ∀ h, (m.withHeap h).frames = f :: rest := fun _ => hf
    by_cases hlt : Int64.ofNat f.ip + offset < 0
    · refine .inl ⟨.script ⟨.compile, "jump before function start", []⟩, fun h => ?_⟩
      unfold jump
      rw [bind_ok _ (currentFrame_eq (hf' h))]
      simp only [if_pos hlt]
      rfl
    · refine .inr ⟨{ f with ip := (Int64.ofNat f.ip + offset).toInt.toNat } :: rest, fun h => ?_⟩
      unfold jump
      rw [bind_ok _ (currentFrame_eq (hf' h))]
      simp only [if_neg hlt]
      exact setIp_eq _ (hf' h)

theorem foreach_eq {state : Value} (hp : Poised base i r state m) :
    foreachInstruction call base i m =
      owning [.dict r] (nextVisit call (.dict r) state >>= fun visit =>
        match visit with
        | none => jump i.arg1
        | some s => do
          handing s.state do
            handing s.value do
              setRegister base i.arg2 s.key
            setRegister base (i.arg2 + 1) s.value
          setRegister base (i.arg2 + 2) s.state)
        (m.withHeap (m.heap.retainAll [.dict r])) := by
  unfold foreachInstruction
  rw [bind_ok m (register_eq hp.container), bind_ok m (register_eq hp.state)]
  unfold holding
  exact bind_ok m (retainAll_eq m _)

theorem nextVisit_dict (call : Caller) (state : Value) (m : Machine) :
    nextVisit call (.dict r) state m = match (m.heap.entries r).next? state.asString? with
    | none => .ok none m
    | some e => .ok (some ⟨.string e.1, e.2, .string e.1⟩)
        (m.withHeap (m.heap.retainAll [.string e.1, e.2, .string e.1])) := by
  unfold nextVisit
  simp only
  rw [bind_ok m (show readHeap _ m = .ok (m.heap.entries r) m from rfl)]
  cases (m.heap.entries r).next? state.asString? with
  | none => rfl
  | some e =>
    show sharingVisit _ m = _
    unfold sharingVisit
    simp only [Option.map_some]
    rw [bind_ok m (retainAll_eq m _)]
    rfl

theorem Poised.of_stack {state : Value} (hp : Poised base i r state m)
    (hstack : m'.stack = m.stack) : Poised base i r state m' := by
  have hhas : ∀ {reg v}, m.Has base reg v → m'.Has base reg v := fun h => ⟨h.1, hstack ▸ h.2⟩
  exact ⟨hhas hp.container, hp.key.imp fun _ => hhas, hp.value.imp fun _ => hhas, hhas hp.state⟩

/-- The three registers of a step follow each other. -/
theorem Poised.registers {state : Value} (hp : Poised base i r state m) :
    (i.arg2 + 1).toInt.toNat = i.arg2.toInt.toNat + 1 ∧
      (i.arg2 + 2).toInt.toNat = i.arg2.toInt.toNat + 2 := by
  obtain ⟨k, hk, -⟩ := hp.key
  obtain ⟨v, hv, -⟩ := hp.value
  have h1 := toInt_add_of_nonneg hk (k := 1) (by decide) hv
  have h2 := toInt_add_of_nonneg hk (k := 2) (by decide) hp.state.1
  rw [Int64.le_iff_toInt_le, Int64.toInt_zero] at hk
  rw [h1, h2, show (1 : Int64).toInt = 1 from rfl, show (2 : Int64).toInt = 2 from rfl]
  omega

/-- Writing a register that is there changes only its slot. -/
theorem setRegister_has {reg : Int64} {w : Value} (h : m.Has base reg w) (v : Value) :
    ∃ m1, setRegister base reg v m = .ok () m1 ∧
      m1.stack = m.stack.setIfInBounds (base + reg.toInt.toNat) v ∧ m1.frames = m.frames := by
  obtain ⟨g, hset⟩ := setRegister_found h.1 (Array.getElem?_eq_some_iff.1 h.2).1 v
  exact ⟨_, hset, rfl, rfl⟩

/-- What a step delivers is written to the three registers. -/
theorem Poised.writes {state : Value} (hp : Poised base i r state m) (k : Text) (v : Value) :
    ∃ m3, (handing (.string k) (handing v (setRegister base i.arg2 (.string k)) >>= fun _ =>
        setRegister base (i.arg2 + 1) v) >>= fun _ =>
        setRegister base (i.arg2 + 2) (.string k)) m = .ok () m3 ∧
      m3.stack = ((m.stack.setIfInBounds (base + i.arg2.toInt.toNat) (.string k)).setIfInBounds
        (base + (i.arg2 + 1).toInt.toNat) v).setIfInBounds (base + (i.arg2 + 2).toInt.toNat)
        (.string k) ∧
      m3.frames = m.frames := by
  obtain ⟨h1, h2⟩ := hp.registers
  obtain ⟨w0, hkey⟩ := hp.key
  obtain ⟨w1, hvalue⟩ := hp.value
  obtain ⟨m1, hset1, hstack1, hframes1⟩ := setRegister_has hkey (.string k)
  have hvalue1 : m1.Has base (i.arg2 + 1) w1 := by
    refine ⟨hvalue.1, ?_⟩
    rw [hstack1, Array.getElem?_setIfInBounds_ne (by omega)]
    exact hvalue.2
  obtain ⟨m2, hset2, hstack2, hframes2⟩ := setRegister_has hvalue1 v
  have hstate2 : m2.Has base (i.arg2 + 2) state := by
    refine ⟨hp.state.1, ?_⟩
    rw [hstack2, hstack1, Array.getElem?_setIfInBounds_ne (by omega),
      Array.getElem?_setIfInBounds_ne (by omega)]
    exact hp.state.2
  obtain ⟨m3, hset3, hstack3, hframes3⟩ := setRegister_has hstate2 (.string k)
  refine ⟨m3, ?_, by rw [hstack3, hstack2, hstack1], hframes3.trans (hframes2.trans hframes1)⟩
  have hinner : (handing v (setRegister base i.arg2 (.string k)) >>= fun _ =>
      setRegister base (i.arg2 + 1) v) m = .ok () m2 := by
    rw [bind_ok m (handing_ok hset1)]
    exact hset2
  rw [bind_ok m (handing_ok hinner)]
  exact hset3

/-- Where there is an entry to go on with, the step delivers it. -/
theorem foreach_delivers {state : Value} (hp : Poised base i r state m) {k : Text} {v : Value}
    (hnext : (m.heap.entries r).next? state.asString? = some (k, v)) :
    ∃ m', Delivers call base i m m' k v := by
  have hvisit := nextVisit_dict (r := r) call state
    (m.withHeap (m.heap.retainAll [.dict r]))
  rw [Machine.withHeap_heap, entries_retainAll, hnext] at hvisit
  -- sharing what is delivered leaves stack and frames alone
  obtain ⟨m0, hvisit, hstack0, hframes0⟩ : ∃ m0, nextVisit call (.dict r) state
      (m.withHeap (m.heap.retainAll [.dict r])) = .ok (some ⟨.string k, v, .string k⟩) m0 ∧
      m0.stack = m.stack ∧ m0.frames = m.frames := ⟨_, hvisit, rfl, rfl⟩
  obtain ⟨m3, hwrites, hstack, hframes⟩ := (hp.of_stack hstack0).writes k v
  rw [hstack0] at hstack
  obtain ⟨h1, h2⟩ := hp.registers
  obtain ⟨w0, hkey⟩ := hp.key
  obtain ⟨w1, hvalue⟩ := hp.value
  have hlt0 := (Array.getElem?_eq_some_iff.1 hkey.2).1
  have hlt1 := (Array.getElem?_eq_some_iff.1 hvalue.2).1
  have hlt2 := (Array.getElem?_eq_some_iff.1 hp.state.2).1
  refine ⟨m3.withHeap (m3.heap.releaseAll [Value.dict r].reverse),
    { runs := ?_
      key := ⟨hkey.1, ?_⟩
      value := ⟨hvalue.1, ?_⟩
      state := ⟨hp.state.1, ?_⟩
      moves := fun hhas => ?_
      others := fun j hj0 hj1 hj2 => ?_
      frames := hframes.trans hframes0 }⟩
  · rw [foreach_eq hp]
    refine owning_ok ?_
    rw [bind_ok _ hvisit]
    exact hwrites
  · rw [Machine.withHeap_stack, hstack, Array.getElem?_setIfInBounds_ne (by omega),
      Array.getElem?_setIfInBounds_ne (by omega),
      Array.getElem?_setIfInBounds_self_of_lt hlt0]
  · rw [Machine.withHeap_stack, hstack, Array.getElem?_setIfInBounds_ne (by omega),
      Array.getElem?_setIfInBounds_self_of_lt (by simpa using hlt1)]
  · rw [Machine.withHeap_stack, hstack,
      Array.getElem?_setIfInBounds_self_of_lt (by simpa using hlt2)]
  · -- the key lies above the state
    obtain rfl := Option.some.inj (hhas.2.symm.trans hp.state.2)
    obtain ⟨hbeyond, -⟩ := Entries.next?_least hnext
    exact String.lt_irrefl _ (hbeyond _ rfl)
  · rw [Machine.withHeap_stack, hstack, Array.getElem?_setIfInBounds_ne (Ne.symm hj2),
      Array.getElem?_setIfInBounds_ne (Ne.symm hj1),
      Array.getElem?_setIfInBounds_ne (Ne.symm hj0)]

/-- Where there is none, it jumps. -/
theorem foreach_walksOff {state : Value} (hp : Poised base i r state m)
    (hnext : (m.heap.entries r).next? state.asString? = none) : WalksOff call base i m := by
  have hvisit := nextVisit_dict (r := r) call state
    (m.withHeap (m.heap.retainAll [.dict r]))
  rw [Machine.withHeap_heap, entries_retainAll, hnext] at hvisit
  unfold WalksOff
  rw [foreach_eq hp]
  unfold owning
  rw [bind_ok _ hvisit]
  dsimp only
  rcases jump_cases i.arg1 m with ⟨e, hjump⟩ | ⟨fs, hjump⟩
  all_goals
    have hself := hjump m.heap
    rw [Machine.withHeap_self] at hself
    rw [hjump, hself]
    simp only [releaseAll_eq]
    exact ⟨_, rfl⟩

/-- A step that jumps leaves the state as it was. -/
theorem WalksOff.not_delivers (he : WalksOff call base i m) {k : Text} {v : Value} :
    ¬ Delivers call base i m m' k v := by
  intro hd
  obtain ⟨h, heq⟩ := he
  rw [hd.runs] at heq
  rcases jump_cases i.arg1 m with ⟨e, hjump⟩ | ⟨fs, hjump⟩
  all_goals
    have hself := hjump m.heap
    rw [Machine.withHeap_self] at hself
    rw [hself] at heq
    cases heq
  exact hd.moves hd.state

/-- What a step delivers is the next entry. -/
theorem Delivers.next {state : Value} {k : Text} {v : Value} (hd : Delivers call base i m m' k v)
    (hp : Poised base i r state m) :
    (m.heap.entries r).next? state.asString? = some (k, v) := by
  cases hnext : (m.heap.entries r).next? state.asString? with
  | none => exact absurd hd (foreach_walksOff hp hnext).not_delivers
  | some e =>
    obtain ⟨m1, hd1⟩ : ∃ m1, Delivers call base i m m1 e.1 e.2 := foreach_delivers hp hnext
    have hsame := hd.runs.symm.trans hd1.runs
    cases hsame
    have hk := Option.some.inj (hd.state.2.symm.trans hd1.state.2)
    have hv := Option.some.inj (hd.value.2.symm.trans hd1.value.2)
    cases hk
    cases hv
    rfl

/-! ## Whole walks -/

/-- A step that delivered an entry, with the machine that it met. -/
structure Delivery where
  before : Machine
  key : Text
  value : Value

/-- The key that a walk has come to. -/
def cursorOf (seen : List Delivery) : Option String := seen.getLast?.map (·.key.chars)

@[simp] theorem cursorOf_snoc (seen : List Delivery) (d : Delivery) :
    cursorOf (seen ++ [d]) = some d.key.chars := by
  simp [cursorOf]

/-- The steps of a walk that have delivered, and the machine that the next one
meets. It starts with a null state; between the steps anything is done, to the
dict as well, but for the register of the container and that of the state. -/
inductive Walk (call : Caller) (base : Nat) (i : Instruction) (r : Ref) :
    List Delivery → Machine → Prop
  | start {m : Machine} : Poised base i r .null m → Walk call base i r [] m
  | next {seen : List Delivery} {m m' m'' : Machine} {k : Text} {v : Value} :
    Walk call base i r seen m → Delivers call base i m m' k v →
    Poised base i r (.string k) m'' → Walk call base i r (seen ++ [⟨m, k, v⟩]) m''

/-- What holds of the deliveries so far: they ascend up to the cursor, each was
there, and no key that was there all the time is left out. -/
structure Progress (r : Ref) (seen : List Delivery) : Prop where
  ascending : seen.Pairwise fun x y => x.key.chars < y.key.chars
  behind : ∀ x ∈ seen, ∀ key, Entries.Beyond (cursorOf seen) key → x.key.chars < key
  present : ∀ x ∈ seen, (x.before.heap.entries r).find? x.key.chars = some x.value
  complete : ∀ key, (∀ x ∈ seen, (x.before.heap.entries r).contains key) →
    ¬ Entries.Beyond (cursorOf seen) key → ∃ x ∈ seen, x.key.chars = key

theorem Walk.poised {seen : List Delivery} (hw : Walk call base i r seen m) :
    ∃ state, Poised base i r state m ∧ state.asString? = cursorOf seen := by
  cases hw with
  | start hp => exact ⟨_, hp, rfl⟩
  | next hw hd hp => exact ⟨_, hp, by simp [Value.asString?]⟩

theorem Progress.nil (r : Ref) : Progress r [] where
  ascending := List.Pairwise.nil
  behind := fun _ hx => by cases hx
  present := fun _ hx => by cases hx
  complete := fun key _ hnot => absurd (Entries.beyond_none key) hnot

theorem Progress.snoc {seen : List Delivery} (hp : Progress r seen) {k : Text} {v : Value}
    (hnext : (m.heap.entries r).next? (cursorOf seen) = some (k, v)) :
    Progress r (seen ++ [⟨m, k, v⟩]) := by
  obtain ⟨hbeyond, hfound, hleast⟩ := Entries.next?_least hnext
  have hcursor := cursorOf_snoc seen ⟨m, k, v⟩
  have hbehind := fun x hx => hp.behind x hx k.chars hbeyond
  refine ⟨?_, fun x hx key hkey => ?_, fun x hx => ?_, fun key hall hnot => ?_⟩
  · exact List.pairwise_append.2 ⟨hp.ascending, List.pairwise_singleton _ _, fun x hx y hy => by
      rw [List.mem_singleton.1 hy]
      exact hbehind x hx⟩
  · rw [hcursor, Entries.beyond_some] at hkey
    rcases List.mem_append.1 hx with hx | hx
    · exact String.lt_trans (hbehind x hx) hkey
    · rw [List.mem_singleton.1 hx]
      exact hkey
  · rcases List.mem_append.1 hx with hx | hx
    · exact hp.present x hx
    · rw [List.mem_singleton.1 hx]
      exact hfound
  · rw [hcursor, Entries.beyond_some] at hnot
    by_cases hb : Entries.Beyond (cursorOf seen) key
    · -- it lay before the walk, which has just reached it
      have hge := hleast key (hall ⟨m, k, v⟩ (by simp)) hb
      refine ⟨⟨m, k, v⟩, by simp, ?_⟩
      exact (Std.lt_trichotomy k.chars key).elim (fun h => absurd h hnot)
        fun h => h.elim id fun h => absurd h hge
    · obtain ⟨x, hx, hkey⟩ := hp.complete key (fun x hx => hall x (List.mem_append_left _ hx)) hb
      exact ⟨x, List.mem_append_left _ hx, hkey⟩

theorem Walk.progress {seen : List Delivery} (hw : Walk call base i r seen m) :
    Progress r seen := by
  induction hw with
  | start _ => exact .nil r
  | next hw hd _ ih =>
    obtain ⟨state, hp, hcursor⟩ := hw.poised
    exact ih.snoc (hcursor ▸ hd.next hp)

theorem not_beyond_cursor {seen : List Delivery} {key : String} :
    ¬ Entries.Beyond (cursorOf seen) key ↔
      ∃ x, seen.getLast? = some x ∧ ¬ bytes x.key.chars < bytes key := by
  unfold cursorOf
  cases seen.getLast? with
  | none => simp [Entries.beyond_none]
  | some x => simp [Entries.beyond_some, bytes_lt_bytes]

/-- The machine that a step leaves, with a change of the heap. -/
def editedAfter (call : Caller) (base : Nat) (i : Instruction) (edit : Heap → Heap) (m : Machine) :
    Machine :=
  match foreachInstruction call base i m with
  | .ok _ m' => m'.withHeap (edit m'.heap)
  | .error _ m' => m'

/-- A walk goes on with whatever has become of the heap, and so of the dict, where
the container has a register of its own. -/
theorem Walk.go_on {seen : List Delivery} (hw : Walk call base i r seen m)
    (hapart : i.arg0 ≠ i.arg2 ∧ i.arg0 ≠ i.arg2 + 1 ∧ i.arg0 ≠ i.arg2 + 2) {k : Text} {v : Value}
    (hnext : (m.heap.entries r).next? (cursorOf seen) = some (k, v)) (edit : Heap → Heap) :
    Walk call base i r (seen ++ [⟨m, k, v⟩]) (editedAfter call base i edit m) := by
  obtain ⟨state, hp, hcursor⟩ := hw.poised
  obtain ⟨m', hd⟩ : ∃ m', Delivers call base i m m' k v := foreach_delivers hp (hcursor ▸ hnext)
  have hafter : editedAfter call base i edit m = m'.withHeap (edit m'.heap) := by
    unfold editedAfter
    rw [hd.runs]
  have hslot : ∀ {reg : Int64}, 0 ≤ reg → i.arg0 ≠ reg →
      base + i.arg0.toInt.toNat ≠ base + reg.toInt.toNat := by
    intro reg hreg hne heq
    have h0 := hp.container.1
    rw [Int64.le_iff_toInt_le, Int64.toInt_zero] at hreg h0
    exact hne (Int64.toInt_inj.1 (by omega))
  rw [hafter]
  refine hw.next hd (Poised.of_stack (m := m') ⟨⟨hp.container.1, ?_⟩, ⟨_, hd.key⟩, ⟨_, hd.value⟩,
    hd.state⟩ rfl)
  rw [hd.others _ (hslot hd.key.1 hapart.1) (hslot hd.value.1 hapart.2.1)
    (hslot hd.state.1 hapart.2.2)]
  exact hp.container.2

/-- A walk over a dict that changes. The keys ascend by their bytes, and each is
delivered with the value that it has when it is reached. The walk ends just when
every key that is there lies at or before the last one, and goes on otherwise.
When it ends, a key that was there at every step has been delivered once. -/
theorem dict_walk {seen : List Delivery} (hw : Walk call base i r seen m) :
    seen.Pairwise (fun x y => bytes x.key.chars < bytes y.key.chars) ∧
      (∀ x ∈ seen, (x.before.heap.entries r).find? x.key.chars = some x.value) ∧
      (WalksOff call base i m ↔ ∀ key, (m.heap.entries r).contains key →
        ∃ x, seen.getLast? = some x ∧ ¬ bytes x.key.chars < bytes key) ∧
      (¬ WalksOff call base i m → ∃ m' k v, Delivers call base i m m' k v) ∧
      (WalksOff call base i m → ∀ key, (∀ x ∈ seen, (x.before.heap.entries r).contains key) →
        (m.heap.entries r).contains key → (seen.map (·.key.chars)).count key = 1) := by
  have hprogress := hw.progress
  obtain ⟨state, hp, hcursor⟩ := hw.poised
  have hoff : WalksOff call base i m ↔ (m.heap.entries r).next? (cursorOf seen) = none := by
    refine ⟨fun he => ?_, fun hnext => foreach_walksOff hp (hcursor ▸ hnext)⟩
    cases hnext : (m.heap.entries r).next? (cursorOf seen) with
    | none => rfl
    | some e =>
      obtain ⟨m', hd⟩ : ∃ m', Delivers call base i m m' e.1 e.2 :=
        foreach_delivers hp (hcursor ▸ hnext)
      exact absurd hd he.not_delivers
  refine ⟨hprogress.ascending.imp bytes_lt_bytes.2, hprogress.present, ?_, fun hgo => ?_,
    fun he key hall hlast => ?_⟩
  · simp only [hoff, Entries.next?_eq_none, not_beyond_cursor]
  · obtain ⟨e, hnext⟩ := Option.ne_none_iff_exists'.1 (fun hnone => hgo (hoff.2 hnone))
    obtain ⟨m', hd⟩ : ∃ m', Delivers call base i m m' e.1 e.2 :=
      foreach_delivers hp (hcursor ▸ hnext)
    exact ⟨m', e.1, e.2, hd⟩
  · obtain ⟨x, hx, hkey⟩ := hprogress.complete key hall
      (Entries.next?_eq_none.1 (hoff.1 he) key hlast)
    refine List.count_eq_one_of_mem ?_ (List.mem_map.2 ⟨x, hx, hkey⟩)
    exact List.pairwise_map.2 (hprogress.ascending.imp String.ne_of_lt)

/-- A walk with the dict in register 0 and its own registers from 1 on. -/
def strollInstruction : Instruction := { opcode := .foreach, arg0 := 0, arg1 := 7, arg2 := 1 }

def strollCall : Caller := fun _ _ => pure .null

/-- A dict with the keys "", "b" and "c". -/
def strollStart : Machine :=
  let (r, h) := ({} : Heap).newDict
  { heap := ((h.dictInsertChars r "" (.integer 0)).dictInsertChars r "b" (.integer 1))
      |>.dictInsertChars r "c" (.integer 2)
    stack := #[.dict r, .null, .null, .null]
    frames := [{ closure := r, prototype := { name := "stroll" }, base := 0, prevTop := 0,
                 target := none, root := true }] }

/-- The key just delivered is removed, and one is entered before the others. -/
def strollSecond : Machine :=
  editedAfter strollCall 0 strollInstruction
    (fun h => (h.dictRemove ⟨0⟩ "").2.dictInsertChars ⟨0⟩ "a" (.integer 7)) strollStart

/-- A key ahead is removed, and another has its value overwritten. -/
def strollThird : Machine :=
  editedAfter strollCall 0 strollInstruction
    (fun h => ((h.dictRemove ⟨0⟩ "c").2.dictSet ⟨0⟩ "b" (.integer 9)).2) strollSecond

def strollLast : Machine := editedAfter strollCall 0 strollInstruction id strollThird

theorem dict_walk_stroll : ∃ seen, Walk strollCall 0 strollInstruction ⟨0⟩ seen strollLast ∧
    seen.map (·.key.chars) = ["", "a", "b"] ∧
    WalksOff strollCall 0 strollInstruction strollLast ∧
    (seen.map (·.key.chars)).count "b" = 1 := by
  have hapart : strollInstruction.arg0 ≠ strollInstruction.arg2 ∧
      strollInstruction.arg0 ≠ strollInstruction.arg2 + 1 ∧
      strollInstruction.arg0 ≠ strollInstruction.arg2 + 2 := by decide
  have hw0 : Walk strollCall 0 strollInstruction ⟨0⟩ [] strollStart :=
    .start ⟨⟨by decide, rfl⟩, ⟨_, by decide, rfl⟩, ⟨_, by decide, rfl⟩, by decide, rfl⟩
  obtain ⟨⟨k1, v1⟩, hnext1, hkey1⟩ := Option.map_eq_some_iff.1
    (show ((strollStart.heap.entries ⟨0⟩).next? none).map (·.1.chars) = some "" by decide +kernel)
  have hw1 : Walk strollCall 0 strollInstruction ⟨0⟩ _ strollSecond := hw0.go_on hapart hnext1 _
  obtain ⟨⟨k2, v2⟩, hnext2, hkey2⟩ := Option.map_eq_some_iff.1
    (show ((strollSecond.heap.entries ⟨0⟩).next? (some "")).map (·.1.chars) = some "a" by
      decide +kernel)
  have hw2 : Walk strollCall 0 strollInstruction ⟨0⟩ _ strollThird :=
    hw1.go_on hapart (by rw [cursorOf_snoc, hkey1]; exact hnext2) _
  obtain ⟨⟨k3, v3⟩, hnext3, hkey3⟩ := Option.map_eq_some_iff.1
    (show ((strollThird.heap.entries ⟨0⟩).next? (some "a")).map (·.1.chars) = some "b" by
      decide +kernel)
  have hw3 : Walk strollCall 0 strollInstruction ⟨0⟩ _ strollLast :=
    hw2.go_on hapart (by rw [cursorOf_snoc, hkey2]; exact hnext3) _
  have hend : WalksOff strollCall 0 strollInstruction strollLast := by
    obtain ⟨state, hp, hcursor⟩ := hw3.poised
    refine foreach_walksOff hp ?_
    rw [hcursor, cursorOf_snoc, hkey3]
    exact Option.isNone_iff_eq_none.1 (by decide +kernel)
  have hkeys : [k1.chars, k2.chars, k3.chars] = ["", "a", "b"] := by
    rw [show k1.chars = "" from hkey1, show k2.chars = "a" from hkey2,
      show k3.chars = "b" from hkey3]
  refine ⟨_, hw3, hkeys, hend, (dict_walk hw3).2.2.2.2 hend "b" ?_ ?_⟩
  · intro x hx
    simp only [List.nil_append, List.cons_append, List.mem_cons, List.not_mem_nil, or_false] at hx
    rcases hx with rfl | rfl | rfl
    · show (strollStart.heap.entries ⟨0⟩).contains "b"
      decide +kernel
    · show (strollSecond.heap.entries ⟨0⟩).contains "b"
      decide +kernel
    · show (strollThird.heap.entries ⟨0⟩).contains "b"
      decide +kernel
  · decide +kernel

end Exec

end ScriptMachine
