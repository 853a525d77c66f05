import ScriptMachine.Proofs.Machine.Accord
import ScriptMachine.Proofs.Machine.Effects
import ScriptMachine.Proofs.Machine.Regimes

/-!
# Instructions at two machines

The effect of an instruction at two machines that are in order at the same point. What a
register lends lives in both, and what is made is entered into both heaps alike.
-/

set_option autoImplicit false

namespace ScriptMachine

variable {P : NativeObject → Prop} {φ : Fault} {t : Terms} {s s' : Scope}

/-- The same function runs at both machines; its code may be malformed. -/
structure RunBoth (t : Terms) (s s' : Scope) (c : ClosureObject) (base : Nat) : Prop where
  left : s.Runs c base
  right : s'.Runs c base
  lax : ¬ t.strict

namespace Machine.Level

variable {own : List Value} {m m' : Machine}

theorem shared_running (hl : Level P t s s' own m m') {f : Frame} (hf : f ∈ m.frames) :
    Shared m m' (.closure f.closure) :=
  ⟨hl.left.has_running hf, hl.right.has_running (by rwa [hl.twin.frames_eq])⟩

theorem shared_cell (hl : Level P t s s' own m m') {c : Ref} (hc : c ∈ m.openOuters.toList) :
    Shared m m' (.outer c) :=
  ⟨hl.left.has_cell hc, hl.right.has_cell (by rwa [hl.twin.openOuters_eq])⟩

/-- Closing captured slots keeps two machines at the same point. -/
theorem closed (hl : Level P t s s' own m m') (slot : Nat) :
    (m.closed slot).Twin P (m'.closed slot) := by
  obtain ⟨h, c, heq, hm⟩ := hl.twin
  subst heq
  have hb' : h.Backs t.law ((OpenOuters.values m.openOuters : Multiset Value) +
      besideCells t own m) := hl.right.toTidy.beside
  obtain ⟨hcells, hmirrors⟩ := OpenOuters.closeWithin_eq m.openOuters.size 0 hm hl.left.cells
    hl.right.cells hl.left.toTidy.beside hb' fun _ hv => slot_mem_beside hv
  refine ⟨_, c, ?_, hmirrors⟩
  show (m.across h c).withCells (OpenOuters.closeFrom h m.openOuters slot m.stack).2.1
    (OpenOuters.closeFrom h m.openOuters slot m.stack).2.2 = _
  rw [show (OpenOuters.closeFrom h m.openOuters slot m.stack).2.1 =
    (OpenOuters.closeFrom m.heap m.openOuters slot m.stack).2.1 from hcells]
  rfl

end Machine.Level

theorem Machine.Twin.withCells {m m' : Machine} {k k' : Heap} (ht : m.Twin P m') (cells : Array Ref)
    (hk : k.Mirrors P k') : (m.withCells cells k).Twin P (m'.withCells cells k') := by
  obtain ⟨h, c, rfl, -⟩ := ht
  exact ⟨k', c, rfl, hk⟩

namespace Exec

open ScriptMachine.Machine (Level Shared)

variable {α β : Type} {m m' : Machine} {own vs : List Value} {call call' : Caller}
variable {c : ClosureObject} {base : Nat} {i : Instruction} {act act' : Exec α} {f f' : α → Exec β}

/-- Both machines are left as they are by what the first part reads. -/
theorem EchoAt.reading {G G' : α → Prop} (h : EchoAt P φ act act' m m') (hr : Reads t act G m)
    (hr' : Reads t act' G' m') (hf : ∀ a, G a → G' a → EchoAt P φ (f a) (f' a) m m') :
    EchoAt P φ (act >>= f) (act' >>= f') m m' := by
  refine h.bind fun a n n' heq heq' _ => ?_
  rcases hr with ⟨b, hb, hg⟩ | ⟨e, he, -⟩
  · rcases hr' with ⟨b', hb', hg'⟩ | ⟨e, he, -⟩
    · rw [heq] at hb
      rw [heq'] at hb'
      cases hb
      cases hb'
      exact hf a hg hg'
    · rw [heq'] at he
      cases he
  · rw [heq] at he
    cases he

/-! ## Registers -/

theorem register_echo (ht : m.Twin P m') (r : Int64) :
    EchoAt P φ (register base r) (register base r) m m' := by
  unfold register
  refine (registerSlot_echo ht base r).seq fun k _ _ hn => (slot?_echo hn k).seq fun o _ _ hn1 => ?_
  cases o with
  | none => exact .fail hn1 _
  | some v => exact .pure hn1 v

/-- A register lends the same value at both machines. -/
theorem EchoAt.register (hs : RunBoth t s s' c base) {r : Int64} {f f' : Value → Exec β}
    (hl : Level P t s s' own m m')
    (hf : ∀ v, Shared m m' v → EchoAt P φ (f v) (f' v) m m') :
    EchoAt P φ (Exec.register base r >>= f) (Exec.register base r >>= f') m m' :=
  .reading (register_echo hl.twin r) (register_reads hs.left hl.left fun ht => absurd ht hs.lax)
    (register_reads hs.right hl.right fun ht => absurd ht hs.lax) fun v hv hv' =>
      hf v ⟨hl.left.has_slot hv.2, hl.right.has_slot hv'.2⟩

theorem EchoAt.literal (hs : RunBoth t s s' c base) {r : Int64} {f f' : Value → Exec β}
    (hl : Level P t s s' own m m')
    (hf : ∀ v n n', Level P t s s' (v :: own) n n' → EchoAt P φ (f v) (f' v) n n') :
    EchoAt P φ (Exec.literal r >>= f) (Exec.literal r >>= f') m m' :=
  .keeping (literal_echo hl.twin r) (.literal hs.left hl.left fun ht => absurd ht hs.lax)
    (.literal hs.right hl.right fun ht => absurd ht hs.lax) hf

/-! ## Captured variables -/

theorem EchoAt.currentOuters (hs : RunBoth t s s' c base) {f f' : List Ref → Exec β}
    (hl : Level P t s s' own m m')
    (hf : EchoAt P φ (f c.outers) (f' c.outers) m m') :
    EchoAt P φ (Exec.currentOuters >>= f) (Exec.currentOuters >>= f') m m' := by
  have houters : ∀ {s : Scope} {n : Machine}, s.Runs c base → n.Within t s own →
      Exec.currentOuters n = .ok c.outers n := by
    intro s n hs hn
    obtain ⟨g, rest, hg, -, hc⟩ := hn.current hs
    have hread : Exec.readHeap (fun (h : Heap) => h.closure? g.closure) n =
        EStateM.Result.ok (some c) n :=
      congrArg (EStateM.Result.ok · n) hc
    unfold Exec.currentOuters
    rw [bind_ok n (currentFrame_eq hg), bind_ok n hread]
    rfl
  exact .next (houters hs.left hl.left) (houters hs.right hl.right) hf

theorem EchoAt.outerCell (hs : RunBoth t s s' c base) {index : Int64} {f f' : Ref → Exec β}
    (hl : Level P t s s' own m m')
    (hf : ∀ cell, Shared m m' (.outer cell) → EchoAt P φ (f cell) (f' cell) m m') :
    EchoAt P φ (Exec.outerCell index >>= f) (Exec.outerCell index >>= f') m m' := by
  have hecho : EchoAt P φ (Exec.outerCell index) (Exec.outerCell index) m m' := by
    unfold Exec.outerCell
    refine .reading (indexArg_echo hl.twin index _) (indexArg_reads fun ht => absurd ht hs.lax)
      (indexArg_reads fun ht => absurd ht hs.lax) fun k _ _ => ?_
    refine .currentOuters hs hl ?_
    split
    · exact .pure hl.twin _
    · exact .fail hl.twin _
  refine .reading hecho (outerCell_reads hs.left hl.left fun ht => absurd ht hs.lax)
    (outerCell_reads hs.right hl.right fun ht => absurd ht hs.lax) fun cell hcell _ => hf cell ?_
  have hmem := List.mem_of_getElem? hcell.2
  exact ⟨hl.left.has_captured hs.left hmem, hl.right.has_captured hs.right hmem⟩

theorem moveRegister_echo (ht : m.Twin P m') (target source : Int64) :
    EchoAt P φ (moveRegister base target source) (moveRegister base target source) m m' :=
  (register_echo ht source).seq fun v _ _ hn => (sharing_echo hn v).seq fun w _ _ hn1 =>
    setRegister_echo hn1 base target w

theorem capture_echo (hl : Level P t s s' own m m') (slot : Nat) :
    EchoAt P φ (capture slot) (capture slot) m m' := by
  obtain ⟨hcell, hcells, hm⟩ := OpenOuters.capture_eq hl.abreast (fun _ => hl.shared_cell) slot
  have heq' : capture slot m' = .ok (OpenOuters.capture m'.heap m'.openOuters slot).1
      (m'.withCells (OpenOuters.capture m'.heap m'.openOuters slot).2.1
        (OpenOuters.capture m'.heap m'.openOuters slot).2.2) := rfl
  rw [hl.twin.openOuters_eq, hcell, hcells] at heq'
  exact .of_ok rfl heq' (hl.twin.withCells _ hm)

theorem closeOuters_echo (hl : Level P t s s' own m m') (slot : Nat) :
    EchoAt P φ (closeOuters slot) (closeOuters slot) m m' :=
  .of_ok (closeOuters_eq slot m) (closeOuters_eq slot m') (hl.closed slot)

theorem readOuter_echo (hl : Level P t s s' own m m') {cell : Ref}
    (hc : Shared m m' (.outer cell)) : EchoAt P φ (readOuter cell) (readOuter cell) m m' := by
  refine .of_ok (a := OpenOuters.read m.heap cell m.stack) rfl ?_ hl.twin
  rw [← OpenOuters.read_eq hl.abreast hc, ← hl.twin.stack_eq]
  rfl

theorem writeOuter_echo (hl : Level P t s s' own m m') {cell : Ref}
    (hc : Shared m m' (.outer cell)) (v : Value) :
    EchoAt P φ (writeOuter cell v) (writeOuter cell v) m m' := by
  obtain ⟨hstack, hm⟩ := OpenOuters.write_eq hl.abreast hc m.stack v
  have heq' := writeOuter_eq cell v m'
  rw [hl.twin.stack_eq, hstack] at heq'
  refine .of_ok (writeOuter_eq cell v m) heq' ?_
  obtain ⟨h, c, rfl, -⟩ := hl.twin
  exact ⟨_, c, rfl, hm⟩

theorem getOuter_echo (hs : RunBoth t s s' c base) (hl : Level P t s s' own m m') :
    EchoAt P φ (do setRegister base i.arg0 (← sharing (← readOuter (← outerCell i.arg1))))
      (do setRegister base i.arg0 (← sharing (← readOuter (← outerCell i.arg1)))) m m' := by
  refine .outerCell hs hl fun cell hcell => ?_
  refine (readOuter_echo hl hcell).seq fun v _ _ hn => ?_
  exact (sharing_echo hn v).seq fun w _ _ hn1 => setRegister_echo hn1 base i.arg0 w

theorem setOuter_echo (hs : RunBoth t s s' c base) (hl : Level P t s s' own m m') :
    EchoAt P φ (setOuterInstruction base i) (setOuterInstruction base i) m m' := by
  unfold setOuterInstruction
  refine .outerCell hs hl fun cell hcell => ?_
  refine .register hs hl fun v hv => ?_
  refine .retainingAll hl (by simp [hv]) fun n n' hn hw => ?_
  exact (writeOuter_echo hn (hw _ hcell) v).seq fun _ _ _ hn1 => setOptional_echo hn1 base i.arg0 v

theorem ownerBase_echo (hs : RunBoth t s s' c base) (hl : Level P t s s' own m m') :
    EchoAt P φ ownerBase ownerBase m m' := by
  unfold ownerBase
  refine .reading (currentFrame_echo hl.twin) (currentFrame_reads hs.left hl.left)
    (currentFrame_reads hs.right hl.right) fun f hf hf' => ?_
  refine .readHeap ?_ ?_
  · rw [hf.2.1, hf'.2.1]
    cases hc : c.owner with
    | none => simp only [Option.bind_some, hc, Option.bind_none]
    | some o =>
      have howner : ∀ {k : Heap}, k.closure? f.closure = some c → ∀ {own : Multiset Value},
          k.Backs t.law own → k.Has (.classObject o) := fun hk _ hb =>
        hb.has_of_body (Heap.closure?_eq_some.1 hk) (by simp [Body.values, hc])
      simp only [Option.bind_some, hc,
        hl.abreast.class?_eq ⟨howner hf.2.1 hl.left.backs, howner hf'.2.1 hl.right.backs⟩]
  · split
    · exact sharing_echo hl.twin _
    · exact .pure hl.twin _

/-! ## Members -/

theorem prepareCall_echo (hc : Accord P φ t call call') {key obj : Value}
    (hl : Level P t s s' own m m') (ho : Shared m m' obj) (hk : Shared m m' key) :
    EchoAt P φ (prepareCall call base i key obj) (prepareCall call' base i key obj) m m' := by
  unfold prepareCall
  refine (getMember_echo hc hl ho hk).seq fun g _ _ hn => ?_
  refine (EchoAt.handing ((retain_echo hn obj).seq fun _ _ _ hn1 =>
    setRegister_echo hn1 base i.arg3 obj)).seq fun _ _ _ hn2 => setRegister_echo hn2 base i.arg0 g

/-- Storing a register's value under a key, with the value as the result. -/
theorem storing_echo {store store' : Exec Unit} {v : Value} (hl : Level P t s s' own m m')
    (hv : Shared m m' v)
    (hstore : ∀ n n', Level P t s s' (v :: v :: own) n n' → EchoAt P φ store store' n n') :
    EchoAt P φ
      (do
        retain v
        handing v do
          retain v
          store
        setOptional base i.arg0 v)
      (do
        retain v
        handing v do
          retain v
          store'
        setOptional base i.arg0 v) m m' := by
  refine .retaining hl hv fun n n' hn hw => ?_
  refine (EchoAt.handing (.retaining hn (hw v hv) fun n1 n1' hn1 _ => hstore n1 n1' hn1)).seq ?_
  exact fun _ _ _ hn2 => setOptional_echo hn2 base i.arg0 v

theorem defaultCopy_echo (hs : RunBoth t s s' c base) (hl : Level P t s s' own m m') (r : Int64) :
    EchoAt P φ (defaultCopy base r) (defaultCopy base r) m m' := by
  unfold defaultCopy
  exact .register hs hl fun v hv => heap_echo hl.twin (hl.abreast.deepCopy hv)

/-! ## Closures -/

theorem gather_echo {make : α → Exec Value} {items : List α}
    (hmake : ∀ a ∈ items, ∀ (own : List Value) (n n' : Machine), Level P t s s' own n n' →
      EchoAt P φ (make a) (make a) n n' ∧ Keeps t s own (make a) (make a) (fun v => [v]) n ∧
        Keeps t s' own (make a) (make a) (fun v => [v]) n')
    (made : List Value) (hl : Level P t s s' (made ++ own) m m') :
    EchoAt P φ (gather make made items) (gather make made items) m m' := by
  induction items generalizing made m m' with
  | nil => exact .pure hl.twin made
  | cons a rest ih =>
    obtain ⟨hecho, hk, hk'⟩ := hmake a List.mem_cons_self _ m m' hl
    unfold gather
    refine .keeping (.handingAll hecho) (.handingAll hk) (.handingAll hk') fun v n n' hn => ?_
    refine ih (fun b hb => hmake b (List.mem_cons_of_mem _ hb)) (made ++ [v]) (hn.perm ?_)
    rw [List.append_assoc]
    exact List.perm_middle

theorem captureCell_echo (hl : Level P t s s' own m m') {outers : List Ref} (k : Capture) :
    EchoAt P φ (captureCell base outers k) (captureCell base outers k) m m' := by
  unfold captureCell
  split
  · exact (capture_echo hl _).seq fun r _ _ hn => .pure hn _
  · split
    · exact sharing_echo hl.twin _
    · exact .fail hl.twin _

theorem closureInstruction_echo (hs : RunBoth t s s' c base) (hl : Level P t s s' own m m') :
    EchoAt P φ (closureInstruction base i) (closureInstruction base i) m m' := by
  have hcell : ∀ {s : Scope} {k : Capture} {own : List Value} {n : Machine}, s.Runs c base →
      n.Within t s own → Keeps t s own (captureCell base c.outers k) (captureCell base c.outers k)
        (fun v => [v]) n := fun hrun hn =>
    Meets.mono (captureCell_meets hrun (fun ht => absurd ht hs.lax) hn) (fun _ _ h => h.1)
      fun _ _ h => h
  have hcells : ∀ {s : Scope} {items : List Capture} {n : Machine}, s.Runs c base →
      n.Within t s own → Keeps t s own (gather (captureCell base c.outers) [] items)
        (gather (captureCell base c.outers) [] items) id n := fun hrun hn =>
    Meets.mono (gather_meets (G := fun _ => True) (fun k _ own n hn => Meets.mono (hcell hrun hn)
      (fun _ _ h => ⟨h, trivial⟩) fun _ _ h => h) [] (by simp) hn) (fun _ _ h => h.1) fun _ _ h => h
  unfold closureInstruction
  refine .reading (indexArg_echo hl.twin _ _) (indexArg_reads fun ht => absurd ht hs.lax)
    (indexArg_reads fun ht => absurd ht hs.lax) fun index _ _ => ?_
  refine .reading (currentFrame_echo hl.twin) (currentFrame_reads hs.left hl.left)
    (currentFrame_reads hs.right hl.right) fun f _ _ => ?_
  split
  · exact .fail hl.twin _
  · rename_i p _
    refine .currentOuters hs hl ?_
    refine .keeping (gather_echo (fun k _ own n n' hn => ⟨captureCell_echo hn k,
      hcell hs.left hn.left, hcell hs.right hn.right⟩) [] hl) (hcells hs.left hl.left)
      (hcells hs.right hl.right) fun cells n n' hn => ?_
    refine (EchoAt.handingAll (gather_echo (fun r _ own n n' hn => ⟨defaultCopy_echo hs hn r,
      defaultCopy_keeps hs.left (fun ht => absurd ht hs.lax) hn.left,
      defaultCopy_keeps hs.right (fun ht => absurd ht hs.lax) hn.right⟩) [] hn)).seq ?_
    intro defaults n1 n1' hn1
    exact (heap_echo hn1 (hn1.mirrors.newClosure _ _ _)).seq fun r _ _ hn2 =>
      setRegister_echo hn2 base i.arg0 _

/-! ## Objects -/

theorem baseClass_echo (ht : m.Twin P m') (r : Int64) :
    EchoAt P φ (baseClass base r) (baseClass base r) m m' := by
  unfold baseClass
  split
  · refine (register_echo ht r).seq fun v _ _ hn => ?_
    split
    · exact .pure hn _
    · exact .fail hn _
  · exact .pure ht none

theorem optionalRegister_echo (ht : m.Twin P m') (r : Int64) :
    EchoAt P φ (optionalRegister base r) (optionalRegister base r) m m' := by
  unfold optionalRegister
  split
  · exact register_echo ht r
  · exact .pure ht _

theorem announce_echo (hc : Accord P φ t call call') {parent : Option Ref} {cls : Ref}
    {attributes : Value} (hl : Level P t s s' own m m')
    (hp : ∀ b, parent = some b → Shared m m' (.classObject b)) (hcls : .classObject cls ∈ own)
    (ha : Shared m m' attributes) :
    EchoAt P φ (announce call parent cls attributes) (announce call' parent cls attributes) m m' := by
  unfold announce
  cases parent with
  | none => exact .pure hl.twin ()
  | some b =>
    refine .readHeap (hl.abreast.classMeta?_eq (hp b rfl) .inherit) ?_
    split
    · exact .pure hl.twin ()
    · rename_i g hg
      refine (callMeta_echo hc [] hl (hl.abreast.classMeta?_shared (hp b rfl) hg) ?_).seq
        fun v _ _ hn => release_echo hn v
      simp [hp b rfl, hl.shared hcls, ha]

theorem newClassValue_echo (hc : Accord P φ t call call') (hs : RunBoth t s s' c base)
    (hl : Level P t s s' own m m') :
    EchoAt P φ (newClassValue call base i) (newClassValue call' base i) m m' := by
  unfold newClassValue
  refine .reading (baseClass_echo hl.twin _) (baseClass_reads hs.left (fun ht => absurd ht hs.lax)
    hl.left) (baseClass_reads hs.right (fun ht => absurd ht hs.lax) hl.right) fun parent hp hp' => ?_
  refine .reading (optionalRegister_echo hl.twin _) (optionalRegister_reads hs.left
    (fun ht => absurd ht hs.lax) hl.left) (optionalRegister_reads hs.right
    (fun ht => absurd ht hs.lax) hl.right) fun attributes ha ha' => ?_
  refine .get ?_
  have hname : m'.config.constructorName = m.config.constructorName :=
    hl.twin.same (f := fun m => m.config.constructorName) fun _ _ => rfl
  rw [hname]
  have hparent : ∀ b, parent = some b → Shared m m' (.classObject b) := fun b hb =>
    ⟨(hp b hb).has hl.left rfl, (hp' b hb).has hl.right rfl⟩
  generalize m.config.constructorName = name
  obtain ⟨hcls, hm⟩ := hl.abreast.newClass name hparent
  simp only at hcls
  have hleft : (m.withHeap (m.heap.newClass parent name).2).Within t s
      (.classObject (m.heap.newClass parent name).1 :: own) :=
    hl.left.heap_cons (hl.left.backs.newClass fun b hb => (hparent b hb).1)
  have hright : (m'.withHeap (m'.heap.newClass parent name).2).Within t s'
      (.classObject (m'.heap.newClass parent name).1 :: own) :=
    hl.right.heap_cons (hl.right.backs.newClass fun b hb => (hparent b hb).2)
  rw [hcls] at hright
  refine .operating hl ⟨hcls, hm⟩ hleft hright fun hn => ?_
  refine .next (retain_eq _ _) (retain_eq _ _) ?_
  have hn1 := hn.retain ⟨ha.has hleft rfl, ha'.has hright rfl⟩
  have hclass : Shared _ _ (.classObject (m.heap.newClass parent name).1) :=
    hn1.shared (List.mem_cons_of_mem _ List.mem_cons_self)
  refine .next (updateHeap_eq _ _) (updateHeap_eq _ _) ?_
  have hset := hn1.abreast.setClassAttributes hclass attributes
  have hn2 : Level P t s s' (.classObject (m.heap.newClass parent name).1 :: own) _ _ :=
    ⟨hn1.twin.withHeap hset, hn1.left.heap hn1.left.backs_cons.setClassAttributes,
      hn1.right.heap hn1.right.backs_cons.setClassAttributes⟩
  refine (EchoAt.handing (announce_echo hc hn2 (fun b hb => ?_) List.mem_cons_self ?_)).seq
    fun _ _ _ hn3 => .pure hn3 _
  · exact ⟨(hp b hb).has hn2.left rfl, (hp' b hb).has hn2.right rfl⟩
  · exact ⟨ha.has hn2.left rfl, ha'.has hn2.right rfl⟩

theorem newObjectInstruction_echo (hc : Accord P φ t call call') (hs : RunBoth t s s' c base)
    (hl : Level P t s s' own m m') :
    EchoAt P φ (newObjectInstruction call base i) (newObjectInstruction call' base i) m m' := by
  unfold newObjectInstruction
  split
  · exact .fail hl.twin _
  · exact (heap_echo hl.twin hl.twin.mirrors.newDict).seq fun r _ _ hn =>
      setRegister_echo hn base i.arg0 _
  · exact (heap_echo hl.twin (hl.twin.mirrors.newArray #[])).seq fun v _ _ hn =>
      setRegister_echo hn base i.arg0 v
  · exact (newClassValue_echo hc hs hl).seq fun v _ _ hn => setRegister_echo hn base i.arg0 v

/-! ## Members and items -/

theorem newMemberInstruction_echo (hc : Accord P φ t call call') (hs : RunBoth t s s' c base)
    (hl : Level P t s s' own m m') :
    EchoAt P φ (newMemberInstruction call base i) (newMemberInstruction call' base i) m m' := by
  unfold newMemberInstruction
  refine .register hs hl fun cls hcls => ?_
  split
  · rename_i r
    refine .register hs hl fun key hkey => .register hs hl fun v hv => ?_
    have hadd : ∀ attributes : Value, Shared m m' attributes →
        EchoAt P φ
          (holding [.classObject r, key] do
            retainAll [v, attributes]
            newClassMember call r key v attributes (i.arg0 &&& 1 != 0))
          (holding [.classObject r, key] do
            retainAll [v, attributes]
            newClassMember call' r key v attributes (i.arg0 &&& 1 != 0)) m m' := by
      intro attributes ha
      refine .holding hl (by simp [hcls, hkey]) fun n n' hn hw => ?_
      refine .retainingAll hn (by simp [hw v hv, hw _ ha]) fun n1 n1' hn1 _ => ?_
      exact newClassMember_echo hc hn1 (by simp) (by simp)
    dsimp only
    split
    · exact .register hs hl hadd
    · exact hadd .null (Heap.shared_plain rfl)
  · exact .fail hl.twin _

theorem appendedValue_echo (ht : m.Twin P m') (source : AppendSource) :
    EchoAt P φ (appendedValue base i source) (appendedValue base i source) m m' := by
  cases source with
  | register => exact (register_echo ht i.arg1).seq fun v _ _ hn => sharing_echo hn v
  | literal => exact literal_echo ht i.arg1
  | integer | float | bool => exact .pure ht _

theorem appendInstruction_echo (ht : m.Twin P m') :
    EchoAt P φ (appendInstruction base i) (appendInstruction base i) m m' := by
  unfold appendInstruction
  refine (register_echo ht i.arg0).seq fun v _ _ hn => ?_
  split
  · split
    · exact .fail hn _
    · exact (appendedValue_echo hn _).seq fun w _ _ hn1 =>
        updateHeap_echo hn1 (hn1.mirrors.pushItem _ w)
  · exact .fail hn _

/-! ## Iteration -/

theorem sharingVisit_echo (ht : m.Twin P m') (visit : Option Visit) :
    EchoAt P φ (sharingVisit visit) (sharingVisit visit) m m' := by
  unfold sharingVisit
  split
  · exact .pure ht none
  · exact (retainAll_echo ht _).seq fun _ _ _ hn => .pure hn _

theorem instanceVisit_echo (hc : Accord P φ t call call') {container state : Value}
    (hl : Level P t s s' own m m') (ho : container ∈ own) (hst : Shared m m' state) :
    EchoAt P φ (instanceVisit call container state) (instanceVisit call' container state) m m' := by
  have hobj := hl.shared ho
  unfold instanceVisit
  refine .readHeap (hl.abreast.metaOf?_eq hobj .next) ?_
  split
  · exact .fail hl.twin _
  · rename_i g hg
    have hshared := hl.abreast.metaOf?_shared hobj hg
    refine .holding hl (by simpa using hshared) fun n n' hn hw => ?_
    refine .retainingAll hn (by simp [hw _ hst, hw _ hobj]) fun n1 n1' hn1 hw1 => ?_
    have hfun := hw1 g (hw g hshared)
    have hn2 : Level P t s s' ([container, state] ++ ([g] ++ own)) n1 n1' := hn1
    refine .keeping (hc.echo hn2 hfun) (hc.left s g _ _ n1 hn2.left hfun.1)
      (hc.right s' g _ _ n1' hn2.right hfun.2) fun key n2 n2' hn2 => ?_
    split
    · exact .pure hn2.twin none
    · refine (EchoAt.handing (getMember_echo hc hn2 (hn2.shared (by simp [ho]))
        (hn2.shared (by simp)))).seq fun v _ _ hn3 => ?_
      exact (retain_echo hn3 key).seq fun _ _ _ hn4 => .pure hn4 _

theorem nextVisit_echo (hc : Accord P φ t call call') {container state : Value}
    (hl : Level P t s s' own m m') (ho : container ∈ own) (hst : Shared m m' state) :
    EchoAt P φ (nextVisit call container state) (nextVisit call' container state) m m' := by
  have hobj := hl.shared ho
  unfold nextVisit
  split
  · exact .readHeap (hl.abreast.items_eq hobj) (sharingVisit_echo hl.twin _)
  · exact sharingVisit_echo hl.twin _
  · exact .readHeap (hl.abreast.entries_eq hobj) (sharingVisit_echo hl.twin _)
  · exact instanceVisit_echo hc hl ho hst
  · exact .fail hl.twin _

theorem foreachInstruction_echo (hc : Accord P φ t call call') (hs : RunBoth t s s' c base)
    (hl : Level P t s s' own m m') :
    EchoAt P φ (foreachInstruction call base i) (foreachInstruction call' base i) m m' := by
  unfold foreachInstruction
  refine .register hs hl fun container hcont => .register hs hl fun state hst => ?_
  refine .holding hl (by simpa using hcont) fun n n' hn hw => ?_
  refine (nextVisit_echo hc hn (by simp) (hw _ hst)).seq fun visit n1 n1' hn1 => ?_
  split
  · exact jump_echo hn1 i.arg1
  · rename_i v
    refine (EchoAt.handing ((EchoAt.handing (setRegister_echo hn1 base i.arg2 v.key)).seq
      fun _ _ _ hn2 => setRegister_echo hn2 base (i.arg2 + 1) v.value)).seq fun _ _ _ hn3 => ?_
    exact setRegister_echo hn3 base (i.arg2 + 2) v.state

/-! ## Operators -/

theorem loadNulls_echo (ht : m.Twin P m') :
    EchoAt P φ (loadNullsInstruction base i) (loadNullsInstruction base i) m m' := by
  unfold loadNullsInstruction
  refine (registerSlot_echo ht base _).seq fun start _ _ hn => ?_
  refine (indexArg_echo hn _ _).seq fun count _ _ hn1 => ?_
  exact (stackSize_echo hn1).seq fun size _ _ hn2 => nullSlots_echo hn2 _ _

theorem arithInstruction_echo (hc : Accord P φ t call call') (hs : RunBoth t s s' c base)
    (op : ArithOp) (hl : Level P t s s' own m m') :
    EchoAt P φ (arithInstruction call op base i) (arithInstruction call' op base i) m m' := by
  unfold arithInstruction
  refine .register hs hl fun a ha => .register hs hl fun b hb => ?_
  refine .holding hl (by simp [ha, hb]) fun n n' hn hw => ?_
  exact (arithOp_echo hc hn (hw a ha) (hw b hb)).seq fun v _ _ hn1 =>
    setRegister_echo hn1 base i.arg0 v

theorem bitwiseInstruction_echo (ht : m.Twin P m') :
    EchoAt P φ (bitwiseInstruction base i) (bitwiseInstruction base i) m m' := by
  unfold bitwiseInstruction
  split
  · exact .fail ht _
  · refine (register_echo ht _).seq fun a _ _ hn => (register_echo hn _).seq fun b _ _ hn1 => ?_
    exact (ofExcept_echo hn1 _).seq fun v _ _ hn2 => setRegister_echo hn2 base i.arg0 v

theorem literalEquality_echo (ht : m.Twin P m') (wanted : Bool) :
    EchoAt P φ (literalEquality base i wanted) (literalEquality base i wanted) m m' := by
  unfold literalEquality
  refine (literal_echo ht _).seq fun a _ _ hn => .owning ?_
  exact (register_echo hn _).seq fun b _ _ hn1 => setRegister_echo hn1 base i.arg0 _

theorem comparing_echo (hc : Accord P φ t call call') (hs : RunBoth t s s' c base) {code a b : Int64}
    {use : Value → Exec Unit} (hl : Level P t s s' own m m')
    (huse : ∀ v n n', n.Twin P n' → EchoAt P φ (use v) (use v) n n') :
    EchoAt P φ (comparing call code base a b use) (comparing call' code base a b use) m m' := by
  unfold comparing
  split
  · exact .fail hl.twin _
  · refine .register hs hl fun x hx => .register hs hl fun y hy => ?_
    refine .holding hl (by simp [hx, hy]) fun n n' hn hw => ?_
    exact (compareOp_echo hc hn (hw x hx) (hw y hy)).seq fun o _ _ hn1 => huse _ _ _ hn1

theorem shortCircuit_echo (ht : m.Twin P m') (onFalsy : Bool) :
    EchoAt P φ (shortCircuit base i onFalsy) (shortCircuit base i onFalsy) m m' := by
  unfold shortCircuit
  refine (register_echo ht _).seq fun v _ _ hn => ?_
  split
  · refine (retain_echo hn v).seq fun _ _ _ hn1 => ?_
    exact (setRegister_echo hn1 base i.arg0 v).seq fun _ _ _ hn2 => jump_echo hn2 _
  · exact .pure hn ()

/-! ## All instructions that stay in their function -/

theorem effect_echo (hc : Accord P φ t call call') (hs : RunBoth t s s' c base)
    (hl : Level P t s s' own m m') (hcall : i.opcode ≠ .call) (htail : i.opcode ≠ .tailCall) :
    EchoAt P φ (effect call base i) (effect call' base i) m m' := by
  have ht := hl.twin
  have hput : ∀ (v : Value) (n n' : Machine), n.Twin P n' →
      EchoAt P φ (setRegister base i.arg0 v) (setRegister base i.arg0 v) n n' := fun v _ _ hn =>
    setRegister_echo hn base i.arg0 v
  unfold effect
  generalize i.opcode = op at hcall htail
  cases op with
  | load => exact loadLiteral_echo ht base _ _
  | loadInteger | loadFloat | loadBool => exact hput _ _ _ ht
  | doubleLoad =>
    exact (loadLiteral_echo ht base _ _).seq fun _ _ _ hn => loadLiteral_echo hn base _ _
  | loadNulls => exact loadNulls_echo ht
  | loadRoot =>
    refine .get ?_
    rw [ht.root_eq]
    exact (sharing_echo ht _).seq (hput ·)
  | move => exact moveRegister_echo ht _ _
  | doubleMove => exact (moveRegister_echo ht _ _).seq fun _ _ _ hn => moveRegister_echo hn _ _
  | getOuter => exact getOuter_echo hs hl
  | setOuter => exact setOuter_echo hs hl
  | get =>
    refine .register hs hl fun key hk => .register hs hl fun obj ho => ?_
    refine .holding hl (by simp [hk, ho]) fun n n' hn hw => ?_
    exact (getMember_echo hc hn (hw obj ho) (hw key hk)).seq (hput ·)
  | getLiteral =>
    refine .literal hs hl fun key n n' hn => .owning ?_
    refine .register hs hn fun obj ho => .holding hn (by simpa using ho) fun n1 n1' hn1 hw => ?_
    exact (getMember_echo hc hn1 (hw obj ho) (hn1.shared (by simp))).seq (hput ·)
  | assign =>
    refine .register hs hl fun obj ho => .register hs hl fun key hk => .register hs hl fun v hv => ?_
    refine .holding hl (by simp [ho, hk]) fun n n' hn hw => storing_echo hn (hw v hv) ?_
    exact fun n1 n1' hn1 => setMember_echo hc hn1 (by simp) (by simp)
  | newSlot =>
    refine .register hs hl fun obj ho => .register hs hl fun key hk => .register hs hl fun v hv => ?_
    refine .holding hl (by simp [ho, hk]) fun n n' hn hw => storing_echo hn (hw v hv) ?_
    exact fun n1 n1' hn1 => newSlot_echo hc hn1 (by simp) (by simp)
  | newMember => exact newMemberInstruction_echo hc hs hl
  | remove =>
    refine .register hs hl fun obj ho => .register hs hl fun key hk => ?_
    refine .holding hl (by simp [ho, hk]) fun n n' hn hw => ?_
    exact (deleteSlot_echo hc hn (hw obj ho) (hw key hk)).seq fun v _ _ hn1 =>
      setOptional_echo hn1 base i.arg0 v
  | add | sub | mul | div | mod | exp => exact arithInstruction_echo hc hs _ hl
  | bitwise => exact bitwiseInstruction_echo ht
  | neg =>
    refine .register hs hl fun v hv => .holding hl (by simpa using hv) fun n n' hn hw => ?_
    exact (negateOp_echo hc hn (hw v hv)).seq (hput ·)
  | not => exact (register_echo ht _).seq fun v _ _ hn => hput _ _ _ hn
  | bitNot =>
    exact (register_echo ht _).seq fun v _ _ hn => (ofExcept_echo hn _).seq (hput ·)
  | eq | neq =>
    exact (register_echo ht _).seq fun a _ _ hn => (register_echo hn _).seq fun b _ _ hn1 =>
      hput _ _ _ hn1
  | eqLiteral | neqLiteral => exact literalEquality_echo ht _
  | compare => exact comparing_echo hc hs hl hput
  | jumpUnless =>
    refine comparing_echo hc hs hl fun v n n' hn => ?_
    split
    · exact jump_echo hn _
    · exact .pure hn ()
  | jump => exact jump_echo ht _
  | jumpIfFalsy =>
    refine (register_echo ht _).seq fun v _ _ hn => ?_
    split
    · exact jump_echo hn _
    · exact .pure hn ()
  | shortAnd | shortOr => exact shortCircuit_echo ht _
  | prepareCall =>
    refine .register hs hl fun key hk => .register hs hl fun obj ho => ?_
    refine .holding hl (by simp [hk, ho]) fun n n' hn hw => ?_
    exact prepareCall_echo hc hn (hw obj ho) (hw key hk)
  | prepareCallLiteral =>
    refine .literal hs hl fun key n n' hn => .owning ?_
    refine .register hs hn fun obj ho => .holding hn (by simpa using ho) fun n1 n1' hn1 hw => ?_
    exact prepareCall_echo hc hn1 (hw obj ho) (hn1.shared (by simp))
  | call => exact absurd rfl hcall
  | tailCall => exact absurd rfl htail
  | ret => exact .pure ht ()
  | close =>
    exact .reading (registerSlot_echo ht base _) (registerSlot_reads fun h => absurd h hs.lax)
      (registerSlot_reads fun h => absurd h hs.lax) fun slot _ _ => closeOuters_echo hl slot
  | closure => exact closureInstruction_echo hs hl
  | newObject => exact newObjectInstruction_echo hc hs hl
  | append => exact appendInstruction_echo ht
  | typeOf =>
    refine .register hs hl fun v hv => .holding hl (by simpa using hv) fun n n' hn hw => ?_
    exact (typeOf_echo hc hn (hw v hv)).seq (hput ·)
  | instanceOf =>
    refine .register hs hl fun cls _ => .register hs hl fun obj ho => ?_
    exact (instanceOf_echo hl cls ho).seq fun b _ _ hn => hput _ _ _ hn
  | has =>
    refine .register hs hl fun obj ho => .register hs hl fun key _ => ?_
    exact (hasMember_echo hl ho key).seq fun b _ _ hn => hput _ _ _ hn
  | base => exact (ownerBase_echo hs hl).seq (hput ·)
  | deepCopy => exact (defaultCopy_echo hs hl _).seq (hput ·)
  | foreach => exact foreachInstruction_echo hc hs hl

end Exec

end ScriptMachine
