import ScriptMachine.Proofs.Machine.Variables

/-!
# One open cell for a slot

Whoever captures a slot gets its open cell, also where cells are closed directly
and not through the list. A cell closed so stays in the list, where it counts as
above every slot. While no open cell comes after it, the search for a slot still
finds the place. Behind it an open cell may be missed, and then the slot gets
another one.
-/

set_option autoImplicit false

namespace ScriptMachine

/-- What is done with cells. -/
inductive CellOp where
  | capture (slot : Nat)
  /-- The cells of the slots from one on are closed. -/
  | closeFrom (slot : Nat)
  /-- The cell that a capture returned is closed directly, with a value. -/
  | shut (handle : Nat) (v : Value)
  /-- The heap and the stack change otherwise, and what is owned besides. -/
  | elsewhere (heap : Heap) (stack : Array Value) (own : Multiset Value)

namespace Captures

def apply (s : Captures) : CellOp → Captures
  | .capture i => s.step (.capture i)
  | .closeFrom j => s.step (.close j)
  | .shut k v =>
    match s.handles[k]? with
    | some c => { s with heap := (s.heap.retain v).closeOuter c v }
    | none => s
  | .elsewhere heap stack own => { s with heap, stack, own }

def applyAll (s : Captures) (ops : List CellOp) : Captures := ops.foldl apply s

/-- A condition holds of every operation and the state that it meets. -/
def Along (P : Captures → CellOp → Prop) : Captures → List CellOp → Prop
  | _, [] => True
  | s, op :: ops => P s op ∧ Along P (s.apply op) ops

/-- A cell that is closed directly lives, as does the value, and other changes of
the heap keep the accounts. -/
def Permits (l : Law) (s : Captures) : CellOp → Prop
  | .shut k v => s.heap.Has v ∧ ∃ c, s.handles[k]? = some c ∧ s.heap.Has (.outer c)
  | .elsewhere h stack own =>
    Heap.Moves l ((OpenOuters.values s.cells : Multiset Value) +
      (own + (stack.toList : Multiset Value))) s.heap h
  | _ => True

/-- A slot is captured only while no closed cell of the list stands before an open
one. -/
def Orderly (s : Captures) : CellOp → Prop
  | .capture _ => s.heap.InOrder s.cells.toList
  | _ => True

/-- A cell is closed directly only while no open cell belongs to a higher slot. -/
def Topmost (s : Captures) : CellOp → Prop
  | .shut k _ => ∀ c d i j, s.handles[k]? = some c → s.heap.stackIndex? c = some i →
      s.heap.stackIndex? d = some j → j ≤ i
  | _ => True

instance (s : Captures) (op : CellOp) : Decidable (s.Orderly op) :=
  match op with
  | .capture _ => inferInstanceAs (Decidable (s.heap.InOrder s.cells.toList))
  | .closeFrom _ => .isTrue trivial
  | .shut _ _ => .isTrue trivial
  | .elsewhere _ _ _ => .isTrue trivial

instance decidableAlong (P : Captures → CellOp → Prop) [∀ s op, Decidable (P s op)] :
    (s : Captures) → (ops : List CellOp) → Decidable (Along P s ops)
  | _, [] => .isTrue trivial
  | s, op :: ops =>
    have := decidableAlong P (s.apply op) ops
    inferInstanceAs (Decidable (P s op ∧ Along P (s.apply op) ops))

variable {l : Law} {s : Captures}

theorem applyAll_append (s : Captures) (ops ops' : List CellOp) :
    s.applyAll (ops ++ ops') = (s.applyAll ops).applyAll ops' := List.foldl_append ..

theorem along_append {P : Captures → CellOp → Prop} {ops ops' : List CellOp} :
    s.Along P (ops ++ ops') ↔ s.Along P ops ∧ (s.applyAll ops).Along P ops' := by
  induction ops generalizing s with
  | nil => simp [Along, applyAll]
  | cons op ops ih => simp only [List.cons_append, Along, ih, and_assoc]; rfl

end Captures

theorem Heap.has_of_open {h : Heap} {c : Ref} {i : Nat} (hc : h.stackIndex? c = some i) :
    h.Has (.outer c) := by
  intro r hr
  cases hr
  exact ⟨_, outerState?_eq_some.1 (stackIndex?_eq_some.1 hc), rfl⟩

/-- No cell that there was has been opened, nor moved to another slot. -/
structure Heap.NoneOpened (h h' : Heap) : Prop where
  size : h.cells.size ≤ h'.cells.size
  back : ∀ c i, c.id < h.cells.size → h'.stackIndex? c = some i → h.stackIndex? c = some i

namespace Heap.NoneOpened

variable {h h' h'' : Heap}

theorem refl (h : Heap) : NoneOpened h h := ⟨Nat.le_refl _, fun _ _ _ hc => hc⟩

theorem trans (h1 : NoneOpened h h') (h2 : NoneOpened h' h'') : NoneOpened h h'' where
  size := Nat.le_trans h1.size h2.size
  back := fun c i hlt hc => h1.back c i hlt (h2.back c i (Nat.lt_of_lt_of_le hlt h1.size) hc)

theorem of_evolves (he : Evolves h h') : NoneOpened h h' where
  size := he.size
  back := fun _ _ _ hc => stackIndex?_eq_some.2 (he.opened (stackIndex?_eq_some.1 hc))

theorem of_shortens {cells cells' : List Ref} (hs : Shortens cells cells' h h') :
    NoneOpened h h' :=
  ⟨hs.drifts.size, fun c i _ hc => hs.back c i hc⟩

theorem of_opens {slot : Nat} {c : Ref} {cells cells' : List Ref}
    (ho : OpenOuters.Opens slot c cells cells' h h') : NoneOpened h h' where
  size := ho.drifts.size
  back := by
    intro d i hlt hd
    rw [ho.index] at hd
    split at hd
    · rename_i heq
      subst heq
      rw [← hd]
      exact ho.origin.resolve_right (Nat.not_le.2 hlt)
    · exact hd

end Heap.NoneOpened

namespace Captures

variable {l : Law} {s : Captures}

/-- Everything owned is backed, the list has every open cell in order, and what
captures returned was allocated. -/
structure Sharing (l : Law) (s : Captures) : Prop where
  backs : s.heap.Backs l s.owned
  lists : s.heap.Lists s.cells.toList
  known : ∀ c ∈ s.handles, c.id < s.heap.cells.size

namespace Sharing

theorem start {heap : Heap} {stack : Array Value} {own : Multiset Value}
    (hheap : heap.Backs l (own + (stack.toList : Multiset Value)))
    (hnone : ∀ c i, heap.stackIndex? c ≠ some i) : Sharing l (start heap stack own) where
  backs := by simpa [owned, Captures.start, OpenOuters.values] using hheap
  lists := ⟨List.Pairwise.nil, fun c i hc => absurd hc (hnone c i)⟩
  known := fun _ hc => by simp [Captures.start] at hc

theorem opens (hs : Sharing l s) (i : Nat) (ho : s.heap.InOrder s.cells.toList) :
    OpenOuters.Opens i (OpenOuters.capture s.heap s.cells i).1 s.cells.toList
      (s.apply (.capture i)).cells.toList s.heap (s.apply (.capture i)).heap :=
  (OpenOuters.capture_inOrder i hs.lists ho hs.backs).2

theorem shortens (hs : Sharing l s) (j : Nat) :
    (s.apply (.closeFrom j)).heap.Backs l (s.apply (.closeFrom j)).owned ∧
      Heap.Shortens s.cells.toList (s.apply (.closeFrom j)).cells.toList s.heap
        (s.apply (.closeFrom j)).heap := by
  obtain ⟨hb, hc, -⟩ := OpenOuters.closeWithin_lists j s.stack s.cells.size 0
    (Nat.le_refl _) hs.lists hs.backs fun v hv => Multiset.mem_add.2 (.inr hv)
  exact ⟨hb, hc⟩

/-- Each operation keeps the list, and opens no cell that there was. -/
theorem apply (hs : Sharing l s) {op : CellOp} (hop : s.Permits l op) (ho : s.Orderly op) :
    Sharing l (s.apply op) ∧ s.heap.NoneOpened (s.apply op).heap := by
  cases op with
  | capture i =>
    obtain ⟨hback, hopens⟩ := OpenOuters.capture_inOrder i hs.lists ho hs.backs
    refine ⟨⟨hback.mono (le_of_eq ?_), hopens.lists, fun c hc => ?_⟩, .of_opens hopens⟩
    · simp only [Captures.apply, step, owned, Multiset.cons_add, Multiset.add_cons]
    · rcases List.mem_append.1 hc with hc | hc
      · exact Nat.lt_of_lt_of_le (hs.known c hc) hopens.drifts.size
      · rw [List.mem_singleton.1 hc]
        exact hopens.alive
  | closeFrom j =>
    obtain ⟨hb, hc⟩ := hs.shortens j
    exact ⟨⟨hb, hc.lists, fun c hm => Nat.lt_of_lt_of_le (hs.known c hm) hc.drifts.size⟩,
      .of_shortens hc⟩
  | shut k v =>
    obtain ⟨hv, c, hk, hc⟩ := hop
    obtain ⟨st, hst⟩ := hc.outer
    obtain ⟨hb, hd, hback, -⟩ := hs.backs.closeOuter hv (Heap.outerState?_eq_some.2 hst)
    simp only [Captures.apply, hk]
    exact ⟨⟨hb, hs.lists.of_back fun d i hi => (hback d i hi).2,
      fun d hm => Nat.lt_of_lt_of_le (hs.known d hm) hd.size⟩,
      hd.size, fun d i _ hi => (hback d i hi).2⟩
  | elsewhere h stack own =>
    have hn := Heap.NoneOpened.of_evolves hop.evolves
    exact ⟨⟨hop.backs, hs.lists.of_back fun c i hc =>
      Heap.stackIndex?_eq_some.2 (hop.evolves.opened (Heap.stackIndex?_eq_some.1 hc)),
      fun c hm => Nat.lt_of_lt_of_le (hs.known c hm) hn.size⟩, hn⟩

theorem applyAll (hs : Sharing l s) {ops : List CellOp} (hops : s.Along (Permits l) ops)
    (ho : s.Along Orderly ops) :
    Sharing l (s.applyAll ops) ∧ s.heap.NoneOpened (s.applyAll ops).heap := by
  induction ops generalizing s with
  | nil => exact ⟨hs, .refl _⟩
  | cons op ops ih =>
    obtain ⟨hs1, hn1⟩ := hs.apply hops.1 ho.1
    obtain ⟨hs2, hn2⟩ := ih hs1 hops.2 ho.2
    exact ⟨hs2, hn1.trans hn2⟩

/-! ### A list that stays in order -/

/-- Where only the topmost open cell is closed directly, closed cells stay behind
the open ones. -/
theorem inOrder_apply (hs : Sharing l s) (ho : s.heap.InOrder s.cells.toList) {op : CellOp}
    (hop : s.Permits l op) (ht : s.Topmost op) :
    (s.apply op).heap.InOrder (s.apply op).cells.toList := by
  cases op with
  | capture i => exact (hs.opens i ho).inOrder
  | closeFrom j => exact (hs.shortens j).2.inOrder ho
  | shut k v =>
    obtain ⟨hv, c, hk, hc⟩ := hop
    obtain ⟨st, hst⟩ := hc.outer
    obtain ⟨hb, -, hback, hkept⟩ := hs.backs.closeOuter hv (Heap.outerState?_eq_some.2 hst)
    simp only [Captures.apply, hk]
    refine List.Pairwise.imp_of_mem (fun {d e} hd _ hlt he => ?_) (ho.and hs.lists.ascending)
    obtain ⟨j, hj⟩ := Option.isSome_iff_exists.1 he
    have hold := (hback e j hj).2
    obtain ⟨i, hi⟩ := Option.isSome_iff_exists.1 (hlt.1 (hold ▸ rfl))
    have hne : d ≠ c := by
      rintro rfl
      exact absurd (ht d e i j hk hi hold) (Nat.not_le.2 (hlt.2 i j hi hold))
    rw [hkept d i hne (hb.has (OpenOuters.mem_values hd)) hi]
    rfl
  | elsewhere h stack own =>
    refine List.Pairwise.imp_of_mem (fun {d e} hd _ hlt he => ?_) ho
    obtain ⟨j, hj⟩ := Option.isSome_iff_exists.1 he
    have hold := Heap.stackIndex?_eq_some.2 (hop.evolves.opened (Heap.stackIndex?_eq_some.1 hj))
    obtain ⟨i, hi⟩ := Option.isSome_iff_exists.1 (hlt (hold ▸ rfl))
    obtain ⟨st, hst⟩ := (hop.backs.has (OpenOuters.mem_values hd)).outer
    have := Heap.stackIndex?_eq_some.2
      (hop.evolves.opened_of_alive (Heap.stackIndex?_eq_some.1 hi) hst)
    exact this ▸ rfl

theorem orderly_of_topmost (hs : Sharing l s) (ho : s.heap.InOrder s.cells.toList)
    {ops : List CellOp} (hops : s.Along (Permits l) ops) (ht : s.Along Topmost ops) :
    s.Along Orderly ops := by
  induction ops generalizing s with
  | nil => trivial
  | cons op ops ih =>
    have hfirst : s.Orderly op := by
      cases op with
      | capture i => exact ho
      | closeFrom | shut | elsewhere => trivial
    exact ⟨hfirst, ih (hs.apply hops.1 hfirst).1 (hs.inOrder_apply ho hops.1 ht.1) hops.2 ht.2⟩

/-! ### When captures give the same cell -/

/-- A later capture of the slot returns the cell just when it is still open. -/
theorem same_iff_open (hs : Sharing l s) {i : Nat} {between : List CellOp}
    (hops : s.Along (Permits l) (.capture i :: (between ++ [.capture i])))
    (ho : s.Along Orderly (.capture i :: (between ++ [.capture i]))) :
    ((OpenOuters.capture s.heap s.cells i).1 = (OpenOuters.capture
        ((s.apply (.capture i)).applyAll between).heap
        ((s.apply (.capture i)).applyAll between).cells i).1 ↔
      (((s.apply (.capture i)).applyAll between).heap.stackIndex?
        (OpenOuters.capture s.heap s.cells i).1).isSome) := by
  obtain ⟨hfirst, hrest⟩ := hops
  obtain ⟨hfirst', hrest'⟩ := ho
  obtain ⟨hbetween, hlast, -⟩ := along_append.1 hrest
  obtain ⟨hbetween', hlast', -⟩ := along_append.1 hrest'
  have hopen1 := hs.opens i hfirst'
  obtain ⟨hs1, -⟩ := hs.apply hfirst hfirst'
  obtain ⟨hs2, hn2⟩ := hs1.applyAll hbetween hbetween'
  have hopen2 := hs2.opens i hlast'
  generalize (OpenOuters.capture s.heap s.cells i).1 = c at *
  generalize (s.apply (.capture i)).applyAll between = s2 at *
  refine ⟨fun hcd => ?_, fun hopen => ?_⟩
  · have hc : s2.heap.stackIndex? c = some i := hcd ▸ hopen2.origin.resolve_right
      (Nat.not_le.2 (hcd ▸ Nat.lt_of_lt_of_le hopen1.alive hn2.size))
    rw [hc]
    rfl
  · obtain ⟨j, hj⟩ := Option.isSome_iff_exists.1 hopen
    have hi := hn2.back c j hopen1.alive hj
    rw [hopen1.index, if_pos rfl, Option.some.injEq] at hi
    subst hi
    refine hopen2.lists.unique (i := i) ?_ ?_
    · rw [hopen2.index, hj, ite_self]
    · rw [hopen2.index, if_pos rfl]

end Sharing

theorem handles_capture (s : Captures) (i : Nat) : (s.apply (.capture i)).handles =
    s.handles ++ [(OpenOuters.capture s.heap s.cells i).1] := rfl

theorem handles_apply (s : Captures) (op : CellOp) : s.handles <+: (s.apply op).handles := by
  cases op with
  | capture i => exact List.prefix_append ..
  | shut k v =>
    simp only [apply]
    split <;> exact List.prefix_rfl
  | closeFrom | elsewhere => exact List.prefix_rfl

theorem handles_applyAll (s : Captures) (ops : List CellOp) :
    s.handles <+: (s.applyAll ops).handles := by
  induction ops generalizing s with
  | nil => exact List.prefix_rfl
  | cons op ops ih => exact (handles_apply s op).trans (ih (s.apply op))

/-- Captures share the open cell of a slot. At no time are two cells open for one
slot, and a slot captured again gives the same cell just when that is still open. -/
theorem one_open_cell_per_slot (l : Law) (heap : Heap) (stack : Array Value)
    (own : Multiset Value) (ops : List CellOp)
    (hheap : heap.Backs l (own + (stack.toList : Multiset Value)))
    (hnone : ∀ c i, heap.stackIndex? c ≠ some i)
    (hops : (start heap stack own).Along (Permits l) ops)
    (ho : (start heap stack own).Along Orderly ops) :
    (∀ c d i, ((start heap stack own).applyAll ops).heap.stackIndex? c = some i →
      ((start heap stack own).applyAll ops).heap.stackIndex? d = some i → c = d) ∧
    ∀ before i between, ops = before ++ .capture i :: (between ++ [.capture i]) →
      ∃ c d, ((start heap stack own).applyAll ops).handles[
          ((start heap stack own).applyAll before).handles.length]? = some c ∧
        ((start heap stack own).applyAll ops).handles.getLast? = some d ∧
        (c = d ↔ (((start heap stack own).applyAll
          (before ++ .capture i :: between)).heap.stackIndex? c).isSome) := by
  have hstart := Sharing.start hheap hnone
  refine ⟨fun c d i => (hstart.applyAll hops ho).1.lists.unique, ?_⟩
  rintro before i between rfl
  obtain ⟨hbefore, hafter⟩ := along_append.1 hops
  obtain ⟨hbefore', hafter'⟩ := along_append.1 ho
  have hs := (hstart.applyAll hbefore hbefore').1
  have hsame := hs.same_iff_open hafter hafter'
  rw [applyAll_append, applyAll_append]
  generalize (start heap stack own).applyAll before = s1 at *
  obtain ⟨rest, hrest⟩ := handles_applyAll (s1.apply (.capture i)) (between ++ [.capture i])
  refine ⟨_, _, ?_, ?_, hsame⟩
  · show ((s1.apply (.capture i)).applyAll (between ++ [.capture i])).handles[_]? = _
    rw [← hrest, handles_capture, List.append_assoc, List.getElem?_append_right (Nat.le_refl _),
      Nat.sub_self]
    rfl
  · show ((s1.apply (.capture i)).applyAll (between ++ [.capture i])).handles.getLast? = _
    rw [applyAll_append]
    exact List.getLast?_concat

/-- Between captures of two slots, the cell of the upper one is closed directly. -/
def shutAbove : List CellOp :=
  [.capture 0, .capture 2, .shut 1 (.integer 5), .capture 2, .capture 0]

theorem one_open_cell_per_slot_shutAbove :
    ∃ c d, ((start {} #[.integer 7, .null, .integer 9] 0).applyAll shutAbove).handles[0]? = some c ∧
      ((start {} #[.integer 7, .null, .integer 9] 0).applyAll shutAbove).handles.getLast? = some d ∧
      c = d := by
  let l : Law := ⟨fun _ _ => True, fun _ => True⟩
  have hheap : ({} : Heap).Backs l
      (0 + ((#[.integer 7, .null, .integer 9] : Array Value).toList : Multiset Value)) :=
    (((Heap.Backs.empty l {}).own_plain rfl).own_plain rfl).own_plain rfl
  have hops : (start {} #[.integer 7, .null, .integer 9] 0).Along (Permits l) shutAbove :=
    ⟨trivial, trivial, ⟨Heap.has_of_none rfl, ⟨1⟩, by decide +kernel,
      Heap.has_of_open (i := 2) (by decide +kernel)⟩, trivial, trivial, trivial⟩
  have ho : (start {} #[.integer 7, .null, .integer 9] 0).Along Orderly shutAbove := by
    decide +kernel
  obtain ⟨-, hsame⟩ := one_open_cell_per_slot l {} #[.integer 7, .null, .integer 9] 0 shutAbove hheap
    (fun c i hc => by cases hc) hops ho
  obtain ⟨c, d, hc, hd, hiff⟩ := hsame [] 0 [.capture 2, .shut 1 (.integer 5), .capture 2] rfl
  have hzero : ((start {} #[.integer 7, .null, .integer 9] 0).applyAll shutAbove).handles[0]? =
      some ⟨0⟩ := by decide +kernel
  have hopen : (((start {} #[.integer 7, .null, .integer 9] 0).applyAll
      [.capture 0, .capture 2, .shut 1 (.integer 5), .capture 2]).heap.stackIndex? ⟨0⟩).isSome := by
    decide +kernel
  refine ⟨c, d, hc, hd, hiff.2 ?_⟩
  rw [← Option.some.inj (hzero.symm.trans hc)]
  exact hopen

/-- Three slots are captured, and the cell of the middle one is closed directly. -/
def shutBetween : List CellOp :=
  [.capture 0, .capture 1, .capture 2, .shut 1 (.integer 5), .capture 2]

/-- Behind a closed cell, the open cell of a slot is missed: captured again, the
slot gets a second one. -/
theorem second_open_cell :
    (start {} #[.integer 0, .integer 1, .integer 2] 0).Along
      (Permits ⟨fun _ _ => True, fun _ => True⟩) shutBetween ∧
    ∃ c d, ((start {} #[.integer 0, .integer 1, .integer 2] 0).applyAll
        shutBetween).handles[2]? = some c ∧
      ((start {} #[.integer 0, .integer 1, .integer 2] 0).applyAll
        shutBetween).handles.getLast? = some d ∧
      ((start {} #[.integer 0, .integer 1, .integer 2] 0).applyAll
        shutBetween).heap.stackIndex? c = some 2 ∧
      ((start {} #[.integer 0, .integer 1, .integer 2] 0).applyAll
        shutBetween).heap.stackIndex? d = some 2 ∧ c ≠ d := by
  refine ⟨⟨trivial, trivial, trivial, ⟨Heap.has_of_none rfl, ⟨1⟩, by decide +kernel,
    Heap.has_of_open (i := 1) (by decide +kernel)⟩, trivial, trivial⟩, ⟨2⟩, ⟨3⟩, ?_⟩
  decide +kernel

end Captures

end ScriptMachine
