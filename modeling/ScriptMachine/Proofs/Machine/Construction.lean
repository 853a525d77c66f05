import ScriptMachine.Machine.Construction
import ScriptMachine.Proofs.Bytecode.WellFormed
import ScriptMachine.Proofs.Machine.Cells
import ScriptMachine.Proofs.Machine.Members

/-!
# Making closures, objects and members keeps the machine in order

A new closure has as many cells as its function has captured variables, which is
what the well-formed code of the function counts on.
-/

set_option autoImplicit false

namespace ScriptMachine.Exec

variable {α : Type} {t : Terms} {s : Scope} {own vs : List Value} {m : Machine}
variable {call call' : Caller} {c : ClosureObject} {base : Nat}

/-! ## Closures -/

/-- What is made from each item, with a property of every value. -/
theorem gather_meets {make : α → Exec Value} {G : Value → Prop} {items : List α}
    (hmake : ∀ a ∈ items, ∀ (own : List Value) (m : Machine), m.Within t s own →
      Meets t (make a) (make a) (fun v m' => m'.Within t s (v :: own) ∧ G v) (Fails t s own) m)
    (made : List Value) (hmade : ∀ v ∈ made, G v) (hm : m.Within t s (made ++ own)) :
    Meets t (gather make made items) (gather make made items)
      (fun vs m' => m'.Within t s (vs ++ own) ∧ (∀ v ∈ vs, G v) ∧
        vs.length = made.length + items.length) (Fails t s own) m := by
  induction items generalizing made m with
  | nil => exact Meets.of_ok rfl ⟨hm, hmade, rfl⟩
  | cons a rest ih =>
    unfold gather
    refine Meets.bind (Meets.handingAll (Meets.mono (hmake a List.mem_cons_self _ m hm) ?_ ?_))
    · intro v m1 ⟨hm1, hv⟩
      refine Meets.mono (ih (fun b hb => hmake b (List.mem_cons_of_mem _ hb)) (made ++ [v]) ?_ ?_)
        ?_ fun _ _ he => he
      · intro w hw
        rcases List.mem_append.1 hw with hw | hw
        · exact hmade w hw
        · rw [List.mem_singleton.1 hw]
          exact hv
      · refine hm1.perm ?_
        rw [List.append_assoc]
        exact List.perm_middle
      · intro vs m2 ⟨hm2, hg, hlen⟩
        refine ⟨hm2, hg, ?_⟩
        simp only [List.length_append, List.length_cons, List.length_nil] at hlen ⊢
        omega
    · exact fun e m1 he => ⟨he.1.releaseAll, he.2⟩

theorem captureCell_meets (hs : s.Runs c base) {k : Capture}
    (hk : t.strict → c.prototype.HasCapture k) (hm : m.Within t s own) :
    Meets t (captureCell base c.outers k) (captureCell base c.outers k)
      (fun v m' => m'.Within t s (v :: own) ∧ ∃ r, v = .outer r) (Fails t s own) m := by
  unfold captureCell
  split
  · exact Meets.bind (Meets.mono (Keeps.capture (hs.opens _ (Nat.le_add_right _ _)) hm)
      (fun r m1 hm1 => Meets.of_ok rfl ⟨hm1, r, rfl⟩) fun _ _ he => he)
  · rename_i hkind
    split
    · rename_i cell hcell
      have hlive := hm.has_captured hs (List.mem_of_getElem? hcell)
      exact Meets.next (retain_eq m _) (Meets.of_ok rfl ⟨hm.retain hlive, cell, rfl⟩)
    · rename_i hnone
      refine Meets.of_fail ⟨hm, fun ht => ?_⟩
      have hlt := hk ht
      rw [Prototype.HasCapture, hkind] at hlt
      have := List.getElem?_eq_none_iff.1 hnone
      have := (hm.law hs ht).2
      omega

theorem defaultCopy_keeps (hs : s.Runs c base) {r : Int64}
    (hr : t.strict → c.prototype.HasRegister r) (hm : m.Within t s own) :
    Keeps t s own (defaultCopy base r) (defaultCopy base r) (fun (v : Value) => [v]) m := by
  unfold defaultCopy
  refine .register hs hm hr fun v hv => ?_
  exact Meets.of_ok (heap_eq m _) (hm.heap_cons (hm.backs.deepCopy hv).1)

theorem map_outer_refs {vs : List Value} (h : ∀ v ∈ vs, ∃ r, v = .outer r) :
    (vs.filterMap Value.ref?).map Value.outer = vs := by
  induction vs with
  | nil => rfl
  | cons v vs ih =>
    obtain ⟨r, rfl⟩ := h v List.mem_cons_self
    simp only [List.filterMap_cons, Value.ref?, List.map_cons]
    rw [ih fun w hw => h w (List.mem_cons_of_mem _ hw)]

theorem closureInstruction_keeps (hs : s.Runs c base) {i : Instruction}
    (hi : t.strict → c.prototype.HasRegister i.arg0 ∧ c.prototype.HasFunction i.arg1)
    (hm : m.Within t s own) :
    Keeps t s own (closureInstruction base i) (closureInstruction base i) (fun _ => []) m := by
  unfold closureInstruction
  refine .reading (indexArg_reads fun ht => (hi ht).2.1) hm ?_
  rintro index ⟨hpos, rfl⟩
  refine .reading (currentFrame_reads hs hm) hm fun f ⟨hp, _⟩ => ?_
  rw [hp]
  split
  · rename_i hnone
    refine .malformed hm fun ht => ?_
    have := List.getElem?_eq_none_iff.1 hnone
    have := (hi ht).2.2
    omega
  · rename_i p hfun
    have hmem : p ∈ c.prototype.functions := List.mem_of_getElem? hfun
    refine .reading (currentOuters_reads hs hm) hm ?_
    rintro outers rfl
    refine Meets.bind (Meets.mono (gather_meets (fun k hk own m hm =>
      captureCell_meets hs (fun ht => ((hm.law hs ht).1.encloses hmem).1 k hk) hm) []
      (by simp) hm) ?_ fun _ _ he => he)
    rintro cells m1 ⟨hm1, houter, hlen⟩
    have hdefault : ∀ r ∈ p.defaults, ∀ (own : List Value) (m : Machine), m.Within t s own →
        Meets t (defaultCopy base r) (defaultCopy base r)
          (fun v m' => m'.Within t s (v :: own) ∧ True) (Fails t s own) m := by
      intro r hr own m hm
      have := defaultCopy_keeps hs (fun ht => ((hm.law hs ht).1.encloses hmem).2 r hr) hm
      exact Meets.mono this (fun _ _ hm' => ⟨hm', trivial⟩) fun _ _ he => he
    refine Meets.bind (Meets.handingAll (Meets.mono
      (gather_meets hdefault [] (by simp) (show m1.Within t s ([] ++ (cells ++ own)) from hm1)) ?_
      fun _ _ he => ⟨he.1.releaseAll, he.2⟩))
    rintro defaults m2 ⟨hm2, -, -⟩
    have hcells := map_outer_refs houter
    have hnew : (m2.withHeap (m2.heap.newClosure p (cells.filterMap Value.ref?) defaults).2).Within
        t s (.closure (m2.heap.newClosure p (cells.filterMap Value.ref?) defaults).1 :: own) := by
      refine hm2.heap_cons (Heap.Backs.newClosure ?_ fun ht => ⟨(hm2.law hs ht).1.nested hmem, ?_⟩)
      · rw [hcells]
        refine hm2.backs.mono (le_of_eq ?_)
        simp only [← Multiset.coe_add]
        ac_rfl
      · rw [← List.length_map (f := Value.outer), hcells]
        simpa using hlen
    exact Meets.next (heap_eq m2 _) (Keeps.setRegister hs hnew fun ht => (hi ht).1)

/-! ## Objects -/

/-- The value is on the stack or names no object, so it lives while the stack stays. -/
def Lent (m : Machine) (v : Value) : Prop := v.ref? = none ∨ v ∈ m.stack.toList

theorem Lent.has {v : Value} {m' : Machine} (hv : Lent m v) (hm : m'.Within t s own)
    (hstack : m'.stack = m.stack) : m'.heap.Has v := by
  rcases hv with hv | hv
  · exact Heap.has_of_none hv
  · obtain ⟨i, hi⟩ := List.getElem?_of_mem hv
    rw [Array.getElem?_toList, ← hstack] at hi
    exact hm.has_slot hi

theorem lent_of_slot {i : Nat} {v : Value} (hv : m.stack[i]? = some v) : Lent m v :=
  .inr (Array.mem_def.1 (Array.mem_of_getElem? hv))

theorem baseClass_reads (hs : s.Runs c base) {r : Int64}
    (hr : t.strict → c.prototype.HasOptional r) (hm : m.Within t s own) :
    Reads t (baseClass base r) (fun o => ∀ b, o = some b → Lent m (.classObject b)) m := by
  unfold baseClass
  split
  · rename_i hp
    refine .bind (register_reads hs hm fun ht => hr ht hp) fun v ⟨_, hv⟩ => ?_
    split
    · refine .pure fun b hb => ?_
      cases hb
      exact lent_of_slot hv
    · exact .fail ErrorKind.noConfusion
  · exact .pure fun b hb => by cases hb

theorem optionalRegister_reads (hs : s.Runs c base) {r : Int64}
    (hr : t.strict → c.prototype.HasOptional r) (hm : m.Within t s own) :
    Reads t (optionalRegister base r) (Lent m) m := by
  unfold optionalRegister
  split
  · rename_i hp
    exact (register_reads hs hm fun ht => hr ht hp).mono fun v hv => lent_of_slot hv.2
  · exact .pure (.inl rfl)

theorem announce_keeps (hc : Faithful t call call') {parent : Option Ref} {cls : Ref}
    {attributes : Value} (hm : m.Within t s own)
    (hp : ∀ b, parent = some b → m.heap.Has (.classObject b)) (hcls : .classObject cls ∈ own)
    (ha : m.heap.Has attributes) :
    Keeps t s own (announce call parent cls attributes) (announce call' parent cls attributes)
      (fun _ => []) m := by
  unfold announce
  split
  · exact .pure hm
  · rename_i b
    refine .readHeap ?_
    split
    · exact .pure hm
    · rename_i f hf
      refine .bind (callMeta_keeps hc [] hm (hm.backs.has_classMeta hf) ?_)
        fun v m1 hm1 => .released hm1
      simp [hp b rfl, hm.has hcls, ha]

theorem newClassValue_keeps (hc : Faithful t call call') (hs : s.Runs c base) {i : Instruction}
    (hi : t.strict → c.prototype.HasOptional i.arg1 ∧ c.prototype.HasOptional i.arg2)
    (hm : m.Within t s own) :
    Keeps t s own (newClassValue call base i) (newClassValue call' base i)
      (fun (v : Value) => [v]) m := by
  unfold newClassValue
  refine .reading (baseClass_reads hs (fun ht => (hi ht).1) hm) hm fun parent hp => ?_
  refine .reading (optionalRegister_reads hs (fun ht => (hi ht).2) hm) hm fun attributes ha => ?_
  refine .get ?_
  have hnew : (m.withHeap (m.heap.newClass parent m.config.constructorName).2).Within t s
      (.classObject (m.heap.newClass parent m.config.constructorName).1 :: own) :=
    hm.heap_cons (hm.backs.newClass fun b hb => (hp b hb).has hm rfl)
  refine .next (heap_eq m _) ?_
  refine .next (retain_eq _ _) ?_
  have hkept := hnew.retain (ha.has hnew rfl)
  refine .next (updateHeap_eq _ _) ?_
  have hset := hkept.heap (hkept.backs_cons.setClassAttributes
    (r := (m.heap.newClass parent m.config.constructorName).1))
  refine .handed (announce_keeps hc hset ?_ List.mem_cons_self (ha.has hset rfl)) ?_
  · exact fun b hb => (hp b hb).has hset rfl
  · exact fun m1 hm1 => .pure hm1

theorem newObjectInstruction_keeps (hc : Faithful t call call') (hs : s.Runs c base)
    {i : Instruction} (hm : m.Within t s own)
    (hi : t.strict → c.prototype.HasRegister i.arg0 ∧ (ObjectKind.ofCode? i.arg3).isSome ∧
      (ObjectKind.ofCode? i.arg3 = some .classObject →
        c.prototype.HasOptional i.arg1 ∧ c.prototype.HasOptional i.arg2)) :
    Keeps t s own (newObjectInstruction call base i) (newObjectInstruction call' base i)
      (fun _ => []) m := by
  unfold newObjectInstruction
  split
  · rename_i hnone
    refine .malformed hm fun ht => ?_
    have := (hi ht).2.1
    rw [hnone] at this
    cases this
  · exact .next (heap_eq m _)
      (.setRegister hs (hm.heap_cons hm.backs.newDict) fun ht => (hi ht).1)
  · have hnew : (m.withHeap (m.heap.newArray #[]).2).Within t s ((m.heap.newArray #[]).1 :: own) :=
      hm.heap_cons (Heap.Backs.newArray (hm.backs.mono (by simp)))
    exact .next (heap_eq m _) (.setRegister hs hnew fun ht => (hi ht).1)
  · rename_i hcls
    refine .bind (newClassValue_keeps hc hs (fun ht => (hi ht).2.2 hcls) hm) fun v m1 hm1 => ?_
    exact .setRegister hs hm1 fun ht => (hi ht).1

/-! ## Members and items -/

theorem newMemberInstruction_keeps (hc : Faithful t call call') (hs : s.Runs c base)
    {i : Instruction} (hm : m.Within t s own)
    (hi : t.strict → c.prototype.HasRegister i.arg1 ∧ c.prototype.HasRegister i.arg2 ∧
      c.prototype.HasRegister i.arg3 ∧
      (i.arg0 &&& 2 ≠ 0 → c.prototype.HasRegister (i.arg2 - 1))) :
    Keeps t s own (newMemberInstruction call base i) (newMemberInstruction call' base i)
      (fun _ => []) m := by
  unfold newMemberInstruction
  refine .register hs hm (fun ht => (hi ht).1) fun cls hcls => ?_
  split
  · rename_i r
    refine .register hs hm (fun ht => (hi ht).2.1) fun key hkey => ?_
    refine .register hs hm (fun ht => (hi ht).2.2.1) fun v hv => ?_
    have hadd : ∀ attributes : Value, m.heap.Has attributes →
        Keeps t s own
          (holding [.classObject r, key] do
            retainAll [v, attributes]
            newClassMember call r key v attributes (i.arg0 &&& 1 != 0))
          (holding [.classObject r, key] do
            retainAll [v, attributes]
            newClassMember call' r key v attributes (i.arg0 &&& 1 != 0)) (fun _ => []) m := by
      intro attributes ha
      refine .holding hm (by simp [hcls, hkey]) fun m1 hm1 hw1 => ?_
      refine .retainAll hm1 (by simp [hw1 v hv, hw1 _ ha]) fun m2 hm2 _ => ?_
      exact newClassMember_keeps hc hm2 (by simp) (by simp)
    dsimp only
    split
    · rename_i hflag
      exact .register hs hm (fun ht => (hi ht).2.2.2 (by simpa using hflag)) hadd
    · exact hadd .null (Heap.has_of_none rfl)
  · exact .fail hm ErrorKind.noConfusion

theorem appendedValue_keeps (hs : s.Runs c base) {i : Instruction} {source : AppendSource}
    (hi : t.strict → (source = .register → c.prototype.HasRegister i.arg1) ∧
      (source = .literal → c.prototype.HasLiteral i.arg1)) (hm : m.Within t s own) :
    Keeps t s own (appendedValue base i source) (appendedValue base i source)
      (fun (v : Value) => [v]) m := by
  unfold appendedValue
  cases source with
  | register =>
    exact .register hs hm (fun ht => (hi ht).1 rfl) fun v hv => sharing_keeps hm hv
  | literal => exact .literal hs hm fun ht => (hi ht).2 rfl
  | integer | float | bool => exact .pure (hm.own_plain rfl)

theorem appendInstruction_keeps (hs : s.Runs c base) {i : Instruction} (hm : m.Within t s own)
    (hi : t.strict → c.prototype.HasRegister i.arg0 ∧ (AppendSource.ofCode? i.arg2).isSome ∧
      (AppendSource.ofCode? i.arg2 = some .register → c.prototype.HasRegister i.arg1) ∧
      (AppendSource.ofCode? i.arg2 = some .literal → c.prototype.HasLiteral i.arg1)) :
    Keeps t s own (appendInstruction base i) (appendInstruction base i) (fun _ => []) m := by
  unfold appendInstruction
  refine .register hs hm (fun ht => (hi ht).1) fun target _ => ?_
  split
  · split
    · rename_i hnone
      refine .malformed hm fun ht => ?_
      have := (hi ht).2.1
      rw [hnone] at this
      cases this
    · rename_i source hsource
      refine .bind (appendedValue_keeps hs (fun ht => ?_) hm) fun v m1 hm1 => ?_
      · refine ⟨fun h => (hi ht).2.2.1 ?_, fun h => (hi ht).2.2.2 ?_⟩
        · rw [hsource, h]
        · rw [hsource, h]
      · exact Meets.of_ok (updateHeap_eq _ _) (hm1.heap hm1.backs_cons.pushItem)
  · exact .fail hm ErrorKind.noConfusion

end ScriptMachine.Exec
