import ScriptMachine.Proofs.Machine.Errands

/-!
# Hosts of two machines

Two hosts are alike when they hold the same, of machines that are at the same point and
collect by different rules. New machines are at the same point, and a call that asks for
no lifetimes leaves hosts alike that were so before.
-/

set_option autoImplicit false

namespace ScriptMachine

open Exec

/-! ## New machines -/

namespace Heap

variable {P : NativeObject → Prop} {h h' : Heap}

theorem mirrors_empty (c c' : CollectConfig) : (empty c).Mirrors P (empty c') where
  size := rfl
  same := fun r b b' hb _ => by cases hb
  bodies := fun r b hb => by cases hb

theorem Mirrors.newDicts (hm : Mirrors P h h') (n : Nat) :
    Mirrored P (fun h => h.newDicts n) h h' := by
  induction n generalizing h h' with
  | zero => exact ⟨rfl, hm⟩
  | succ n ih =>
    obtain ⟨hd, hm1⟩ := hm.newDict
    obtain ⟨hds, hm2⟩ := ih hm1
    refine ⟨?_, hm2⟩
    show h'.newDict.1 :: (h'.newDict.2.newDicts n).1 = h.newDict.1 :: (h.newDict.2.newDicts n).1
    rw [hd, hds]

end Heap

theorem Exec.Tabled.withHeap {m : Machine} (ht : Tabled m) (h : Heap) : Tabled (m.withHeap h) := ht

namespace Machine

theorem bare_peers (config : MachineConfig) (c c' : CollectConfig) :
    Peers NativeObject.IsFrank (.open False []) [] (bare { config with collect := c })
      (bare { config with collect := c' }) := by
  refine ⟨?_, (bare_tidy rfl _).1, (bare_tidy rfl _).1⟩
  unfold bare
  generalize TypeTag.all.length = n
  obtain ⟨hr, hm⟩ := (Heap.mirrors_empty (P := NativeObject.IsFrank) c c').newDict
  obtain ⟨hds, hm1⟩ := hm.newDicts n
  refine ⟨_, c', ?_, hm1⟩
  dsimp only [across]
  rw [hr, hds]

variable {own : List Value} {m m' : Machine}

theorem installOn_peers (hp : Peers NativeObject.IsFrank (.open False []) own m m') (ht : Tabled m)
    {f : NativeFunction} (hf : Frank f.behaviour) (hd : f.defaults = []) (tags : List TypeTag) :
    ∃ h h', installOn f tags m = .ok () (m.withHeap h) ∧
      installOn f tags m' = .ok () (m'.withHeap h') ∧
        Peers NativeObject.IsFrank (.open False []) own (m.withHeap h) (m'.withHeap h') := by
  induction tags generalizing m m' with
  | nil => exact ⟨m.heap, m'.heap, rfl, rfl, hp⟩
  | cons tag rest ih =>
    obtain ⟨h1, h1', heq1, heq1', hl⟩ := install_level (hp.level .nothing False)
      (isTable_method ht tag) hf (by simp [hd])
    obtain ⟨h2, h2', heq2, heq2', hp2⟩ := ih hl.peers ht
    have htable : methodTable tag m = .ok ((m.delegates[tag.index]?).getD ⟨0⟩) m := rfl
    have htable' : methodTable tag m' = .ok ((m.delegates[tag.index]?).getD ⟨0⟩) m' := by
      rw [← hp.twin.delegates_eq]
      rfl
    refine ⟨h2, h2', ?_, ?_, hp2⟩
    · rw [installOn, bind_ok m htable, bind_ok m heq1, heq2]
      rfl
    · rw [installOn, bind_ok m' htable', bind_ok m' heq1', heq2']
      rfl

theorem installAll_peers (fs : List (NativeFunction × List TypeTag))
    (hp : Peers NativeObject.IsFrank (.open False []) own m m') (ht : Tabled m)
    (hf : ∀ e ∈ fs, Frank e.1.behaviour ∧ e.1.defaults = []) :
    ∃ h h', installAll fs m = .ok () (m.withHeap h) ∧ installAll fs m' = .ok () (m'.withHeap h') ∧
      Peers NativeObject.IsFrank (.open False []) own (m.withHeap h) (m'.withHeap h') := by
  induction fs generalizing m m' with
  | nil => exact ⟨m.heap, m'.heap, rfl, rfl, hp⟩
  | cons e rest ih =>
    obtain ⟨hfrank, hd⟩ := hf e List.mem_cons_self
    obtain ⟨h1, h1', heq1, heq1', hp1⟩ := installOn_peers hp ht hfrank hd e.2
    obtain ⟨h2, h2', heq2, heq2', hp2⟩ := ih hp1 ht fun e he => hf e (List.mem_cons_of_mem _ he)
    refine ⟨h2, h2', ?_, ?_, hp2⟩
    · rw [installAll, bind_ok m heq1, heq2]
      rfl
    · rw [installAll, bind_ok m' heq1', heq2']
      rfl

/-- New machines that collect by different rules are at the same point. -/
theorem create_peers (config : MachineConfig) (c c' : CollectConfig) :
    Peers NativeObject.IsFrank (.open False []) [] (create { config with collect := c })
        (create { config with collect := c' }) ∧ Tabled (create { config with collect := c }) := by
  have hp := bare_peers config c c'
  have ht := (bare_tidy (t := .open False []) rfl { config with collect := c }).2
  obtain ⟨h, h', heq, heq', hp1⟩ := installAll_peers TypeMethod.all hp ht fun e he =>
    ⟨TypeMethod.all_frank he, (show Honest [] _ ∧ _ from TypeMethod.all_honest he).2⟩
  rw [create, create, after, after, heq, heq']
  exact ⟨hp1, Tabled.withHeap ht h⟩

end Machine

/-! ## Hosts of two machines -/

namespace Exec

variable {α : Type} {P : NativeObject → Prop} {r r' : EStateM.Result Fault Machine α}

/-- Both came to the same, at the same point. -/
inductive Coincide (P : NativeObject → Prop) :
    EStateM.Result Fault Machine α → EStateM.Result Fault Machine α → Prop
  | ok {a : α} {n n' : Machine} : n.Twin P n' → Coincide P (.ok a n) (.ok a n')
  | error {f : Fault} {n n' : Machine} : n.Twin P n' → Coincide P (.error f n) (.error f n')

/-- What is no escape by one fault nor by another came to the same. -/
theorem Echo.coincide {φ ψ : Fault} (hne : φ ≠ ψ) (h : Echo P φ r r') (h' : Echo P ψ r r') :
    Coincide P r r' := by
  cases h with
  | ok ht => exact .ok ht
  | error ht => exact .error ht
  | escaped =>
    cases h' with
    | error ht => exact .error ht
    | escaped => exact absurd rfl hne

end Exec

namespace Hosting

variable {x x' : Hosting} {q : HostCall}

/-- Two hosts hold the same, of machines that are at the same point and in order. -/
structure Alike (x x' : Hosting) : Prop where
  held : x'.held = x.held
  peers : Machine.Peers NativeObject.IsFrank (.open False []) x.held x.machine x'.machine
  tabled : Tabled x.machine

theorem Alike.fresh {m m' : Machine}
    (hp : Machine.Peers NativeObject.IsFrank (.open False []) [] m m') (ht : Tabled m) :
    Alike { machine := m } { machine := m' } := ⟨rfl, hp, ht⟩

theorem Alike.outlook_eq (h : Alike x x') : x'.outlook = x.outlook := by
  have ha := h.peers.abreast
  have hglobals := (h.peers.level .nothing False).shared_globals
  have hheld : x'.held.map x'.machine.heap.view = x.held.map x.machine.heap.view := by
    rw [h.held]
    exact List.map_congr_left fun v hv => ha.view_eq (h.peers.shared hv)
  have htwin := h.peers.twin
  unfold outlook
  rw [hheld, htwin.root_eq, ha.view_eq hglobals, htwin.frames_eq, htwin.stack_eq,
    htwin.same (f := fun m => m.output) fun _ _ => rfl,
    htwin.same (f := fun m => m.lastError) fun _ _ => rfl]

/-- What the two calls came to: the same, and the hosts are alike afterwards. -/
inductive Matched (x x' : Hosting) (q : HostCall) :
    EStateM.Result Fault Machine Answer → EStateM.Result Fault Machine Answer → Prop
  | ok {a : Answer} {n n' : Machine} : Alike (x.answered q a n) (x'.answered q a n') →
    Matched x x' q (.ok a n) (.ok a n')
  | failed {e : ScriptError} {n n' : Machine} :
    Alike { x with machine := n } { x' with machine := n' } →
      Matched x x' q (.error (.script e) n) (.error (.script e) n')
  | stopped {f : Fault} {n n' : Machine} : (∀ e : ScriptError, f ≠ .script e) →
    Matched x x' q (.error f n) (.error f n')

/-- The values among the operands that need no object, and null. -/
def plains (vs : List Value) : List Value := .null :: vs.filter (·.ref?.isNone)

theorem plains_plain (vs : List Value) : ∀ v ∈ plains vs, v.ref? = none := by
  intro v hv
  rcases List.mem_cons.1 hv with rfl | hv
  · rfl
  · exact Option.isNone_iff_eq_none.1 (List.mem_filter.1 hv).2

theorem value_held (o : Operand) (held : List Value) :
    (o.value held).ref? = none ∨ o.value held ∈ held := by
  cases o with
  | plain v h => exact .inl h
  | held i =>
    show ((held[i]?).getD .null).ref? = none ∨ (held[i]?).getD .null ∈ held
    cases hi : held[i]? with
    | none => exact .inl rfl
    | some v => exact .inr (List.mem_of_getElem? hi)

theorem supplied (operands : List Operand) (held : List Value) :
    Supplied (operands.map (·.value held)) (plains (operands.map (·.value held)) ++ held) where
  given := fun v hv => by
    obtain ⟨o, -, rfl⟩ := List.mem_map.1 hv
    rcases value_held o held with h | h
    · exact List.mem_append_left _ (List.mem_cons_of_mem _ (List.mem_filter.2 ⟨hv, by simp [h]⟩))
    · exact List.mem_append_right _ h
  null := List.mem_cons_self

theorem level_plains {t : Terms} {s s' : Scope} {vs own : List Value}
    {m m' : Machine} (hl : Machine.Level NativeObject.IsFrank t s s' own m m')
    (hvs : ∀ v ∈ vs, v.ref? = none) :
    Machine.Level NativeObject.IsFrank t s s' (vs ++ own) m m' := by
  induction vs with
  | nil => exact hl
  | cons v vs ih =>
    exact (ih fun w hw => hvs w (List.mem_cons_of_mem _ hw)).own_plain (hvs v List.mem_cons_self)

theorem Alike.matched_op (h : Alike x x') (op : HostOp) (operands : List Operand)
    (ht : ∀ alarm : Exec Value, x.act (callAlarmed alarm stepLimit) (.op op operands) =
      x.act hostCaller (.op op operands)) :
    Matched x x' (.op op operands) (x.act hostCaller (.op op operands))
      (x'.act hostCaller (.op op operands)) := by
  have hs := supplied operands x.held
  have hact : x'.act hostCaller (.op op operands) =
      op.act hostCaller (operands.map (·.value x.held)) x'.machine := by
    rw [act, h.held]
  generalize hvs : operands.map (·.value x.held) = vs at hs hact
  have hl := level_plains (h.peers.level .nothing False) (plains_plain vs)
  have hconc : ∀ φ : Fault, (∀ e : ScriptError, φ ≠ .script e) →
      Concerted φ (.open False []) ⟨x.machine, .nothing, False⟩ ⟨x'.machine, .nothing, False⟩
        (plains vs ++ x.held) (op.act (callAlarmed (throw φ) stepLimit) vs) (op.act hostCaller vs)
        Answer.gives x.machine x'.machine := fun _ hφ =>
    act_concerted hφ (runs_in_concert hφ id (fun _ _ => trivial) stepLimit).1 hl hs h.tabled op
  have halarm : ∀ φ : Fault, op.act (callAlarmed (throw φ) stepLimit) vs x.machine =
      x.act hostCaller (.op op operands) := fun φ => by
    rw [← ht (throw φ), act, hvs]
  have hecho : ∀ φ : Fault, (∀ e : ScriptError, φ ≠ .script e) → Echo NativeObject.IsFrank φ
      (x.act hostCaller (.op op operands)) (x'.act hostCaller (.op op operands)) := fun φ hφ => by
    rw [← halarm φ, hact]
    exact (hconc φ hφ).echo
  have hquiet := hconc .outOfSteps (by simp)
  have hsame := Echo.coincide (by simp) (hecho .outOfSteps (by simp)) (hecho .outsideStack (by simp))
  generalize hr : x.act hostCaller (.op op operands) = r at hsame
  generalize hr' : x'.act hostCaller (.op op operands) = r' at hsame
  have hleft := (halarm .outOfSteps).trans hr
  have hright := hact.symm.trans hr'
  cases hsame with
  | @ok a n n' hn =>
    have hk := hquiet.left.done hleft
    have hk' := hquiet.right.done hright
    have hle : ((x.held ++ a.gives : List Value) : Multiset Value) ≤
        (a.gives ++ (plains vs ++ x.held) : List Value) := by
      simp only [← Multiset.coe_add]
      rw [← add_assoc, add_right_comm, add_comm (x.held : Multiset Value)]
      exact Multiset.le_add_right _ _
    have hheld : x'.held ++ a.gives = x.held ++ a.gives := by rw [h.held]
    exact .ok ⟨hheld, ⟨hn, hk.toTidy.mono hle, hk'.toTidy.mono hle⟩,
      (congrArg List.length hk.delegates).trans h.tabled⟩
  | @error f n n' hn =>
    cases f with
    | script e =>
      have hk := (hquiet.left.failed hleft).1
      have hk' := (hquiet.right.failed hright).1
      exact .failed ⟨h.held, ⟨hn, (hk.drop (plains vs)).toTidy, (hk'.drop (plains vs)).toTidy⟩,
        (congrArg List.length hk.delegates).trans h.tabled⟩
    | outsideStack | outOfSteps => exact .stopped (by simp)

/-- A value that the host holds is what it holds no longer afterwards. -/
theorem held_set (held : List Value) (i : Nat) :
    ((Operand.held i).value held :: held.set i .null).Perm (.null :: held) := by
  show ((held[i]?).getD .null :: held.set i .null).Perm (.null :: held)
  cases hi : held[i]? with
  | none =>
    rw [Option.getD_none, List.set_eq_of_length_le (List.getElem?_eq_none_iff.1 hi)]
  | some v => exact Multiset.coe_eq_coe.1 (coe_set hi)

theorem Alike.matched_drop (h : Alike x x') (i : Nat) :
    Matched x x' (.drop i) (x.act hostCaller (.drop i)) (x'.act hostCaller (.drop i)) := by
  have hgone : ∀ y : Hosting, y.act hostCaller (.drop i) = .ok .done
      (y.machine.withHeap (y.machine.heap.release ((Operand.held i).value y.held))) := fun y => by
    rw [act, bind_ok y.machine (release_eq _ _)]
    rfl
  rw [hgone x, hgone x', h.held]
  have hgiven := le_of_eq (Multiset.coe_eq_coe.2 (held_set x.held i))
  have hp : Machine.Peers NativeObject.IsFrank (.open False [])
      ((Operand.held i).value x.held :: x.held.set i .null) x.machine x'.machine :=
    ⟨h.peers.twin, (h.peers.left.own_plain rfl).mono hgiven,
      (h.peers.right.own_plain rfl).mono hgiven⟩
  have hheld : x'.held.set i .null = x.held.set i .null := by rw [h.held]
  exact .ok ⟨hheld, hp.release, h.tabled⟩

/-- One call of each host. -/
theorem Alike.matched (h : Alike x x') (q : HostCall)
    (ht : ∀ alarm : Exec Value, x.act (callAlarmed alarm stepLimit) q = x.act hostCaller q) :
    Matched x x' q (x.act hostCaller q) (x'.act hostCaller q) := by
  cases q with
  | op op operands => exact h.matched_op op operands ht
  | drop i => exact h.matched_drop i

end Hosting

end ScriptMachine
