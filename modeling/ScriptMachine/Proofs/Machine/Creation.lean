import ScriptMachine.Machine.Globals
import ScriptMachine.Proofs.Machine.Stepping

/-!
# New machines

A new machine is in order: nothing runs, no cell is open, and the methods of the
built-in types name only what they are called with.
-/

set_option autoImplicit false

namespace ScriptMachine

/-! ## Honest natives -/

namespace Routine

variable {r : Request} {known : Value → Prop}

theorem asking_honest {next : Value → Routine} (hr : ∀ v ∈ r.names, known v)
    (hn : ∀ v, (next v).Honest fun u => known u ∨ u = v) : (asking r next).Honest known :=
  ⟨hr, hn, fun _ => trivial⟩

theorem giving_honest (hr : ∀ v ∈ r.names, known v) : (giving r).Honest known :=
  asking_honest hr fun _ => .inr rfl

end Routine

namespace TypeMethod

variable {args host : List Value}

/-- What a native may name without having asked for anything. -/
def Given (args host : List Value) (v : Value) : Prop := v.ref? = none ∨ v ∈ args ∨ v ∈ host

theorem given_receiver : Given args host (receiver args) := by
  cases args with
  | nil => exact .inl rfl
  | cons v rest => exact .inr (.inl List.mem_cons_self)

theorem given_argument (i : Nat) : Given args host (argument args i) := by
  unfold argument
  cases h : args[i]? with
  | none => exact .inl rfl
  | some v => exact .inr (.inl (List.mem_of_getElem? h))

theorem len_honest : Honest host len.behaviour := by
  intro args
  simp only [len]
  split
  · exact .inl rfl
  · exact Routine.giving_honest (by simp [Request.names])
  · exact Routine.giving_honest (by simp [Request.names])
  · trivial

theorem append_honest : Honest host append.behaviour := by
  intro args
  have hreceiver : Given args host (receiver args) := given_receiver
  simp only [append]
  split
  · rename_i r hr
    rw [hr] at hreceiver
    refine Routine.asking_honest (fun v hv => ?_) fun _ => .inl hreceiver
    rcases List.mem_cons.1 hv with rfl | hv
    · exact hreceiver
    · rw [List.mem_singleton.1 hv]
      exact given_argument 1
  · trivial

theorem weakref_honest : Honest host weakref.behaviour := by
  intro args
  refine Routine.giving_honest fun v hv => ?_
  rw [List.mem_singleton.1 hv]
  exact given_receiver

theorem ref_honest : Honest host ref.behaviour := by
  intro args
  have hreceiver : Given args host (receiver args) := given_receiver
  simp only [ref]
  split
  · exact Routine.giving_honest (by simp [Request.names])
  · exact hreceiver

theorem readAttribute_honest : Honest host readAttribute.behaviour := by
  intro args
  simp only [readAttribute]
  split
  · split
    · exact Routine.giving_honest (by simp [Request.names])
    · trivial
  · trivial

theorem all_honest {e : NativeFunction × List TypeTag} (he : e ∈ all) :
    Honest host e.1.behaviour ∧ e.1.defaults = [] := by
  simp only [all, List.mem_cons, List.not_mem_nil, or_false] at he
  rcases he with rfl | rfl | rfl | rfl | rfl
  · exact ⟨len_honest, rfl⟩
  · exact ⟨append_honest, rfl⟩
  · exact ⟨weakref_honest, rfl⟩
  · exact ⟨ref_honest, rfl⟩
  · exact ⟨readAttribute_honest, rfl⟩

end TypeMethod

/-! ## Creation -/

/-- A native is made and entered in a dict. -/
theorem Heap.Backs.install {l : Law} {own : Multiset Value} {h : Heap} {f : NativeFunction}
    {table : Ref} (hb : h.Backs l own) (hd : ∀ v ∈ f.defaults.map (·.2), h.Has v)
    (hl : ∀ name docs, l.native ⟨name, docs, f.behaviour, f.params, f.mask, f.defaults⟩)
    (htable : .dict table ∈ own) :
    Heap.Moves l own h
      ((h.newNative f).2.dictInsertChars table f.name (.native (h.newNative f).1)) :=
  have hnew := hb.newNative hd hl
  hnew.trans (hnew.backs.dictInsertChars htable)

theorem Heap.Backs.newDicts {l : Law} {own : Multiset Value} {h : Heap} (hb : h.Backs l own) (n : Nat) :
    Heap.Moves l (((h.newDicts n).1.map Value.dict : List Value) + own) h (h.newDicts n).2 ∧
      (h.newDicts n).1.length = n := by
  induction n generalizing h own with
  | zero => exact ⟨(hb.mono (by simp [Heap.newDicts])).stay, rfl⟩
  | succ n ih =>
    have hd := hb.newDict
    obtain ⟨hm, hlen⟩ := ih hd.backs
    have hcons : (h.newDicts (n + 1)).1 = h.newDict.1 :: (h.newDict.2.newDicts n).1 := rfl
    refine ⟨hd.trans ⟨hm.backs.mono (le_of_eq ?_), hm.evolves⟩, congrArg (· + 1) hlen⟩
    rw [hcons, List.map_cons, coe_cons_add, Multiset.add_cons]

namespace Exec

variable {t : Terms} {own : List Value} {m : Machine}

theorem install_spec {table : Ref} {f : NativeFunction} (hm : m.Tidy t own)
    (htable : .dict table ∈ m.roots) (hf : Honest t.host f.behaviour) (hd : f.defaults = []) :
    ∃ h, install table f m = .ok () (m.withHeap h) ∧ (m.withHeap h).Tidy t own := by
  refine ⟨_, updateHeap_eq m _, hm.heap (hm.backs.install (by simp [hd]) (fun _ _ => hf) ?_)⟩
  exact Multiset.mem_add.2 (.inr (Multiset.mem_add.2 (.inr htable)))

/-- A machine whose types all have a table of methods. -/
def Tabled (m : Machine) : Prop := m.delegates.length = TypeTag.all.length

theorem methodTable_root (ht : Tabled m) (tag : TypeTag) :
    .dict ((m.delegates[tag.index]?).getD ⟨0⟩) ∈ m.roots := by
  have hlt : tag.index < m.delegates.length := by
    rw [ht]
    cases tag <;> decide
  rw [List.getElem?_eq_getElem hlt]
  exact Machine.table_mem_roots (List.getElem_mem hlt)

theorem installOn_spec {f : NativeFunction} {tags : List TypeTag} (hm : m.Tidy t own) (ht : Tabled m)
    (hf : Honest t.host f.behaviour) (hd : f.defaults = []) :
    ∃ h, installOn f tags m = .ok () (m.withHeap h) ∧ (m.withHeap h).Tidy t own := by
  induction tags generalizing m with
  | nil => exact ⟨m.heap, rfl, hm⟩
  | cons tag rest ih =>
    obtain ⟨h1, heq1, hm1⟩ := install_spec hm (methodTable_root ht tag) hf hd
    obtain ⟨h2, heq2, hm2⟩ := ih hm1 ht
    refine ⟨h2, ?_, hm2⟩
    have htable : methodTable tag m = .ok ((m.delegates[tag.index]?).getD ⟨0⟩) m := rfl
    rw [installOn, bind_ok m htable, bind_ok m heq1, heq2]
    rfl

theorem installAll_spec {fs : List (NativeFunction × List TypeTag)} (hm : m.Tidy t own)
    (ht : Tabled m) (hf : ∀ e ∈ fs, Honest t.host e.1.behaviour ∧ e.1.defaults = []) :
    ∃ h, installAll fs m = .ok () (m.withHeap h) ∧ (m.withHeap h).Tidy t own := by
  induction fs generalizing m with
  | nil => exact ⟨m.heap, rfl, hm⟩
  | cons e rest ih =>
    obtain ⟨he, hd⟩ := hf e List.mem_cons_self
    obtain ⟨h1, heq1, hm1⟩ : ∃ h, installOn e.1 e.2 m = .ok () (m.withHeap h) ∧
        (m.withHeap h).Tidy t own := installOn_spec hm ht he hd
    obtain ⟨h2, heq2, hm2⟩ := ih hm1 ht fun e he => hf e (List.mem_cons_of_mem _ he)
    refine ⟨h2, ?_, hm2⟩
    rw [installAll, bind_ok m heq1, heq2]
    rfl

end Exec

namespace Machine

theorem bare_tidy {t : Terms} (hhost : t.host = []) (config : MachineConfig) :
    (bare config).Tidy t [] ∧ Exec.Tabled (bare config) := by
  have hempty : (Heap.empty config.collect).Backs t.law 0 := .empty t.law config.collect
  have hroot := hempty.newDict
  obtain ⟨htables, hlen⟩ := hroot.backs.newDicts TypeTag.all.length
  have hopened : ∀ c i, (Heap.empty config.collect).outerState? c ≠ some (.opened i) :=
    fun c i h => by cases h
  unfold bare Exec.Tabled
  dsimp only
  generalize Heap.empty config.collect = h0 at hroot htables hlen hopened ⊢
  generalize TypeTag.all.length = n at htables hlen ⊢
  generalize h0.newDict = d at hroot htables hlen ⊢
  generalize d.2.newDicts n = ds at htables hlen ⊢
  have hback : ds.2.Backs t.law (((.dict d.1 :: ds.1.map Value.dict : List Value)) : Multiset Value) := by
    have := htables.backs
    rwa [Multiset.add_cons, add_zero, Multiset.cons_coe] at this
  refine ⟨⟨?_, ⟨?_, .nil, ?_⟩, ?_, Nat.zero_le _⟩, hlen⟩
  · refine hback.mono (le_of_eq ?_)
    simp [hhost, roots, anchors, OpenOuters.values]
  · exact fun c hc => by cases hc
  · intro c i hc
    exact absurd ((hroot.trans htables).evolves.opened (Heap.stackIndex?_eq_some.1 hc)) (hopened c i)
  · exact fun f hf => by cases hf

/-- The methods of the types are in the heap. -/
theorem create_eq {t : Terms} (hhost : t.host = []) (config : MachineConfig) :
    ∃ h, create config = (bare config).withHeap h ∧ ((bare config).withHeap h).Tidy t [] := by
  obtain ⟨hm, ht⟩ := bare_tidy hhost config
  obtain ⟨h, heq, htidy⟩ := Exec.installAll_spec hm ht
    fun e he => TypeMethod.all_honest he
  exact ⟨h, by rw [create, after, heq], htidy⟩

/-- A new machine is in order. -/
theorem create_tidy {t : Terms} (hhost : t.host = []) (config : MachineConfig) :
    (create config).Tidy t [] := by
  obtain ⟨h, heq, htidy⟩ := create_eq hhost config
  rw [heq]
  exact htidy

end Machine

end ScriptMachine
