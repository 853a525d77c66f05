import Mathlib.Data.List.Forall2
import Mathlib.Data.List.Nodup
import Mathlib.Logic.Relation
import ScriptMachine.Proofs.Builder.Operations
import ScriptMachine.Proofs.Bytecode.WellFormed

/-!
# Resolution of captured names

A name that a function takes from outside is that of the innermost register of
the nearest enclosing function that declares it. The captures of the functions
in between lead there one by one, and what surrounds a function stays as it is
while the function is built, so a capture never has to be found again.
-/

set_option autoImplicit false

namespace ScriptMachine

/-! ## Names of registers -/

namespace Draft

variable {d d' d'' : Draft} {name : String}

def nameAt (d : Draft) (i : Nat) : Option String := (d.slots[i]?).bind (·.name)

def Declares (d : Draft) (name : String) : Prop := ∃ i, d.nameAt i = some name

/-- The last register of a name. -/
def Innermost (d : Draft) (name : String) (pos : Nat) : Prop :=
  d.nameAt pos = some name ∧ ∀ i, pos < i → d.nameAt i ≠ some name

/-- Registers are numbered in order and have room in the frame. -/
structure Numbered (d : Draft) : Prop where
  pos : ∀ (i : Nat) (s : Slot), d.slots[i]? = some s → s.pos = i
  fits : d.slots.size ≤ d.stackSize

theorem nameAt_eq_some {i : Nat} :
    d.nameAt i = some name ↔ ∃ s, d.slots[i]? = some s ∧ s.name = some name :=
  Option.bind_eq_some_iff

theorem localPos?_eq_none : d.localPos? name = none ↔ ¬ d.Declares name := by
  simp only [localPos?, Option.map_eq_none_iff, List.find?_eq_none, List.mem_reverse, beq_iff_eq,
    Declares, nameAt_eq_some, not_exists, not_and]
  refine ⟨fun h i s hs => h s ?_, fun h s hs => ?_⟩
  · exact Array.mem_def.1 (Array.mem_of_getElem? hs)
  · obtain ⟨i, hi⟩ := List.mem_iff_getElem?.1 hs
    exact h i s (by rwa [Array.getElem?_toList] at hi)

theorem Numbered.innermost (hn : d.Numbered) {pos : Nat} (hp : d.localPos? name = some pos) :
    d.Innermost name pos := by
  obtain ⟨s, hs, rfl⟩ := Option.map_eq_some_iff.1 hp
  obtain ⟨hname, i, hi, rfl, hbefore⟩ := List.find?_eq_some_iff_getElem.1 hs
  have hlen : i < d.slots.toList.length := by simpa using hi
  rw [List.getElem_reverse] at hname ⊢
  have hget : d.slots[d.slots.toList.length - 1 - i]? =
      some d.slots.toList[d.slots.toList.length - 1 - i] := by
    rw [← Array.getElem?_toList, List.getElem?_eq_getElem]
  rw [hn.pos _ _ hget]
  refine ⟨nameAt_eq_some.2 ⟨_, hget, beq_iff_eq.1 hname⟩, fun j hj hjn => ?_⟩
  obtain ⟨t, ht, htn⟩ := nameAt_eq_some.1 hjn
  obtain ⟨hjlt, rfl⟩ := Array.getElem?_eq_some_iff.1 ht
  have hjlt' : j < d.slots.toList.length := by simpa using hjlt
  -- counted from the end, the register comes before the one that was found
  have hback := hbefore (d.slots.toList.length - 1 - j) (by omega)
  rw [List.getElem_reverse] at hback
  have hidx : d.slots.toList.length - 1 - (d.slots.toList.length - 1 - j) = j := by omega
  simp only [hidx] at hback
  simp [htn] at hback

theorem Innermost.unique {p q : Nat} (hp : d.Innermost name p) (hq : d.Innermost name q) : p = q := by
  rcases Nat.lt_trichotomy p q with h | h | h
  · exact absurd hq.1 (hp.2 q h)
  · exact h
  · exact absurd hp.1 (hq.2 p h)

theorem Numbered.localPos?_eq_some (hn : d.Numbered) {pos : Nat} :
    d.localPos? name = some pos ↔ d.Innermost name pos := by
  refine ⟨hn.innermost, fun hi => ?_⟩
  cases hp : d.localPos? name with
  | none => exact absurd ⟨pos, hi.1⟩ (localPos?_eq_none.1 hp)
  | some p => rw [(hn.innermost hp).unique hi]

theorem Innermost.lt {pos : Nat} (hi : d.Innermost name pos) : pos < d.slots.size := by
  obtain ⟨s, hs, -⟩ := nameAt_eq_some.1 hi.1
  exact (Array.getElem?_eq_some_iff.1 hs).1

/-! ## Captures of a draft -/

/-- Some captures and marks have been added. -/
structure Enriched (d d' : Draft) : Prop where
  registers : ∀ i : Nat, (d'.slots[i]?).map (fun (s : Slot) => (s.name, s.pos)) =
    (d.slots[i]?).map fun (s : Slot) => (s.name, s.pos)
  marks : ∀ (i : Nat) (s : Slot), d.slots[i]? = some s → s.escaped = true →
    ∃ t, d'.slots[i]? = some t ∧ t.escaped = true
  captures : d.outers.toList <+: d'.outers.toList
  functions : d'.functions = d.functions
  stackSize : d'.stackSize = d.stackSize

namespace Enriched

theorem refl (d : Draft) : Enriched d d where
  registers := fun _ => rfl
  marks := fun _ s hs he => ⟨s, hs, he⟩
  captures := List.prefix_rfl
  functions := rfl
  stackSize := rfl

theorem nameAt (h : Enriched d d') (i : Nat) : d'.nameAt i = d.nameAt i := by
  have hr := h.registers i
  simp only [Draft.nameAt]
  cases hd : d.slots[i]? with
  | none =>
    rw [hd, Option.map_none, Option.map_eq_none_iff] at hr
    rw [hr]
  | some s =>
    rw [hd, Option.map_some, Option.map_eq_some_iff] at hr
    obtain ⟨t, ht, heq⟩ := hr
    rw [ht]
    exact congrArg Prod.fst heq

theorem declares (h : Enriched d d') : d'.Declares name ↔ d.Declares name := by
  simp only [Declares, h.nameAt]

theorem innermost (h : Enriched d d') {pos : Nat} :
    d'.Innermost name pos ↔ d.Innermost name pos := by
  simp only [Innermost, h.nameAt]

theorem size (h : Enriched d d') : d'.slots.size = d.slots.size := by
  have hsize : ∀ e e' : Draft, (∀ i : Nat, (e'.slots[i]?).map (fun (s : Slot) => (s.name, s.pos)) =
      (e.slots[i]?).map fun (s : Slot) => (s.name, s.pos)) → e.slots.size ≤ e'.slots.size := by
    intro e e' he
    have hnone : e'.slots[e'.slots.size]? = none := Array.getElem?_eq_none (Nat.le_refl _)
    have hr := he e'.slots.size
    rw [hnone, Option.map_none, eq_comm, Option.map_eq_none_iff] at hr
    exact Array.getElem?_eq_none_iff.1 hr
  exact Nat.le_antisymm (hsize d' d fun i => (h.registers i).symm) (hsize d d' h.registers)

theorem numbered (h : Enriched d d') (hn : d.Numbered) : d'.Numbered where
  pos := fun i t ht => by
    have hr := h.registers i
    rw [ht, Option.map_some, eq_comm, Option.map_eq_some_iff] at hr
    obtain ⟨s, hs, heq⟩ := hr
    exact (congrArg Prod.snd heq).symm.trans (hn.pos i s hs)
  fits := by
    rw [h.size, h.stackSize]
    exact hn.fits

theorem localPos? (h : Enriched d d') (hn : d.Numbered) (name : String) :
    d'.localPos? name = d.localPos? name := by
  ext pos
  rw [(h.numbered hn).localPos?_eq_some, hn.localPos?_eq_some, h.innermost]

theorem capture (h : Enriched d d') {i : Nat} {c : Capture} (hc : d.outers[i]? = some c) :
    d'.outers[i]? = some c := by
  rw [← Array.getElem?_toList] at hc ⊢
  obtain ⟨more, hmore⟩ := h.captures
  rw [← hmore, List.getElem?_append_left (List.getElem?_eq_some_iff.1 hc).1]
  exact hc

end Enriched

theorem enriched_markEscaped (d : Draft) (pos : Nat) : Enriched d (d.markEscaped pos) := by
  rcases markEscaped_cases d pos with heq | ⟨s, hs, -, heq⟩ <;> rw [heq]
  · exact .refl d
  · have hlt := (Array.getElem?_eq_some_iff.1 hs).1
    refine ⟨fun i => ?_, fun i t ht he => ?_, List.prefix_rfl, rfl, rfl⟩
    · by_cases hi : pos = i
      · subst hi
        rw [Array.getElem?_setIfInBounds_self_of_lt hlt, hs]
        rfl
      · rw [Array.getElem?_setIfInBounds_ne hi]
    · by_cases hi : pos = i
      · subst hi
        exact ⟨_, Array.getElem?_setIfInBounds_self_of_lt hlt, rfl⟩
      · exact ⟨t, by rwa [Array.getElem?_setIfInBounds_ne hi], he⟩

theorem escaped_markEscaped {pos : Nat} (hlt : pos < d.slots.size) :
    ∃ s, (d.markEscaped pos).slots[pos]? = some s ∧ s.escaped = true := by
  unfold markEscaped
  rw [Array.getElem?_eq_getElem hlt]
  simp only
  split
  · rename_i he
    exact ⟨_, Array.getElem?_eq_getElem hlt, he⟩
  · exact ⟨_, Array.getElem?_setIfInBounds_self_of_lt hlt, rfl⟩

theorem enriched_addCapture (d : Draft) (c : Capture) : Enriched d (Builder.addCapture d c).2 where
  registers := fun _ => rfl
  marks := fun _ s hs he => ⟨s, hs, he⟩
  captures := by simp [Builder.addCapture]
  functions := rfl
  stackSize := rfl

theorem outers_markEscaped (d : Draft) (pos : Nat) : (d.markEscaped pos).outers = d.outers := by
  rcases markEscaped_cases d pos with heq | ⟨s, -, -, heq⟩ <;> rw [heq]

theorem captureIndex?_eq_some {i : Nat} (h : d.captureIndex? name = some i) :
    ∃ c, d.outers[i]? = some c ∧ c.name = name := by
  obtain ⟨hlt, hname, -⟩ := List.findIdx?_eq_some_iff_getElem.1 h
  refine ⟨d.outers.toList[i], ?_, beq_iff_eq.1 hname⟩
  rw [← Array.getElem?_toList, List.getElem?_eq_getElem]

theorem captureIndex?_eq_none : d.captureIndex? name = none ↔ ∀ c ∈ d.outers, c.name ≠ name := by
  simp [captureIndex?, List.findIdx?_eq_none_iff]

/-- A capture stays the first of its name. -/
theorem captureIndex?_of_prefix (h : d.outers.toList <+: d'.outers.toList) {i : Nat}
    (hi : d.captureIndex? name = some i) : d'.captureIndex? name = some i := by
  obtain ⟨more, hmore⟩ := h
  rw [captureIndex?, ← hmore, List.findIdx?_append]
  rw [captureIndex?] at hi
  rw [hi, Option.some_or]

theorem captureIndex?_addCapture {kind : CaptureKind} {index : Nat}
    (h : d.captureIndex? name = none) :
    (Builder.addCapture d ⟨name, kind, index⟩).2.captureIndex? name = some d.outers.size := by
  rw [captureIndex?] at h ⊢
  simp only [Builder.addCapture, Array.toList_push, List.findIdx?_append, h, Option.none_or]
  simp

/-! ## Chains of captures -/

/-- A capture leads to the local of its name in the enclosing function, or where
there is none to a capture of the same name. -/
inductive Binds (p : Draft) : Capture → Prop
  | register {name : String} {pos : Nat} {s : Slot} : p.localPos? name = some pos →
    p.slots[pos]? = some s → s.escaped = true → Binds p ⟨name, .register, pos⟩
  | outer {name : String} {i : Nat} {e : Capture} : p.localPos? name = none →
    p.outers[i]? = some e → e.name = name → Binds p ⟨name, .outer, i⟩

/-- Each function has one capture for a name, and every capture leads into the
function around it. -/
def Linked : Draft → List Draft → Prop
  | d, [] => d.outers = #[]
  | d, p :: rest =>
    (d.outers.toList.map (·.name)).Nodup ∧ (∀ c ∈ d.outers.toList, Binds p c) ∧ Linked p rest

/-- Follows a capture to a register: the number of functions in between, and the
register. -/
def follow : Draft → List Draft → Nat → Option (Nat × Nat)
  | _, [], _ => none
  | d, p :: rest, i =>
    match d.outers[i]? with
    | none => none
    | some ⟨_, .register, pos⟩ => some (0, pos)
    | some ⟨_, .outer, j⟩ => (follow p rest j).map fun (t : Nat × Nat) => (t.1 + 1, t.2)

/-- The nearest function that declares a name, by the number of functions passed
over, and the last register of the name there. -/
inductive Nearest (name : String) : List Draft → Nat → Nat → Prop
  | here {p : Draft} {rest : List Draft} {pos : Nat} : p.Innermost name pos →
    Nearest name (p :: rest) 0 pos
  | there {p : Draft} {rest : List Draft} {k pos : Nat} : ¬ p.Declares name →
    Nearest name rest k pos → Nearest name (p :: rest) (k + 1) pos

theorem Nearest.declared {enclosing : List Draft} {k pos : Nat} (h : Nearest name enclosing k pos) :
    ∃ p ∈ enclosing, p.Declares name := by
  induction h with
  | here hp => exact ⟨_, List.mem_cons_self, _, hp.1⟩
  | there _ _ ih =>
    obtain ⟨p, hp, hd⟩ := ih
    exact ⟨p, List.mem_cons_of_mem _ hp, hd⟩

theorem Nearest.of_enriched {enclosing enclosing' : List Draft} {k pos : Nat}
    (he : List.Forall₂ Enriched enclosing enclosing') (h : Nearest name enclosing' k pos) :
    Nearest name enclosing k pos := by
  induction he generalizing k with
  | nil => exact h
  | cons hp _ ih =>
    cases h with
    | here hi => exact .here (hp.innermost.1 hi)
    | there hd hrest => exact .there (fun h => hd (hp.declares.2 h)) (ih hrest)

/-- The register that a capture leads to, marked, and the way there. -/
structure LeadsTo (d : Draft) (enclosing : List Draft) (name : String) (i k pos : Nat) : Prop where
  nearest : Nearest name enclosing k pos
  follows : follow d enclosing i = some (k, pos)
  marked : ∃ p s, enclosing[k]? = some p ∧ p.slots[pos]? = some s ∧ s.escaped = true
  single : ∀ q ∈ d :: enclosing.take k, (q.outers.toList.map (·.name)).count name = 1

theorem count_captures {i : Nat} {c : Capture} (hnodup : (d.outers.toList.map (·.name)).Nodup)
    (hc : d.outers[i]? = some c) : (d.outers.toList.map (·.name)).count c.name = 1 := by
  refine List.count_eq_one_of_mem hnodup (List.mem_map_of_mem ?_)
  exact Array.mem_def.1 (Array.mem_of_getElem? hc)

theorem Linked.leadsTo {enclosing : List Draft} (hl : Linked d enclosing)
    (hn : ∀ p ∈ enclosing, p.Numbered) {i : Nat} {c : Capture} (hc : d.outers[i]? = some c) :
    ∃ k pos, LeadsTo d enclosing c.name i k pos := by
  induction enclosing generalizing d i c with
  | nil =>
    rw [show d.outers = #[] from hl] at hc
    cases hc
  | cons p rest ih =>
    obtain ⟨hnodup, hbinds, hrest⟩ := hl
    have hcount := count_captures hnodup hc
    have hp := hn p List.mem_cons_self
    cases hbinds c (Array.mem_def.1 (Array.mem_of_getElem? hc)) with
    | @register name pos s hpos hs he =>
      refine ⟨0, pos, .here (hp.innermost hpos), ?_, ⟨p, s, rfl, hs, he⟩, fun q hq => ?_⟩
      · simp only [follow, hc]
      · rw [List.take_zero, List.mem_singleton] at hq
        exact hq ▸ hcount
    | @outer name j e hnone he hname =>
      obtain ⟨k, pos, hlead⟩ := ih hrest (fun q hq => hn q (List.mem_cons_of_mem _ hq)) he
      rw [hname] at hlead
      refine ⟨k + 1, pos, .there (localPos?_eq_none.1 hnone) hlead.nearest, ?_, hlead.marked,
        fun q hq => ?_⟩
      · simp only [follow, hc, hlead.follows, Option.map_some]
      · rw [List.take_succ_cons] at hq
        rcases List.mem_cons.1 hq with rfl | hq
        · exact hcount
        · exact hlead.single q hq

/-! ## Resolving -/

theorem Binds.of_enriched {p p' : Draft} {c : Capture} (hp : p.Numbered) (he : Enriched p p')
    (hb : Binds p c) : Binds p' c := by
  cases hb with
  | register hpos hs hesc =>
    obtain ⟨t, ht, hte⟩ := he.marks _ _ hs hesc
    exact .register ((he.localPos? hp _).trans hpos) ht hte
  | outer hnone hcap hname => exact .outer ((he.localPos? hp _).trans hnone) (he.capture hcap) hname

/-- A new capture for a name that has none. -/
theorem Linked.addCapture {p p' : Draft} {rest rest' : List Draft} {kind : CaptureKind} {index : Nat}
    (hl : Linked d (p :: rest)) (hp : p.Numbered) (he : Enriched p p') (hrest : Linked p' rest')
    (hnone : d.captureIndex? name = none) (hb : Binds p' ⟨name, kind, index⟩) :
    Linked (Builder.addCapture d ⟨name, kind, index⟩).2 (p' :: rest') := by
  obtain ⟨hnodup, hbinds, -⟩ := hl
  have hlist : (Builder.addCapture d ⟨name, kind, index⟩).2.outers.toList =
      d.outers.toList ++ [⟨name, kind, index⟩] := by simp [Builder.addCapture]
  refine ⟨?_, fun c hc => ?_, hrest⟩
  · rw [hlist, List.map_append, List.map_singleton, List.nodup_append]
    refine ⟨hnodup, List.nodup_singleton _, fun a ha b hb => ?_⟩
    obtain ⟨c, hc, rfl⟩ := List.mem_map.1 ha
    rw [List.mem_singleton.1 hb]
    exact captureIndex?_eq_none.1 hnone c (Array.mem_def.2 hc)
  · rw [hlist, List.mem_append, List.mem_singleton] at hc
    rcases hc with hc | rfl
    · exact (hbinds c hc).of_enriched hp he
    · exact hb

theorem Linked.of_outers {enclosing : List Draft} (hl : Linked d enclosing)
    (ho : d'.outers = d.outers) : Linked d' enclosing := by
  cases enclosing with
  | nil => exact ho.trans hl
  | cons p rest =>
    obtain ⟨hnodup, hbinds, hrest⟩ := hl
    refine ⟨?_, ?_, hrest⟩
    · rwa [ho]
    · rwa [ho]

/-- What resolving a name comes to. -/
def Resolved (name : String) (d : Draft) (enclosing : List Draft) :
    Option (Nat × Draft × List Draft) → Prop
  | none => ∀ p ∈ enclosing, ¬ p.Declares name
  | some (i, d', enclosing') => d'.captureIndex? name = some i ∧ Linked d' enclosing' ∧
    Enriched d d' ∧ List.Forall₂ Enriched enclosing enclosing'

theorem resolve_resolved {enclosing : List Draft} (hl : Linked d enclosing)
    (hn : ∀ p ∈ enclosing, p.Numbered) :
    Resolved name d enclosing (Builder.resolve name d enclosing) := by
  induction enclosing generalizing d with
  | nil =>
    have hnone : d.captureIndex? name = none := captureIndex?_eq_none.2 fun c hc => by
      rw [show d.outers = #[] from hl] at hc
      exact absurd hc (by simp)
    simp only [Builder.resolve, hnone]
    exact fun p hp => by cases hp
  | cons p rest ih =>
    have hp := hn p List.mem_cons_self
    have hrest : ∀ q ∈ rest, q.Numbered := fun q hq => hn q (List.mem_cons_of_mem _ hq)
    unfold Builder.resolve
    cases hi : d.captureIndex? name with
    | some i =>
      exact ⟨hi, hl, .refl d, .cons (.refl p) (List.forall₂_same.2 fun q _ => .refl q)⟩
    | none =>
      simp only
      cases hpos : p.localPos? name with
      | some pos =>
        have he := enriched_markEscaped p pos
        obtain ⟨s, hs, hesc⟩ := escaped_markEscaped (hp.innermost hpos).lt
        refine ⟨captureIndex?_addCapture hi, ?_, enriched_addCapture d _,
          .cons he (List.forall₂_same.2 fun q _ => .refl q)⟩
        exact hl.addCapture hp he (hl.2.2.of_outers (outers_markEscaped p pos)) hi
          (.register ((he.localPos? hp name).trans hpos) hs hesc)
      | none =>
        have hout := ih hl.2.2 hrest
        simp only
        cases hres : Builder.resolve name p rest with
        | none =>
          rw [hres] at hout
          exact List.forall_mem_cons.2 ⟨localPos?_eq_none.1 hpos, hout⟩
        | some t =>
          obtain ⟨j, p', rest'⟩ := t
          rw [hres] at hout
          obtain ⟨hj, hlinked, he, hall⟩ := hout
          obtain ⟨e, hcap, hname⟩ := captureIndex?_eq_some hj
          refine ⟨captureIndex?_addCapture hi, ?_, enriched_addCapture d _, .cons he hall⟩
          exact hl.addCapture hp he hlinked hi
            (.outer ((he.localPos? hp name).trans hpos) hcap hname)

end Draft

/-! ## Functions that are finished -/

/-- In the function and all that is nested in it, a capture names what is there
in the enclosing function. -/
inductive Prototype.CapturesFit : Prototype → Prop
  | intro {p : Prototype} : (∀ f ∈ p.functions, ∀ c ∈ f.outers, p.HasCapture c) →
    (∀ f ∈ p.functions, CapturesFit f) → CapturesFit p

namespace Draft

variable {d d' d'' p : Draft} {name : String}

/-- The functions nested in the draft capture what is there in it. -/
def FunctionsFit (d : Draft) : Prop :=
  ∀ f ∈ d.functions.toList, f.CapturesFit ∧ ∀ c ∈ f.outers, d.build.HasCapture c

theorem FunctionsFit.build (hf : d.FunctionsFit) : d.build.CapturesFit :=
  .intro (fun f h => (hf f h).2) fun f h => (hf f h).1

theorem hasCapture_mono (hs : d.stackSize ≤ d'.stackSize) (ho : d.outers.size ≤ d'.outers.size)
    {c : Capture} (hc : d.build.HasCapture c) : d'.build.HasCapture c := by
  obtain ⟨name, kind, i⟩ := c
  cases kind with
  | register => exact Nat.lt_of_lt_of_le hc hs
  | outer => exact Nat.lt_of_lt_of_le hc ho

theorem FunctionsFit.mono (hf : d.FunctionsFit) (hs : d.stackSize ≤ d'.stackSize)
    (ho : d.outers.size ≤ d'.outers.size) (hfun : d'.functions = d.functions) : d'.FunctionsFit := by
  intro f h
  rw [hfun] at h
  exact ⟨(hf f h).1, fun c hc => hasCapture_mono hs ho ((hf f h).2 c hc)⟩

theorem Enriched.functionsFit (he : Enriched d d') (hf : d.FunctionsFit) : d'.FunctionsFit :=
  hf.mono (Nat.le_of_eq he.stackSize.symm) he.captures.length_le he.functions

theorem Binds.hasCapture (hp : p.Numbered) {c : Capture} (hb : Binds p c) :
    p.build.HasCapture c := by
  cases hb with
  | register hpos _ _ => exact Nat.lt_of_lt_of_le (hp.innermost hpos).lt hp.fits
  | outer _ hcap _ => exact (Array.getElem?_eq_some_iff.1 hcap).1

/-! ## Registers come and go -/

/-- Other registers may be in use, and the captures are the same. -/
structure Reshaped (d d' : Draft) : Prop where
  outers : d'.outers = d.outers
  functions : d'.functions = d.functions
  stackSize : d.stackSize ≤ d'.stackSize
  numbered : d.Numbered → d'.Numbered

namespace Reshaped

theorem trans (h1 : Reshaped d d') (h2 : Reshaped d' d'') : Reshaped d d'' where
  outers := h2.outers.trans h1.outers
  functions := h2.functions.trans h1.functions
  stackSize := Nat.le_trans h1.stackSize h2.stackSize
  numbered := h2.numbered ∘ h1.numbered

/-- The first registers are left. -/
theorem of_pop (hslots : d'.slots = d.slots ∨ d'.slots = d.slots.pop) (ho : d'.outers = d.outers)
    (hf : d'.functions = d.functions) (hs : d'.stackSize = d.stackSize) : Reshaped d d' where
  outers := ho
  functions := hf
  stackSize := Nat.le_of_eq hs.symm
  numbered := fun hn => by
    rcases hslots with heq | heq
    · exact ⟨fun i s h => hn.pos i s (heq ▸ h), by rw [heq, hs]; exact hn.fits⟩
    · refine ⟨fun i s h => ?_, ?_⟩
      · rw [heq, Array.getElem?_pop] at h
        split at h
        · exact hn.pos i s h
        · cases h
      · rw [heq, hs, Array.size_pop]
        exact Nat.le_trans (Nat.sub_le _ _) hn.fits

theorem refl (d : Draft) : Reshaped d d := of_pop (.inl rfl) rfl rfl rfl

theorem pushSlot (name : Option String) (d : Draft) : Reshaped d (pushSlot name d).2 := by
  rcases pushSlot_cases name d with heq | heq <;> rw [heq]
  · exact refl d
  · refine ⟨rfl, rfl, Nat.le_max_left _ _, fun hn => ⟨fun i s h => ?_, ?_⟩⟩
    · rw [Array.getElem?_push] at h
      split at h
      · rename_i hi
        cases h
        exact hi.symm
      · exact hn.pos i s h
    · rw [Array.size_push]
      exact Nat.le_max_right _ _

theorem retireTop (d : Draft) : Reshaped d d.retireTop := by
  unfold Draft.retireTop
  split
  · exact refl d
  · split
    · exact of_pop (.inr rfl) rfl rfl rfl
    · exact of_pop (.inr rfl) rfl rfl rfl

theorem setStackSize (d : Draft) (n : Nat) : Reshaped d (d.setStackSize n) := by
  have hmany : ∀ (k : Nat) (d : Draft), Reshaped d (retireMany k d) := by
    intro k
    induction k with
    | zero => exact refl
    | succ k ih => exact fun d => (retireTop d).trans (ih _)
  exact hmany _ d

theorem pushTarget (target : Option Nat) (d : Draft) : Reshaped d (pushTarget target d).2 := by
  cases target with
  | some pos => exact of_pop (.inl rfl) rfl rfl rfl
  | none =>
    obtain ⟨targets, heq⟩ := pushTarget_eq d
    rw [heq]
    exact (pushSlot none d).trans (of_pop (.inl rfl) rfl rfl rfl)

theorem addParameter (name : String) (d : Draft) : Reshaped d (addParameter name d).2 := by
  obtain ⟨parameters, heq⟩ := addParameter_eq name d
  rw [heq]
  exact (pushSlot (some name) d).trans (of_pop (.inl rfl) rfl rfl rfl)

theorem popTarget (d : Draft) : Reshaped d (popTarget d).2 := by
  obtain ⟨targets, heq | ⟨s, -, -, heq⟩⟩ := popTarget_cases d <;> rw [heq]
  · exact of_pop (.inl rfl) rfl rfl rfl
  · exact of_pop (.inr rfl) rfl rfl rfl

theorem markEscaped (d : Draft) (pos : Nat) : Reshaped d (d.markEscaped pos) where
  outers := outers_markEscaped d pos
  functions := (enriched_markEscaped d pos).functions
  stackSize := Nat.le_of_eq (enriched_markEscaped d pos).stackSize.symm
  numbered := (enriched_markEscaped d pos).numbered

end Reshaped

end Draft

/-! ## Building functions -/

/-- One step of building nested functions. -/
inductive BuildStep : Builder → Builder → Prop
  | pushChild (b : Builder) (name : String) : BuildStep b (b.pushChild name)
  | popChild {b b' : Builder} {i : Nat} : b.popChild = .ok (i, b') → BuildStep b b'
  | resolve (b : Builder) (name : String) : BuildStep b (b.outerVariable name).2
  | pushLocal (b : Builder) (name : String) : BuildStep b (b.drafting (Draft.pushLocal name)).2
  | addParameter (b : Builder) (name : String) : BuildStep b (b.drafting (Draft.addParameter name)).2
  | allocate (b : Builder) : BuildStep b (b.drafting Draft.allocate).2
  | pushTarget (b : Builder) (target : Option Nat) :
    BuildStep b (b.drafting (Draft.pushTarget target)).2
  | popTarget (b : Builder) : BuildStep b (b.drafting Draft.popTarget).2
  | setStackSize (b : Builder) (n : Nat) : BuildStep b (b.update (·.setStackSize n))
  | markEscaped (b : Builder) (pos : Nat) : BuildStep b (b.update (·.markEscaped pos))
  /-- Code, literals, lines and loops are no concern of names. -/
  | elsewhere (b : Builder) (d : Draft) : d.slots = b.current.slots → d.outers = b.current.outers →
    d.functions = b.current.functions → d.stackSize = b.current.stackSize →
    BuildStep b { b with current := d }

abbrev BuildRun : Builder → Builder → Prop := Relation.ReflTransGen BuildStep

namespace Builder

variable {b b' : Builder}

/-- The captures lead through the enclosing functions, all of which are in order. -/
structure Lexical (b : Builder) : Prop where
  linked : Draft.Linked b.current b.enclosing
  numbered : ∀ d ∈ b.current :: b.enclosing, d.Numbered
  fits : ∀ d ∈ b.current :: b.enclosing, d.FunctionsFit

/-- From the current function outwards. -/
def chain (b : Builder) : List Draft := b.current :: b.enclosing

/-- To resolve a name adds captures and marks on the way, and does nothing else. -/
theorem resolve_forall₂ {R : Draft → Draft → Prop} (hrefl : ∀ d, R d d)
    (hcapture : ∀ d c, R d (addCapture d c).2) (hmark : ∀ d pos, R d (d.markEscaped pos))
    {name : String} {d d' : Draft} {enclosing enclosing' : List Draft} {i : Nat}
    (hres : resolve name d enclosing = some (i, d', enclosing')) :
    List.Forall₂ R (d :: enclosing) (d' :: enclosing') := by
  have hsame : ∀ ds : List Draft, List.Forall₂ R ds ds := fun ds =>
    List.forall₂_same.2 fun d _ => hrefl d
  induction enclosing generalizing d d' enclosing' i with
  | nil =>
    unfold resolve at hres
    split at hres
    · cases hres
      exact hsame _
    · cases hres
  | cons p rest ih =>
    unfold resolve at hres
    cases hi : d.captureIndex? name with
    | some j =>
      rw [hi] at hres
      cases hres
      exact hsame _
    | none =>
      simp only [hi] at hres
      cases hpos : p.localPos? name with
      | some pos =>
        rw [hpos] at hres
        cases hres
        exact .cons (hcapture d _) (.cons (hmark p pos) (hsame rest))
      | none =>
        simp only [hpos] at hres
        cases hout : resolve name p rest with
        | none =>
          rw [hout] at hres
          cases hres
        | some t =>
          obtain ⟨index, p', rest'⟩ := t
          rw [hout] at hres
          cases hres
          exact .cons (hcapture d _) (ih hout)

theorem outerVariable_forall₂ {R : Draft → Draft → Prop} (hrefl : ∀ d, R d d)
    (hcapture : ∀ d c, R d (addCapture d c).2) (hmark : ∀ d pos, R d (d.markEscaped pos))
    (b : Builder) (name : String) : List.Forall₂ R b.chain (b.outerVariable name).2.chain := by
  unfold outerVariable
  cases hres : resolve name b.current b.enclosing with
  | none => exact List.forall₂_same.2 fun d _ => hrefl d
  | some t => exact resolve_forall₂ hrefl hcapture hmark hres

theorem numbered_new (name source : String) : ({ name, source } : Draft).Numbered where
  pos := fun i s hs => by
    cases i with
    | zero =>
      cases hs
      rfl
    | succ i => simp at hs
  fits := Nat.le_refl 1

theorem functionsFit_new (name source : String) : ({ name, source } : Draft).FunctionsFit :=
  fun f hf => absurd hf (by simp)

theorem lexical_ofName (name : String) : (ofName name).Lexical where
  linked := rfl
  numbered := List.forall_mem_singleton.2 (numbered_new name "")
  fits := List.forall_mem_singleton.2 (functionsFit_new name "")

/-- What grows on the way from one list of drafts to another. -/
abbrev Captured : List Draft → List Draft → Prop :=
  List.Forall₂ fun d d' => d.outers.toList <+: d'.outers.toList

theorem Lexical.reshape (hb : b.Lexical) {d : Draft} (hd : Draft.Reshaped b.current d) :
    Lexical { b with current := d } ∧ Captured b.chain (chain { b with current := d }) := by
  obtain ⟨hnumbered, hnumbered'⟩ := List.forall_mem_cons.1 hb.numbered
  obtain ⟨hfits, hfits'⟩ := List.forall_mem_cons.1 hb.fits
  refine ⟨⟨hb.linked.of_outers hd.outers, List.forall_mem_cons.2 ⟨hd.numbered hnumbered, hnumbered'⟩,
    List.forall_mem_cons.2 ⟨?_, hfits'⟩⟩, .cons (hd.outers ▸ List.prefix_rfl)
      (List.forall₂_same.2 fun _ _ => List.prefix_rfl)⟩
  exact hfits.mono hd.stackSize (Nat.le_of_eq (congrArg Array.size hd.outers.symm)) hd.functions

theorem forall_of_enriched {P : Draft → Prop} (hP : ∀ d d', Draft.Enriched d d' → P d → P d')
    {ds ds' : List Draft} (he : List.Forall₂ Draft.Enriched ds ds') (hds : ∀ d ∈ ds, P d) :
    ∀ d ∈ ds', P d := by
  induction he with
  | nil => exact hds
  | cons h _ ih =>
    obtain ⟨hd, hds⟩ := List.forall_mem_cons.1 hds
    exact List.forall_mem_cons.2 ⟨hP _ _ h hd, ih hds⟩

theorem outerVariable_cases (hb : b.Lexical) (name : String) :
    (b.outerVariable name = (none, b) ∧ ∀ p ∈ b.enclosing, ¬ p.Declares name) ∨
      ∃ i b', b.outerVariable name = (some i, b') ∧ b'.current.captureIndex? name = some i ∧
        b'.Lexical ∧ Draft.Enriched b.current b'.current ∧
        List.Forall₂ Draft.Enriched b.enclosing b'.enclosing := by
  have hres : Draft.Resolved name b.current b.enclosing (resolve name b.current b.enclosing) :=
    Draft.resolve_resolved hb.linked fun p hp => hb.numbered p (List.mem_cons_of_mem _ hp)
  unfold outerVariable
  cases hr : resolve name b.current b.enclosing with
  | none =>
    rw [hr] at hres
    exact .inl ⟨rfl, hres⟩
  | some t =>
    obtain ⟨i, d, enclosing⟩ := t
    rw [hr] at hres
    obtain ⟨hi, hlinked, he, hall⟩ := hres
    refine .inr ⟨i, ⟨d, enclosing⟩, rfl, hi, ⟨hlinked, ?_, ?_⟩, he, hall⟩
    · exact forall_of_enriched (fun _ _ h => h.numbered) (.cons he hall) hb.numbered
    · exact forall_of_enriched (fun _ _ h => h.functionsFit) (.cons he hall) hb.fits

/-- A finished function captures what is there in the enclosing one. -/
theorem Lexical.popChild {i : Nat} (hb : b.Lexical) (hp : b.popChild = .ok (i, b')) :
    b'.Lexical ∧ ∃ d ds, b.chain = d :: ds ∧ Captured ds b'.chain := by
  obtain ⟨d, enclosing⟩ := b
  cases enclosing with
  | nil => cases hp
  | cons p rest =>
    cases hp
    obtain ⟨-, hbinds, hrest⟩ := hb.linked
    obtain ⟨-, hnp, hnumbered⟩ : _ ∧ _ ∧ _ :=
      (List.forall_mem_cons.1 hb.numbered).imp id List.forall_mem_cons.1
    obtain ⟨hfd, hfp, hfits⟩ : _ ∧ _ ∧ _ :=
      (List.forall_mem_cons.1 hb.fits).imp id List.forall_mem_cons.1
    refine ⟨⟨hrest.of_outers rfl, List.forall_mem_cons.2 ⟨⟨hnp.pos, hnp.fits⟩, hnumbered⟩,
      List.forall_mem_cons.2 ⟨fun f hf => ?_, hfits⟩⟩, d, p :: rest, rfl,
        .cons List.prefix_rfl (List.forall₂_same.2 fun _ _ => List.prefix_rfl)⟩
    rw [Array.toList_push, List.mem_append, List.mem_singleton] at hf
    rcases hf with hf | rfl
    · exact hfp f hf
    · exact ⟨hfd.build, fun c hc => (hbinds c hc).hasCapture hnp⟩

end Builder

/-- A step starts a function, finishes one, or adds captures. -/
theorem BuildStep.spec {b b' : Builder} (hb : b.Lexical) (hs : BuildStep b b') :
    b'.Lexical ∧ ((∃ d, b'.chain = d :: b.chain) ∨
      (∃ d ds, b.chain = d :: ds ∧ Builder.Captured ds b'.chain) ∨
      Builder.Captured b.chain b'.chain) := by
  cases hs with
  | pushChild name =>
    refine ⟨⟨⟨List.nodup_nil, fun c hc => absurd hc (by simp [Builder.pushChild]), hb.linked⟩,
      List.forall_mem_cons.2 ⟨Builder.numbered_new .., hb.numbered⟩,
      List.forall_mem_cons.2 ⟨Builder.functionsFit_new _ _, hb.fits⟩⟩, .inl ⟨_, rfl⟩⟩
  | popChild hp => exact (hb.popChild hp).imp id fun h => .inr (.inl h)
  | resolve name =>
    rcases Builder.outerVariable_cases hb name with ⟨heq, -⟩ | ⟨i, b', heq, -, hb', he, hall⟩
    · rw [heq]
      exact ⟨hb, .inr (.inr (List.forall₂_same.2 fun _ _ => List.prefix_rfl))⟩
    · rw [heq]
      exact ⟨hb', .inr (.inr (.cons he.captures (hall.imp fun _ _ h => h.captures)))⟩
  | pushLocal name => exact (hb.reshape (.pushSlot _ _)).imp id fun h => .inr (.inr h)
  | addParameter name => exact (hb.reshape (.addParameter _ _)).imp id fun h => .inr (.inr h)
  | allocate => exact (hb.reshape (.pushSlot _ _)).imp id fun h => .inr (.inr h)
  | pushTarget target => exact (hb.reshape (.pushTarget _ _)).imp id fun h => .inr (.inr h)
  | popTarget => exact (hb.reshape (.popTarget _)).imp id fun h => .inr (.inr h)
  | setStackSize n => exact (hb.reshape (.setStackSize _ n)).imp id fun h => .inr (.inr h)
  | markEscaped pos => exact (hb.reshape (.markEscaped _ pos)).imp id fun h => .inr (.inr h)
  | elsewhere d hslots ho hf hs =>
    exact (hb.reshape (.of_pop (.inl hslots) ho hf hs)).imp id fun h => .inr (.inr h)

theorem BuildRun.lexical {b b' : Builder} (hb : b.Lexical) (hrun : BuildRun b b') : b'.Lexical := by
  induction hrun with
  | refl => exact hb
  | tail _ hstep ih => exact (hstep.spec ih).1

namespace Builder

variable {b b' : Builder} {name : String} {n i : Nat}

/-- The function at a depth has a capture as the first of a name. -/
def CapturesAt (b : Builder) (n : Nat) (name : String) (i : Nat) : Prop :=
  ∃ d, b.chain.reverse[n]? = some d ∧ d.captureIndex? name = some i

theorem Captured.capturesAt {ds ds' : List Draft} (h : Captured ds ds') {d : Draft}
    (hd : ds.reverse[n]? = some d) (hi : d.captureIndex? name = some i) :
    ∃ d', ds'.reverse[n]? = some d' ∧ d'.captureIndex? name = some i := by
  have hrev := List.forall₂_reverse_iff.2 h
  obtain ⟨hlt, rfl⟩ := List.getElem?_eq_some_iff.1 hd
  have hlt' : n < ds'.reverse.length := hrev.length_eq ▸ hlt
  exact ⟨_, List.getElem?_eq_getElem hlt', Draft.captureIndex?_of_prefix (hrev.get hlt hlt') hi⟩

/-- A function keeps its captures until it is finished. -/
theorem CapturesAt.step (hb : b.Lexical) (hs : BuildStep b b') (hn : n ≤ b'.enclosing.length)
    (hc : b.CapturesAt n name i) : b'.CapturesAt n name i := by
  obtain ⟨d, hd, hi⟩ := hc
  rcases (hs.spec hb).2 with ⟨e, heq⟩ | ⟨e, ds, heq, hgrown⟩ | hgrown
  · refine ⟨d, ?_, hi⟩
    rw [heq, List.reverse_cons, List.getElem?_append_left (List.getElem?_eq_some_iff.1 hd).1]
    exact hd
  · have hlen : n < ds.reverse.length := by
      rw [List.length_reverse, hgrown.length_eq]
      exact Nat.lt_succ_of_le hn
    rw [heq, List.reverse_cons, List.getElem?_append_left hlen] at hd
    exact hgrown.capturesAt hd hi
  · exact hgrown.capturesAt hd hi

/-- Building that goes on inside the function at a depth. -/
abbrev RunWithin (n : Nat) : Builder → Builder → Prop :=
  Relation.ReflTransGen fun b b' => BuildStep b b' ∧ n ≤ b'.enclosing.length

theorem CapturesAt.run (hb : b.Lexical) (hrun : RunWithin n b b') (hc : b.CapturesAt n name i) :
    b'.Lexical ∧ b'.CapturesAt n name i := by
  induction hrun with
  | refl => exact ⟨hb, hc⟩
  | tail _ hstep ih =>
    obtain ⟨hb1, hc1⟩ := ih
    exact ⟨(hstep.1.spec hb1).1, hc1.step hb1 hstep.1 hstep.2⟩

theorem capturesAt_current : b.CapturesAt b.enclosing.length name i ↔
    b.current.captureIndex? name = some i := by
  have hget : b.chain.reverse[b.enclosing.length]? = some b.current := by
    rw [chain, List.reverse_cons, List.getElem?_append_right (by simp)]
    simp
  simp [CapturesAt, hget]

theorem outerVariable_of_captureIndex? (hi : b.current.captureIndex? name = some i) :
    b.outerVariable name = (some i, b) := by
  have hres : resolve name b.current b.enclosing = some (i, b.current, b.enclosing) := by
    unfold resolve
    rw [hi]
  simp only [outerVariable, hres]

/-- Captured names are resolved lexically. A name is found just when an enclosing
function declares it, and else nothing changes. The index that is answered leads
to the last register of the name in the nearest function that declares it; the
register is marked, and each function on the way has one capture for the name.
The answer stays the same until the function is finished, and in finished
functions all captures name what is there. -/
theorem resolution_lexical {start : String} (hrun : BuildRun (ofName start) b) (name : String) :
    ((b.outerVariable name).1 = none ↔ ∀ p ∈ b.enclosing, ¬ p.Declares name) ∧
    ((b.outerVariable name).1 = none → (b.outerVariable name).2 = b) ∧
    (∀ i b', b.outerVariable name = (some i, b') →
      (∃ k pos, Draft.Nearest name b.enclosing k pos ∧
        Draft.LeadsTo b'.current b'.enclosing name i k pos) ∧
      ∀ b'', RunWithin b'.enclosing.length b' b'' → b''.enclosing.length = b'.enclosing.length →
        b''.outerVariable name = (some i, b'')) ∧
    ∀ d ∈ b.chain, d.build.CapturesFit := by
  have hb := hrun.lexical (lexical_ofName start)
  rcases outerVariable_cases hb name with ⟨heq, hnone⟩ | ⟨i, b₁, heq, hi, hb₁, -, hall⟩
  · rw [heq]
    refine ⟨⟨fun _ => hnone, fun _ => rfl⟩, fun _ => rfl, fun i b' h => ?_,
      fun d hd => (hb.fits d hd).build⟩
    cases h
  · obtain ⟨c, hc, hname⟩ := Draft.captureIndex?_eq_some hi
    obtain ⟨k, pos, hlead⟩ := hb₁.linked.leadsTo
      (fun p hp => hb₁.numbered p (List.mem_cons_of_mem _ hp)) hc
    rw [hname] at hlead
    have hnear := hlead.nearest.of_enriched hall
    rw [heq]
    refine ⟨⟨fun h => (by cases h), fun h => ?_⟩, fun h => (by cases h), fun j b' h => ?_,
      fun d hd => (hb.fits d hd).build⟩
    · obtain ⟨p, hp, hd⟩ := hnear.declared
      exact absurd hd (h p hp)
    · cases h
      refine ⟨⟨k, pos, hnear, hlead⟩, fun b₂ hrun' hlen => ?_⟩
      obtain ⟨-, hc⟩ := (capturesAt_current.2 hi).run hb₁ hrun'
      rw [← hlen] at hc
      exact outerVariable_of_captureIndex? (capturesAt_current.1 hc)

/-- A function two levels inside one that has a local. -/
def innerFunction : Builder :=
  (((ofName "main").drafting (Draft.pushLocal "x")).2.pushChild "outer").pushChild "inner"

theorem innerFunction_run : BuildRun (ofName "main") innerFunction :=
  ((Relation.ReflTransGen.single (.pushLocal _ "x")).tail (.pushChild _ "outer")).tail
    (.pushChild _ "inner")

theorem resolution_lexical_innerFunction :
    (innerFunction.outerVariable "x").1 = some 0 ∧
      (∃ k pos, Draft.Nearest "x" innerFunction.enclosing k pos ∧
        Draft.LeadsTo (innerFunction.outerVariable "x").2.current
          (innerFunction.outerVariable "x").2.enclosing "x" 0 k pos) ∧
      Draft.follow (innerFunction.outerVariable "x").2.current
        (innerFunction.outerVariable "x").2.enclosing 0 = some (1, 1) ∧
      (innerFunction.outerVariable "y").1 = none := by
  have hx : innerFunction.outerVariable "x" = (some 0, (innerFunction.outerVariable "x").2) := by rfl
  obtain ⟨-, -, hleads, -⟩ := resolution_lexical innerFunction_run "x"
  obtain ⟨hlead, -⟩ := hleads 0 _ hx
  exact ⟨by rw [hx], hlead, by rfl, by rfl⟩

end Builder

end ScriptMachine
