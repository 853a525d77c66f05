import Mathlib.Data.List.Find
import ScriptMachine.Proofs.Builder.Labels
import ScriptMachine.Proofs.Builder.Resolution

/-!
# Names of registers in diagnostics

A finished function records each named local with a range of instructions. At an
instruction a register has the name that it had when the instruction was appended,
however instructions have been combined and registers reused. Only the first
instruction is apart: it also counts for the locals that had left their registers
before there was any.
-/

set_option autoImplicit false

namespace ScriptMachine

/-- A register but for its mark. -/
def Slot.unmarked (s : Slot) : Slot := { s with escaped := false }

/-- The entry holds for the register at the instruction. -/
def LocalInfo.Covers (l : LocalInfo) (pos ip : Nat) : Prop :=
  l.pos = pos ∧ l.startOp ≤ ip ∧ ip ≤ l.endOp

namespace Draft

variable {d d' : Draft} {name : String} {i pos ip : Nat}

/-! ## What operations do to registers -/

/-- The registers are the same up to marks, and so are the entries of those that
were left. -/
structure SameRegisters (d d' : Draft) : Prop where
  slots : ∀ i : Nat, (d'.slots[i]?).map Slot.unmarked = (d.slots[i]?).map Slot.unmarked
  retired : d'.retired = d.retired

namespace SameRegisters

theorem of_eq (hslots : d'.slots = d.slots) (hretired : d'.retired = d.retired) :
    SameRegisters d d' := ⟨fun i => by rw [hslots], hretired⟩

theorem of_confined {p : Part} (h : Confined p d d') (hp : p ≠ .registers) :
    SameRegisters d d' :=
  .of_eq (h.registers hp).1 (h.registers hp).2.1

theorem markEscaped (d : Draft) (p : Nat) : SameRegisters d (d.markEscaped p) := by
  rcases markEscaped_cases d p with heq | ⟨s, hs, -, heq⟩ <;> rw [heq]
  · exact of_eq rfl rfl
  · have hlt := (Array.getElem?_eq_some_iff.1 hs).1
    refine ⟨fun i => ?_, rfl⟩
    by_cases hi : p = i
    · subst hi
      rw [Array.getElem?_setIfInBounds_self_of_lt hlt, hs]
      rfl
    · rw [Array.getElem?_setIfInBounds_ne hi]

/-- The register at a place, but for its mark. -/
theorem slot (h : SameRegisters d d') {s : Slot} (hs : d'.slots[i]? = some s) :
    ∃ t, d.slots[i]? = some t ∧ t.name = s.name ∧ t.pos = s.pos ∧ t.startOp = s.startOp := by
  have hi := h.slots i
  rw [hs, Option.map_some, eq_comm, Option.map_eq_some_iff] at hi
  obtain ⟨t, ht, heq⟩ := hi
  simp only [Slot.unmarked, Slot.mk.injEq] at heq
  exact ⟨t, ht, heq.1, heq.2.1, heq.2.2.1⟩

theorem symm (h : SameRegisters d d') : SameRegisters d' d :=
  ⟨fun i => (h.slots i).symm, h.retired.symm⟩

end SameRegisters

theorem getElem?_of_pop {slots : Array Slot} {s : Slot} (h : slots.pop[i]? = some s) :
    slots[i]? = some s := by
  rw [Array.getElem?_pop] at h
  split at h
  · exact h
  · cases h

theorem getElem?_pop_ne {slots : Array Slot} (hi : i ≠ slots.size - 1) :
    slots.pop[i]? = slots[i]? := by
  rw [Array.getElem?_pop]
  split
  · rfl
  · rw [Array.getElem?_eq_none (by omega)]

/-- What one operation does to the registers: it leaves them alone, takes the next
one, or leaves some from the top. Only the first kind appends instructions. -/
inductive RegisterStep (d d' : Draft) : Prop
  | kept (same : SameRegisters d d')
  | taken (name : Option String)
    (slots : d'.slots = d.slots.push { name, pos := d.slots.size, startOp := d.code.size })
    (retired : d'.retired = d.retired) (code : d'.code = d.code)
  | left (n : Nat) (slots : d'.slots = (d.retireMany n).slots)
    (retired : d'.retired = (d.retireMany n).retired) (code : d'.code = d.code)

namespace RegisterStep

theorem pushSlot (d : Draft) (name : Option String) : RegisterStep d (d.pushSlot name).2 := by
  rcases pushSlot_cases name d with heq | heq <;> rw [heq]
  · exact .kept (.of_eq rfl rfl)
  · exact .taken name rfl rfl rfl

theorem congr {e : Draft} (h : RegisterStep d e) (hslots : d'.slots = e.slots)
    (hretired : d'.retired = e.retired) (hcode : d'.code = e.code) : RegisterStep d d' := by
  cases h with
  | kept same => exact .kept ⟨fun i => by rw [hslots, same.slots], hretired.trans same.retired⟩
  | taken name slots retired code =>
    exact .taken name (hslots.trans slots) (hretired.trans retired) (hcode.trans code)
  | left n slots retired code =>
    exact .left n (hslots.trans slots) (hretired.trans retired) (hcode.trans code)

theorem addParameter (d : Draft) (name : String) : RegisterStep d (d.addParameter name).2 := by
  obtain ⟨parameters, heq⟩ := addParameter_eq name d
  rw [heq]
  exact (pushSlot d (some name)).congr rfl rfl rfl

theorem pushTarget (d : Draft) (target : Option Nat) : RegisterStep d (d.pushTarget target).2 := by
  cases target with
  | some p => exact .kept (.of_eq rfl rfl)
  | none =>
    obtain ⟨targets, heq⟩ := pushTarget_eq d
    rw [heq]
    exact (pushSlot d none).congr rfl rfl rfl

/-- A temporary that is released leaves no entry. -/
theorem popTarget (d : Draft) : RegisterStep d d.popTarget.2 := by
  obtain ⟨targets, heq | ⟨s, hback, hname, heq⟩⟩ := popTarget_cases d <;> rw [heq]
  · exact .kept (.of_eq rfl rfl)
  · have htopmost : d.retireMany 1 = { d with slots := d.slots.pop } :=
      retireTop_temporary hback hname
    exact .left 1 (by rw [htopmost]) (by rw [htopmost]) rfl

end RegisterStep

theorem registerStep (nested : Bool) (d : Draft) (o : Op) : RegisterStep d (d.step nested o) := by
  by_cases hp : o.part = .registers
  · cases o with
    | allocate => exact .pushSlot d none
    | pushLocal name => exact .pushSlot d (some name)
    | addParameter name => exact .addParameter d name
    | pushTarget target => exact .pushTarget d target
    | popTarget => exact .popTarget d
    | setStackSize n =>
      have hstream := (Confined.retireMany (d.slots.size - n) d).stream (by decide)
      exact .left (d.slots.size - n) rfl rfl hstream.code
    | markEscaped pos => exact .kept (.markEscaped d pos)
    | _ => cases hp
  · exact .kept (.of_confined (confined_step nested d o) hp)

/-- An operation appends one instruction at most. -/
theorem size_step_le (nested : Bool) (d : Draft) (o : Op) :
    (d.step nested o).code.size ≤ d.code.size + 1 := by
  cases ho : o.emission d with
  | none => exact Nat.le_succ_of_le (Nat.le_of_eq (quiet_step ho nested).1.size)
  | some j =>
    rcases emission_step ho nested with rfl | ⟨-, hcode, -⟩
    · show (d.emit nested j).code.size ≤ d.code.size + 1
      rcases size_emit (d := d) nested j with h | h <;> omega
    · exact Nat.le_of_eq (by rw [hcode, Array.size_push])

/-! ## Records that are true -/

/-- The names that registers had when instructions were appended, by register and
instruction. -/
abbrev Names : Type := Nat → Nat → Option String

/-- The names go on with the registers of a draft. -/
def Names.extended (h : Names) (d : Draft) : Names := fun pos ip =>
  if ip < d.code.size then h pos ip else d.nameAt pos

/-- The records of a draft tell the names, but for the locals that were left before
there was an instruction: those come first. -/
structure Chronicle (h : Names) (early late : List LocalInfo) (d : Draft) : Prop where
  entries : d.retired.toList = early ++ late
  atStart : ∀ l ∈ early, l.startOp = 0 ∧ l.endOp = 0
  unborn : d.code.size = 0 → late = []
  hold : ∀ l ∈ late, l.endOp < d.code.size ∧
    ∀ ip, l.startOp ≤ ip → ip ≤ l.endOp → h l.pos ip = some l.name
  numbered : ∀ (i : Nat) (s : Slot), d.slots[i]? = some s → s.pos = i ∧ s.startOp ≤ d.code.size
  inUse : ∀ (i : Nat) (s : Slot) (name : String), d.slots[i]? = some s → s.name = some name →
    ∀ ip, s.startOp ≤ ip → ip < d.code.size → h i ip = some name
  complete : ∀ pos ip name, ip < d.code.size → h pos ip = some name →
    (∃ l ∈ late, l.Covers pos ip) ∨
      ∃ s, d.slots[pos]? = some s ∧ s.name.isSome ∧ s.startOp ≤ ip

namespace Chronicle

variable {h : Names} {early late : List LocalInfo}

theorem new (name source : String) :
    Chronicle (fun _ _ => none) [] [] ({ name, source } : Draft) where
  entries := rfl
  atStart := fun l hl => absurd hl List.not_mem_nil
  unborn := fun _ => rfl
  hold := fun l hl => absurd hl List.not_mem_nil
  numbered := fun i s hs => by
    obtain ⟨hi, rfl⟩ := Array.getElem?_eq_some_iff.1 hs
    obtain rfl : i = 0 := Nat.lt_one_iff.1 hi
    exact ⟨rfl, Nat.le_refl 0⟩
  inUse := fun i s name _ _ ip _ hip => absurd hip (Nat.not_lt_zero ip)
  complete := fun pos ip name hip => absurd hip (Nat.not_lt_zero ip)

/-- Instructions may be appended while the registers stay. -/
theorem kept (hc : Chronicle h early late d) (hs : SameRegisters d d')
    (hsize : d.code.size ≤ d'.code.size) : Chronicle (h.extended d) early late d' where
  entries := by rw [hs.retired, hc.entries]
  atStart := hc.atStart
  unborn := fun h0 => hc.unborn (Nat.le_zero.1 (h0 ▸ hsize))
  hold := fun l hl => by
    obtain ⟨hend, hnames⟩ := hc.hold l hl
    refine ⟨Nat.lt_of_lt_of_le hend hsize, fun ip hstart hip => ?_⟩
    rw [Names.extended, if_pos (Nat.lt_of_le_of_lt hip hend)]
    exact hnames ip hstart hip
  numbered := fun i s hi => by
    obtain ⟨t, ht, -, hpos, hstart⟩ := hs.slot hi
    rw [← hpos, ← hstart]
    exact (hc.numbered i t ht).imp id fun hle => Nat.le_trans hle hsize
  inUse := fun i s name hi hname ip hstart hip => by
    obtain ⟨t, ht, htname, -, htstart⟩ := hs.slot hi
    rw [Names.extended]
    split
    · rename_i hold
      exact hc.inUse i t name ht (htname.trans hname) ip (htstart ▸ hstart) hold
    · exact nameAt_eq_some.2 ⟨t, ht, htname.trans hname⟩
  complete := fun pos ip name hip hname => by
    rw [Names.extended] at hname
    have hback : ∀ s, d.slots[pos]? = some s → s.name.isSome → s.startOp ≤ ip →
        ∃ s, d'.slots[pos]? = some s ∧ s.name.isSome ∧ s.startOp ≤ ip := by
      intro s hslot hsome hstart
      obtain ⟨t, ht, htname, -, htstart⟩ := hs.symm.slot hslot
      exact ⟨t, ht, htname ▸ hsome, htstart ▸ hstart⟩
    split at hname
    · rename_i hold
      rcases hc.complete pos ip name hold hname with hl | ⟨s, hslot, hsome, hstart⟩
      · exact .inl hl
      · exact .inr (hback s hslot hsome hstart)
    · rename_i hnew
      obtain ⟨s, hslot, hsname⟩ := nameAt_eq_some.1 hname
      have hstart := (hc.numbered pos s hslot).2
      exact .inr (hback s hslot (by rw [hsname]; rfl) (by omega))

/-- A register that is taken has held nothing at the instructions so far. -/
theorem taken (hc : Chronicle h early late d) {name : Option String}
    (hslots : d'.slots = d.slots.push { name, pos := d.slots.size, startOp := d.code.size })
    (hretired : d'.retired = d.retired) (hcode : d'.code = d.code) :
    Chronicle h early late d' := by
  have hslot : ∀ (i : Nat) (s : Slot), d'.slots[i]? = some s → d.slots[i]? = some s ∨
      i = d.slots.size ∧ s = { name, pos := d.slots.size, startOp := d.code.size } := by
    intro i s hs
    rw [hslots, Array.getElem?_push] at hs
    split at hs
    · rename_i hi
      exact .inr ⟨hi, (Option.some.inj hs).symm⟩
    · exact .inl hs
  refine ⟨hretired ▸ hc.entries, hc.atStart, hcode ▸ hc.unborn, hcode ▸ hc.hold,
    fun i s hs => ?_, fun i s n hs hname ip hstart hip => ?_, fun pos ip n hip hname => ?_⟩
  · rw [hcode]
    rcases hslot i s hs with hold | ⟨rfl, rfl⟩
    · exact hc.numbered i s hold
    · exact ⟨rfl, Nat.le_refl _⟩
  · rw [hcode] at hip
    rcases hslot i s hs with hold | ⟨rfl, rfl⟩
    · exact hc.inUse i s n hold hname ip hstart hip
    · exact absurd hip (Nat.not_lt.2 hstart)
  · rw [hcode] at hip
    rcases hc.complete pos ip n hip hname with hl | ⟨s, hs, hrest⟩
    · exact .inl hl
    · have hlt := (Array.getElem?_eq_some_iff.1 hs).1
      refine .inr ⟨s, ?_, hrest⟩
      rw [hslots, Array.getElem?_push, if_neg (by omega)]
      exact hs

theorem released (hc : Chronicle h early late d) {s : Slot} (hback : d.slots.back? = some s)
    (hname : s.name = none) : Chronicle h early late { d with slots := d.slots.pop } where
  entries := hc.entries
  atStart := hc.atStart
  unborn := hc.unborn
  hold := hc.hold
  numbered := fun i t ht => hc.numbered i t (getElem?_of_pop ht)
  inUse := fun i t n ht => hc.inUse i t n (getElem?_of_pop ht)
  complete := fun pos ip n hip hn => by
    rcases hc.complete pos ip n hip hn with hl | ⟨t, ht, hsome, hle⟩
    · exact .inl hl
    · by_cases htop : pos = d.slots.size - 1
      · -- the register at the top has no name
        rw [htop, ← Array.back?_eq_getElem?, hback, Option.some.injEq] at ht
        rw [← ht, hname] at hsome
        cases hsome
      · exact .inr ⟨t, (getElem?_pop_ne htop).trans ht, hsome, hle⟩

/-- Before there is an instruction, the entry of a register that is left claims the
first one. -/
theorem retiredUnborn (hc : Chronicle h early late d) {s : Slot} {name : String}
    (hback : d.slots.back? = some s) (hname : s.name = some name) (hsize : d.code.size = 0) :
    Chronicle h (early ++ [⟨name, s.pos, s.startOp, 0⟩]) [] d.retireTop := by
  have hstart := (hc.numbered _ s (by rwa [← Array.back?_eq_getElem?])).2
  have hlast : d.lastPos.getD 0 = 0 := by
    rw [lastPos, if_pos hsize]
    rfl
  rw [retireTop_named hback hname, hlast]
  refine ⟨?_, fun l hl => ?_, fun _ => rfl, fun l hl => absurd hl List.not_mem_nil,
    fun i t ht => hc.numbered i t (getElem?_of_pop ht),
    fun i t n ht => hc.inUse i t n (getElem?_of_pop ht), fun pos ip n hip => ?_⟩
  · rw [Array.toList_push, hc.entries, hc.unborn hsize, List.append_nil, List.append_nil]
  · rcases List.mem_append.1 hl with hl | hl
    · exact hc.atStart l hl
    · rw [List.mem_singleton.1 hl]
      exact ⟨Nat.le_zero.1 (hsize ▸ hstart), rfl⟩
  · exact absurd (hsize ▸ hip) (Nat.not_lt_zero ip)

/-- Later, a register that is left has had its name up to the last instruction. -/
theorem retiredNamed (hc : Chronicle h early late d) {s : Slot} {name : String}
    (hback : d.slots.back? = some s) (hname : s.name = some name) (hsize : d.code.size ≠ 0) :
    Chronicle h early (late ++ [⟨name, s.pos, s.startOp, d.code.size - 1⟩]) d.retireTop := by
  have htop : d.slots[d.slots.size - 1]? = some s := by rwa [← Array.back?_eq_getElem?]
  have hpos := (hc.numbered _ s htop).1
  have hlast : d.lastPos.getD 0 = d.code.size - 1 := by
    rw [lastPos, if_neg hsize]
    rfl
  rw [retireTop_named hback hname, hlast]
  refine ⟨?_, hc.atStart, fun h0 => absurd h0 hsize, fun l hl => ?_,
    fun i t ht => hc.numbered i t (getElem?_of_pop ht),
    fun i t n ht => hc.inUse i t n (getElem?_of_pop ht), fun pos ip n hip hn => ?_⟩
  · rw [Array.toList_push, hc.entries, List.append_assoc]
  · rcases List.mem_append.1 hl with hl | hl
    · exact hc.hold l hl
    · rw [List.mem_singleton.1 hl]
      refine ⟨Nat.sub_one_lt hsize, fun ip hle hip => ?_⟩
      show h s.pos ip = some name
      rw [hpos]
      exact hc.inUse _ s name htop hname ip hle (Nat.lt_of_le_of_lt hip (Nat.sub_one_lt hsize))
  · rcases hc.complete pos ip n hip hn with ⟨l, hl, hcovers⟩ | ⟨t, ht, hsome, hle⟩
    · exact .inl ⟨l, List.mem_append_left _ hl, hcovers⟩
    · by_cases hp : pos = d.slots.size - 1
      · subst hp
        rw [htop, Option.some.injEq] at ht
        subst ht
        exact .inl ⟨_, List.mem_append_right _ (List.mem_singleton.2 rfl), hpos, hle,
          Nat.le_sub_one_of_lt hip⟩
      · exact .inr ⟨t, (getElem?_pop_ne hp).trans ht, hsome, hle⟩

theorem retireTop (hc : Chronicle h early late d) :
    ∃ early' late', Chronicle h early' late' d.retireTop ∧ (0 < d.code.size → early' = early) := by
  cases hback : d.slots.back? with
  | none =>
    rw [Draft.retireTop, hback]
    exact ⟨early, late, hc, fun _ => rfl⟩
  | some s =>
    cases hname : s.name with
    | none =>
      rw [retireTop_temporary hback hname]
      exact ⟨early, late, hc.released hback hname, fun _ => rfl⟩
    | some name =>
      by_cases hsize : d.code.size = 0
      · exact ⟨_, _, hc.retiredUnborn hback hname hsize, fun hlt => absurd hsize (Nat.ne_zero_of_lt hlt)⟩
      · exact ⟨_, _, hc.retiredNamed hback hname hsize, fun _ => rfl⟩

theorem retireMany (n : Nat) (hc : Chronicle h early late d) :
    ∃ early' late', Chronicle h early' late' (d.retireMany n) ∧
      (0 < d.code.size → early' = early) := by
  induction n generalizing d early late with
  | zero => exact ⟨early, late, hc, fun _ => rfl⟩
  | succ n ih =>
    obtain ⟨early₁, late₁, hc₁, hsame₁⟩ := hc.retireTop
    obtain ⟨early₂, late₂, hc₂, hsame₂⟩ := ih hc₁
    refine ⟨early₂, late₂, hc₂, fun hlt => (hsame₂ ?_).trans (hsame₁ hlt)⟩
    rwa [((Confined.retireTop d).stream (by decide)).code]

/-- Only the names at the instructions so far matter. -/
theorem congr (hc : Chronicle h early late d) {h' : Names}
    (heq : ∀ pos ip, ip < d.code.size → h' pos ip = h pos ip) : Chronicle h' early late d :=
  { hc with
    hold := fun l hl => (hc.hold l hl).imp id fun hnames ip hstart hip => by
      rw [heq _ _ (Nat.lt_of_le_of_lt hip (hc.hold l hl).1)]
      exact hnames ip hstart hip
    inUse := fun i s name hs hname ip hstart hip => by
      rw [heq _ _ hip]
      exact hc.inUse i s name hs hname ip hstart hip
    complete := fun pos ip name hip hname => hc.complete pos ip name hip (heq _ _ hip ▸ hname) }

theorem of_same {e : Draft} (hc : Chronicle h early late e) (hslots : d.slots = e.slots)
    (hretired : d.retired = e.retired) (hcode : d.code = e.code) : Chronicle h early late d := by
  refine ⟨by rw [hretired]; exact hc.entries, hc.atStart, by rw [hcode]; exact hc.unborn,
    by rw [hcode]; exact hc.hold, ?_, ?_, ?_⟩ <;> rw [hslots, hcode]
  · exact hc.numbered
  · exact hc.inUse
  · exact hc.complete

/-- One operation. What was left before the first instruction is settled as soon as
that is appended. -/
theorem step (hc : Chronicle h early late d) (nested : Bool) (o : Op) :
    ∃ early' late', Chronicle (h.extended d) early' late' (d.step nested o) ∧
      (0 < (d.step nested o).code.size → early' = early) := by
  have hextended : ∀ pos ip, ip < d.code.size → h.extended d pos ip = h pos ip :=
    fun pos ip hip => if_pos hip
  cases registerStep nested d o with
  | kept same =>
    exact ⟨early, late, hc.kept same (size_step nested d o), fun _ => rfl⟩
  | taken name slots retired code =>
    refine ⟨early, late, (hc.taken slots retired code).congr fun pos ip hip => ?_, fun _ => rfl⟩
    exact hextended pos ip (by rwa [code] at hip)
  | left n slots retired code =>
    obtain ⟨early', late', hc', hsame⟩ := hc.retireMany n
    have hstream := ((Confined.retireMany n d).stream (by decide)).code
    refine ⟨early', late', (hc'.of_same slots retired (code.trans hstream.symm)).congr
      fun pos ip hip => ?_, fun hlt => hsame (by rwa [code] at hlt)⟩
    exact hextended pos ip (by rwa [code] at hip)

/-- The name that is found for a register at an instruction. -/
theorem localName? (hc : Chronicle h early late d) (hip : ip < d.code.size) :
    d.build.localName? pos ip =
      (if ip = 0 then (early.find? fun l => l.pos == pos).map (·.name) else none).or (h pos ip) := by
  have hlast : d.lastPos.getD 0 = d.code.size - 1 := by
    rw [lastPos, if_neg (by omega)]
    rfl
  have hlocals : d.build.locals =
      early ++ (late ++ d.slots.toList.filterMap d.openLocal?) := by
    show d.retired.toList ++ _ = _
    rw [hc.entries, List.append_assoc]
  rw [Prototype.localName?, hlocals, List.find?_append, Option.map_or]
  congr 1
  · -- an entry from before the first instruction covers that one alone
    split
    · rename_i h0
      subst h0
      congr 1
      refine List.find?_congr fun l hl => ?_
      obtain ⟨hs, he⟩ := hc.atStart l hl
      simp [hs, he]
    · rename_i h0
      rw [Option.map_eq_none_iff, List.find?_eq_none]
      intro l hl
      obtain ⟨-, he⟩ := hc.atStart l hl
      simp only [he, Bool.and_eq_true, decide_eq_true_eq]
      omega
  · cases hfind : (late ++ d.slots.toList.filterMap d.openLocal?).find? fun l =>
      l.pos == pos && decide (l.startOp ≤ ip) && decide (ip ≤ l.endOp) with
    | some l =>
      have hcovers := List.find?_some hfind
      simp only [Bool.and_eq_true, beq_iff_eq, decide_eq_true_eq] at hcovers
      obtain ⟨⟨rfl, hstart⟩, hend⟩ := hcovers
      rcases List.mem_append.1 (List.mem_of_find?_eq_some hfind) with hl | hl
      · exact ((hc.hold l hl).2 ip hstart hend).symm
      · obtain ⟨s, hs, hopen⟩ := List.mem_filterMap.1 hl
        obtain ⟨name, hname, rfl⟩ := Option.map_eq_some_iff.1 hopen
        obtain ⟨i, hi⟩ := List.mem_iff_getElem?.1 hs
        rw [Array.getElem?_toList] at hi
        rw [← (hc.numbered i s hi).1] at hi
        exact (hc.inUse s.pos s name hi hname ip hstart hip).symm
    | none =>
      cases hname : h pos ip with
      | none => rfl
      | some name =>
        rw [List.find?_eq_none] at hfind
        rcases hc.complete pos ip name hip hname with ⟨l, hl, hpos, hstart, hend⟩ |
          ⟨s, hs, hsome, hstart⟩
        · exact absurd (hfind l (List.mem_append_left _ hl)) (by simp [hpos, hstart, hend])
        · obtain ⟨n, hn⟩ := Option.isSome_iff_exists.1 hsome
          have hmem : (⟨n, s.pos, s.startOp, d.lastPos.getD 0⟩ : LocalInfo) ∈
              d.slots.toList.filterMap d.openLocal? := by
            refine List.mem_filterMap.2 ⟨s, ?_, by rw [openLocal?, hn]; rfl⟩
            exact Array.mem_def.1 (Array.mem_of_getElem? hs)
          have hle : ip ≤ d.code.size - 1 := by omega
          exact absurd (hfind _ (List.mem_append_right _ hmem))
            (by simp [(hc.numbered pos s hs).1, hstart, hlast, hle])

end Chronicle

/-! ## Whole functions -/

/-- The name of the first local that left a register, where no instruction has been
appended yet. -/
def leftEarly (d : Draft) (pos : Nat) : Option String :=
  if d.code.size = 0 then (d.retired.toList.find? fun l => l.pos == pos).map (·.name) else none

/-- An operation of the sequence appends the instruction of an index. -/
def Appends (nested : Bool) (d : Draft) (before : List Op) (o : Op) (ip : Nat) : Prop :=
  (d.run nested before).code.size = ip ∧ (d.run nested (before ++ [o])).code.size = ip + 1

/-- The records after a whole sequence, with the names as they were when each
instruction was appended. -/
theorem chronicle_run (nested : Bool) (name source : String) (ops : List Op) :
    ∃ h early late, Chronicle h early late (({ name, source } : Draft).run nested ops) ∧
      ∀ ip < (({ name, source } : Draft).run nested ops).code.size,
        ∃ before o after, ops = before ++ o :: after ∧
          Appends nested { name, source } before o ip ∧
          (∀ pos, h pos ip = (({ name, source } : Draft).run nested before).nameAt pos) ∧
          (ip = 0 → early = (({ name, source } : Draft).run nested before).retired.toList) := by
  induction ops using List.reverseRecOn with
  | nil => exact ⟨_, _, _, .new name source, fun ip hip => absurd hip (Nat.not_lt_zero ip)⟩
  | append_singleton ops o ih =>
    obtain ⟨h, early, late, hc, happends⟩ := ih
    rw [run_append, run_cons, run_nil]
    generalize hr : ({ name, source } : Draft).run nested ops = r at hc happends
    obtain ⟨early', late', hc', hsame⟩ := hc.step nested o
    refine ⟨_, early', late', hc', fun ip hip => ?_⟩
    rw [hsame (Nat.zero_lt_of_lt hip)]
    by_cases hold : ip < r.code.size
    · obtain ⟨before, o', after, rfl, happ, hnames, hearly⟩ := happends ip hold
      refine ⟨before, o', after ++ [o], by simp, happ, fun pos => ?_, hearly⟩
      rw [Names.extended, if_pos hold]
      exact hnames pos
    · have hsize := size_step_le nested r o
      obtain rfl : ip = r.code.size := by omega
      refine ⟨ops, o, [], rfl, ⟨by rw [hr], ?_⟩, fun pos => ?_, fun h0 => ?_⟩
      · rw [run_append, run_cons, run_nil, hr]
        omega
      · rw [Names.extended, if_neg hold, hr]
      · rw [hr, hc.entries, hc.unborn h0, List.append_nil]

/-- However a function is built: at each of its instructions, a register is named
after the local that it held when the instruction was appended, and has no name when
that was a temporary or nothing. At the first instruction, a local that had left the
register by then goes before. -/
theorem local_names_recorded (nested : Bool) (name source : String) (ops : List Op) {d : Draft}
    (hd : d = ({ name, source } : Draft).run nested ops) {ip : Nat} (hip : ip < d.code.size) :
    ∃ before o after, ops = before ++ o :: after ∧ Appends nested { name, source } before o ip ∧
      ∀ pos, d.build.localName? pos ip =
        ((({ name, source } : Draft).run nested before).leftEarly pos).or
          ((({ name, source } : Draft).run nested before).nameAt pos) := by
  obtain ⟨h, early, late, hc, happends⟩ := chronicle_run nested name source ops
  rw [← hd] at hc happends
  obtain ⟨before, o, after, hops, happ, hnames, hearly⟩ := happends ip hip
  refine ⟨before, o, after, hops, happ, fun pos => ?_⟩
  rw [hc.localName? hip, hnames pos, leftEarly, happ.1]
  by_cases h0 : ip = 0
  · rw [if_pos h0, if_pos h0, hearly h0]
  · rw [if_neg h0, if_neg h0]

def loadSeven : Op := .emit { opcode := .loadInteger, arg0 := 1, arg1 := 7 }

/-- A register that holds a local, then a temporary and then another local. -/
def reusedRegister : List Op :=
  [.pushLocal "a", loadSeven, .setStackSize 1, .pushTarget none, loadSeven, .popTarget,
    .pushLocal "b", loadSeven]

theorem local_names_recorded_reusedRegister :
    let d := ({ name := "f", source := "" } : Draft).run false reusedRegister
    1 < d.code.size ∧
      (∃ before o after, reusedRegister = before ++ o :: after ∧
        Appends false { name := "f", source := "" } before o 1 ∧
          ∀ pos, d.build.localName? pos 1 =
            ((({ name := "f", source := "" } : Draft).run false before).leftEarly pos).or
              ((({ name := "f", source := "" } : Draft).run false before).nameAt pos)) ∧
      d.build.localName? 1 0 = some "a" ∧ d.build.localName? 1 1 = none ∧
      d.build.localName? 1 2 = some "b" :=
  ⟨by decide, local_names_recorded false "f" "" reusedRegister rfl (by decide), by decide,
    by decide, by decide⟩

/-- A local that was left before the first instruction, and another in its register. -/
def leftAtStart : List Op := [.pushLocal "a", .setStackSize 1, .pushLocal "b"]

/-- The first instruction is appended while the register holds the second local, and
the register has the name of the first there. -/
theorem first_instruction_names_left_local :
    Appends false { name := "f", source := "" } leftAtStart loadSeven 0 ∧
      (({ name := "f", source := "" } : Draft).run false leftAtStart).nameAt 1 = some "b" ∧
      (({ name := "f", source := "" } : Draft).run false (leftAtStart ++ [loadSeven])).build.localName?
        1 0 = some "a" :=
  ⟨⟨by decide, by decide⟩, by decide, by decide⟩

end Draft

end ScriptMachine
