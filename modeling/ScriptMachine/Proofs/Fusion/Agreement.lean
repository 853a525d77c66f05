import ScriptMachine.Proofs.Fusion.Scenes

/-!
# Stale registers

Two runs of straight-line code agree up to stale registers, whose contents nobody
reads. An instruction that reads no stale register keeps the agreement, and what it
writes is stale no longer.
-/

set_option autoImplicit false

namespace ScriptMachine

/-! ## What an instruction reads and writes -/

namespace Instruction

def optional (r : Int64) : List Int64 := if isPresent r then [r] else []

/-- The registers that a closure of a function takes its captured variables from. -/
def capturedRegisters (p : Prototype) : List Int64 :=
  p.outers.filterMap fun (c : Capture) =>
    match c.kind with
    | .register => some (Int64.ofNat c.index)
    | .outer => none

def reads (nested : Int64 → Prototype) (i : Instruction) : List Int64 :=
  match i.opcode with
  | .load | .loadInteger | .loadFloat | .loadBool | .doubleLoad | .loadNulls | .loadRoot
  | .getOuter | .jump | .close | .base => []
  | .move | .neg | .not | .bitNot | .typeOf | .deepCopy => [i.arg1]
  | .doubleMove => i.arg1 :: if i.arg3 = i.arg0 then [] else [i.arg3]
  | .setOuter | .getLiteral | .eqLiteral | .neqLiteral | .shortAnd | .shortOr
  | .prepareCallLiteral => [i.arg2]
  | .get | .remove | .add | .sub | .mul | .div | .mod | .exp | .bitwise | .eq | .neq | .compare
  | .prepareCall | .instanceOf | .has => [i.arg1, i.arg2]
  | .assign | .newSlot => [i.arg1, i.arg2, i.arg3]
  | .newMember =>
    [i.arg1, i.arg2, i.arg3] ++ if i.arg0 &&& 2 != 0 then [i.arg2 - 1] else []
  | .jumpUnless => [i.arg2, i.arg3]
  | .jumpIfFalsy => [i.arg0]
  | .call | .tailCall => i.arg1 :: registerRun i.arg2 i.arg3
  | .ret => optional i.arg0
  | .closure => capturedRegisters (nested i.arg1) ++ (nested i.arg1).defaults
  | .newObject =>
    if ObjectKind.ofCode? i.arg3 = some .classObject then optional i.arg1 ++ optional i.arg2 else []
  | .append =>
    i.arg0 :: if AppendSource.ofCode? i.arg2 = some .register then [i.arg1] else []
  | .foreach => [i.arg0, i.arg2 + 2]

/-- What is written whenever the code goes on with the next instruction. -/
def writes (i : Instruction) : List Int64 :=
  match i.opcode with
  | .jumpUnless | .jump | .jumpIfFalsy | .shortAnd | .shortOr | .ret | .close | .append
  | .newMember => []
  | .doubleLoad | .doubleMove => [i.arg0, i.arg2]
  | .loadNulls => registerRun i.arg0 i.arg1
  | .setOuter | .assign | .newSlot | .remove | .call | .tailCall => optional i.arg0
  | .prepareCall | .prepareCallLiteral => [i.arg0, i.arg3]
  | .foreach => [i.arg2, i.arg2 + 1, i.arg2 + 2]
  | _ => [i.arg0]

/-- The registers that become captured. -/
def captures (nested : Int64 → Prototype) (i : Instruction) : List Int64 :=
  if i.opcode = .closure then capturedRegisters (nested i.arg1) else []

end Instruction

/-! ## Agreement -/

/-- Scenes that differ in some registers only. -/
structure SameBut {H : Type} (D : List Int64) (σ τ : Scene H) : Prop where
  world : σ.world = τ.world
  cellOf : σ.cellOf = τ.cellOf
  exit : σ.exit = τ.exit
  registers : ∀ r, r ∉ D → σ.registers r = τ.registers r

/-- Scenes in the middle of straight-line code that differ in the stale registers
`D` only. Stale registers are among `R` and are not `shared`, which all captured
registers are. -/
structure Alike {H : Type} (shared : Int64 → Prop) (R D : List Int64) (σ τ : Scene H) : Prop
    extends SameBut D σ τ where
  running : σ.exit = none
  confined : ∀ r c, σ.cellOf r = some c → shared r
  stale : ∀ r ∈ D, r ∈ R ∧ ¬ shared r

/-- The code goes on, or it has jumped or returned. -/
def Goes {H : Type} (shared : Int64 → Prop) (R D : List Int64) (σ τ : Scene H) : Prop :=
  Alike shared R D σ τ ∨ σ.exit.isSome ∧ SameBut R σ τ

/-- Both give the same value or raise the same error. -/
inductive Outcome {H α : Type} (P : Scene H → Scene H → Prop) (R : List Int64) :
    EStateM.Result ScriptError (Scene H) α → EStateM.Result ScriptError (Scene H) α → Prop
  | ok {a : α} {σ τ : Scene H} : P σ τ → Outcome P R (.ok a σ) (.ok a τ)
  | error {e : ScriptError} {σ τ : Scene H} : SameBut R σ τ → Outcome P R (.error e σ) (.error e τ)

/-- Two actions with the same outcome where only `D` is stale. -/
def Takes {H α : Type} (shared : Int64 → Prop) (R D : List Int64) (P : Scene H → Scene H → Prop)
    (x y : Play H α) : Prop :=
  ∀ σ τ, Alike shared R D σ τ → Outcome P R (x σ) (y τ)

def without (D rs : List Int64) : List Int64 := D.filter (· ∉ rs)

@[simp] theorem mem_without_iff {D rs : List Int64} {r : Int64} :
    r ∈ without D rs ↔ r ∈ D ∧ r ∉ rs := by
  simp [without]

section

variable {H α β : Type} {shared : Int64 → Prop} {R D D' : List Int64}
variable {σ τ : Scene H} {P Q : Scene H → Scene H → Prop}

namespace SameBut

theorem refl (D : List Int64) (σ : Scene H) : SameBut D σ σ := ⟨rfl, rfl, rfl, fun _ _ => rfl⟩

theorem weaken (h : SameBut D σ τ) (hD : D ⊆ D') : SameBut D' σ τ :=
  ⟨h.world, h.cellOf, h.exit, fun r hr => h.registers r fun hmem => hr (hD hmem)⟩

theorem trans {υ : Scene H} (h : SameBut D σ τ) (h' : SameBut D τ υ) : SameBut D σ υ :=
  ⟨h.world.trans h'.world, h.cellOf.trans h'.cellOf, h.exit.trans h'.exit,
    fun r hr => (h.registers r hr).trans (h'.registers r hr)⟩

end SameBut

namespace Alike

theorem subset (h : Alike shared R D σ τ) : D ⊆ R := fun r hr => (h.stale r hr).1

theorem toRun (h : Alike shared R D σ τ) : SameBut R σ τ := h.toSameBut.weaken h.subset

theorem own (h : Alike shared R D σ τ) {r : Int64} (hr : ¬ shared r) : σ.cellOf r = none := by
  cases hc : σ.cellOf r with
  | none => rfl
  | some c => exact absurd (h.confined r c hc) hr

theorem weaken (h : Alike shared R D σ τ) (hD : D ⊆ D') (hstale : ∀ r ∈ D', r ∈ R ∧ ¬ shared r) :
    Alike shared R D' σ τ :=
  ⟨h.toSameBut.weaken hD, h.running, h.confined, hstale⟩

theorem congr (h : Alike shared R D σ τ) (hD : ∀ r, r ∈ D ↔ r ∈ D') : Alike shared R D' σ τ :=
  h.weaken (fun r hr => (hD r).1 hr) fun r hr => h.stale r ((hD r).2 hr)

theorem read_eq (h : Alike shared R D σ τ) {r : Int64} (hr : r ∉ D) : σ.read r = τ.read r := by
  simp only [Scene.read, ← h.cellOf, ← h.world, h.registers r hr]

end Alike

theorem Goes.congr (hD : ∀ r, r ∈ D ↔ r ∈ D') (h : Goes shared R D σ τ) : Goes shared R D' σ τ :=
  h.imp (fun h => h.congr hD) id

namespace Takes

theorem pure (a : α) : Takes shared R D (Alike shared R D) (pure a : Play H α) (pure a) :=
  fun _ _ h => .ok h

theorem bind {x x' : Play H α} {f f' : α → Play H β} (hx : Takes shared R D (Alike shared R D') x x')
    (hf : ∀ a, Takes shared R D' P (f a) (f' a)) : Takes shared R D P (x >>= f) (x' >>= f') := by
  intro σ τ h
  show Outcome P R (EStateM.bind x f σ) (EStateM.bind x' f' τ)
  have hxy := hx σ τ h
  unfold EStateM.bind
  generalize x σ = p at hxy ⊢
  generalize x' τ = q at hxy ⊢
  cases hxy with
  | ok h' => exact hf _ _ _ h'
  | error h' => exact .error h'

theorem mono {x y : Play H α} (h : Takes shared R D P x y) (hPQ : ∀ σ τ, P σ τ → Q σ τ) :
    Takes shared R D Q x y := by
  intro σ τ hστ
  have hxy := h σ τ hστ
  generalize x σ = p at hxy ⊢
  generalize y τ = q at hxy ⊢
  cases hxy with
  | ok h' => exact .ok (hPQ _ _ h')
  | error h' => exact .error h'

theorem goes {x y : Play H α} (h : Takes shared R D (Alike shared R D') x y) :
    Takes shared R D (Goes shared R D') x y :=
  h.mono fun _ _ => .inl

theorem congr {x y : Play H α} (h : Takes shared R D (Alike shared R D') x y) {D₁ : List Int64}
    (hD : ∀ r, r ∈ D' ↔ r ∈ D₁) : Takes shared R D (Alike shared R D₁) x y :=
  h.mono fun _ _ h' => h'.congr hD

end Takes

/-! ## Registers -/

namespace Alike

theorem withWorld (h : Alike shared R D σ τ) (w : World H) :
    Alike shared R D { σ with world := w } { τ with world := w } :=
  ⟨⟨rfl, h.cellOf, h.exit, h.registers⟩, h.running, h.confined, h.stale⟩

theorem writeCell (h : Alike shared R D σ τ) (c : Ref) (v : Value) :
    Alike shared R D (σ.writeCell c v) (τ.writeCell c v) where
  world := by simp only [Scene.writeCell, h.world]
  cellOf := h.cellOf
  exit := h.exit
  registers := h.registers
  running := h.running
  confined := h.confined
  stale := h.stale

theorem write (h : Alike shared R D σ τ) (r : Int64) (v : Value) :
    Alike shared R (without D [r]) (σ.write r v) (τ.write r v) := by
  have hstale : ∀ s ∈ without D [r], s ∈ R ∧ ¬ shared s := fun s hs =>
    h.stale s (mem_without_iff.1 hs).1
  cases hc : σ.cellOf r with
  | some c =>
    have hcτ : τ.cellOf r = some c := h.cellOf ▸ hc
    simp only [Scene.write, hc, hcτ]
    refine (h.writeCell c v).weaken (fun s hs => ?_) hstale
    -- a captured register is not stale to begin with
    by_cases hsr : s = r
    · subst hsr
      rw [h.own (h.stale s hs).2] at hc
      cases hc
    · simp [hs, hsr]
  | none =>
    have hcτ : τ.cellOf r = none := h.cellOf ▸ hc
    simp only [Scene.write, hc, hcτ]
    refine ⟨⟨h.world, h.cellOf, h.exit, fun s hs => ?_⟩, h.running, h.confined, hstale⟩
    by_cases hsr : s = r
    · subst hsr
      simp
    · simp only [Function.update_of_ne hsr]
      exact h.registers s fun hmem => hs (by simp [hmem, hsr])

theorem clear (h : Alike shared R D σ τ) (rs : List Int64) :
    Alike shared R (without D rs) (σ.clear rs) (τ.clear rs) := by
  induction rs generalizing D σ τ with
  | nil =>
    exact h.congr fun r => by simp
  | cons r rs ih =>
    exact (ih (h.write r .null)).congr fun s => by simp [and_assoc]

theorem close (h : Alike shared R D σ τ) (start : Int64) :
    Alike shared R D (σ.close start) (τ.close start) where
  world := h.world
  cellOf := by simp only [Scene.close, h.cellOf]
  exit := h.exit
  registers r hr := by simp only [Scene.close, h.read_eq hr, h.registers r hr]
  running := h.running
  confined r c hc := by
    simp only [Scene.close] at hc
    split at hc
    · cases hc
    · exact h.confined r c hc
  stale := h.stale

theorem capture (h : Alike shared R D σ τ) {r : Int64} (hr : shared r) :
    (σ.capture r).1 = (τ.capture r).1 ∧
      Alike shared R D (σ.capture r).2 (τ.capture r).2 := by
  have hstale : r ∉ D := fun hmem => (h.stale r hmem).2 hr
  cases hc : σ.cellOf r with
  | some c =>
    have hcτ : τ.cellOf r = some c := h.cellOf ▸ hc
    simp only [Scene.capture, hc, hcτ]
    exact ⟨trivial, h⟩
  | none =>
    have hcτ : τ.cellOf r = none := h.cellOf ▸ hc
    simp only [Scene.capture, hc, hcτ, h.world, h.registers r hstale, h.cellOf]
    refine ⟨trivial, ⟨rfl, rfl, h.exit, h.registers⟩, h.running, fun s c hs => ?_, h.stale⟩
    by_cases hsr : s = r
    · exact hsr ▸ hr
    · simp only [Function.update_of_ne hsr, ← h.cellOf] at hs
      exact h.confined s c hs

end Alike

/-! ## Actions -/

namespace Takes

open Play

theorem register {r : Int64} (hr : r ∉ D) :
    Takes shared R D (Alike shared R D) (Play.register r : Play H Value) (Play.register r) := by
  intro σ τ h
  show Outcome _ R (.ok (σ.read r) σ) (.ok (τ.read r) τ)
  rw [h.read_eq hr]
  exact .ok h

theorem setRegister (r : Int64) (v : Value) :
    Takes shared R D (Alike shared R (without D [r])) (Play.setRegister r v : Play H Unit)
      (Play.setRegister r v) :=
  fun _ _ h => .ok (h.write r v)

theorem optionalRegister {r : Int64} (hr : ∀ s ∈ Instruction.optional r, s ∉ D) :
    Takes shared R D (Alike shared R D) (Play.optionalRegister r : Play H Value)
      (Play.optionalRegister r) := by
  unfold Play.optionalRegister
  split
  · exact register (hr r (by simp [Instruction.optional, *]))
  · exact pure _

theorem readAll {rs : List Int64} (hr : ∀ r ∈ rs, r ∉ D) :
    Takes shared R D (Alike shared R D) (Play.readAll rs : Play H (List Value))
      (Play.readAll rs) := by
  induction rs with
  | nil => exact pure _
  | cons r rs ih =>
    exact bind (register (hr r List.mem_cons_self)) fun _ =>
      bind (ih fun s hs => hr s (List.mem_cons_of_mem _ hs)) fun _ => pure _

theorem onWorld (act : Deed H α) :
    Takes shared R D (Alike shared R D) (Play.onWorld act) (Play.onWorld act) := by
  intro σ τ h
  cases hw : act σ.world with
  | ok a w =>
    rw [Play.onWorld_ok hw, Play.onWorld_ok (h.world ▸ hw)]
    exact .ok (h.withWorld w)
  | error e w =>
    rw [Play.onWorld_error hw, Play.onWorld_error (h.world ▸ hw)]
    exact .error (h.withWorld w).toRun

theorem throw (e : ScriptError) :
    Takes shared R D P (MonadExcept.throw e : Play H α) (MonadExcept.throw e) :=
  fun _ _ h => .error h.toRun

theorem jump (offset : Int64) :
    Takes shared R D (Goes shared R D') (Play.jump offset : Play H Unit) (Play.jump offset) :=
  fun _ _ h => .ok (.inr ⟨rfl, h.toRun.world, h.toRun.cellOf, rfl, h.toRun.registers⟩)

theorem leave (v : Value) :
    Takes shared R D (Goes shared R D') (Play.leave v : Play H Unit) (Play.leave v) :=
  fun _ _ h => .ok (.inr ⟨rfl, h.world, rfl, rfl, fun _ _ => rfl⟩)

end Takes

end

end ScriptMachine
