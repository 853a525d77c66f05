import ScriptMachine.Proofs.Fusion.Emission

/-!
# Named locals

When two neighbouring instructions may be fused without a trace in the named
locals: the pairs are listed, and for every other pair some frame tells the code
before fusion from the code after it.
-/

set_option autoImplicit false

namespace ScriptMachine

/-- The instructions that stand for a new one and the one before it. -/
def Fusion.code (previous : Option Instruction) : Fusion → List Instruction
  | .append n => previous.toList ++ [n]
  | .replace q _ => [q]
  | .adjust q n => [q, n]

/-! ## What the named locals show -/

/-- Frames with the same named locals, in the same world. -/
structure SameLocals {H : Type} (isLocal : Int64 → Bool) (σ τ : Scene H) : Prop where
  world : σ.world = τ.world
  cellOf : σ.cellOf = τ.cellOf
  exit : σ.exit = τ.exit
  locals : ∀ r, isLocal r = true → σ.read r = τ.read r

/-- Both go on, jump or return alike, or fail with the same error. -/
inductive SameCourse {H : Type} (isLocal : Int64 → Bool) :
    EStateM.Result ScriptError (Scene H) Unit → EStateM.Result ScriptError (Scene H) Unit → Prop
  | ok {σ τ : Scene H} : SameLocals isLocal σ τ → SameCourse isLocal (.ok () σ) (.ok () τ)
  | error {e : ScriptError} {σ τ : Scene H} :
    SameLocals isLocal σ τ → SameCourse isLocal (.error e σ) (.error e τ)

/-- From every frame whose captured registers are `shared`, and whatever the
operations do, `cs` takes the course of `is`. -/
def KeepsLocals (shared : Int64 → Prop) (isLocal : Int64 → Bool) (is cs : List Instruction) : Prop :=
  ∀ (H : Type) (o : Operations H) (σ : Scene H), σ.exit = none →
    (∀ r c, σ.cellOf r = some c → shared r) → (∀ i ∈ is, ∀ r ∈ i.captures o.nested, shared r) →
    SameCourse isLocal (o.playAll is σ) (o.playAll cs σ)

/-- What the rules ask of two neighbouring instructions for the sake of the named
locals, beyond what they check themselves. -/
def Fusion.Spares (shared : Int64 → Prop) (isLocal : Int64 → Bool) (p i : Instruction) :
    Fusion → Prop
  | .append n => n ≠ i → i.opcode ≠ .setOuter → ¬ shared i.arg0
  | .replace q _ =>
    match q.opcode with
    | .jumpUnless => isLocal p.arg0 = true → CompareOp.ofCode? p.arg3 = none
    | .getLiteral | .prepareCallLiteral => p.arg0 ≠ i.arg2
    | .eqLiteral | .neqLiteral => p.arg0 = i.arg2 → isLocal i.arg0 = false
    | .append => p.arg0 ≠ i.arg0
    | .loadNulls => ∀ r, isLocal r = true →
      (r ∈ registerRun p.arg0 p.arg1 ∨ r ∈ registerRun i.arg0 i.arg1 ↔
        r ∈ registerRun p.arg0 (p.arg1 + i.arg1))
    | _ => True
  | .adjust _ _ => p.arg0 = i.arg0 ∧ ¬ shared p.arg0

section

variable {H : Type} {shared : Int64 → Prop} {isLocal : Int64 → Bool} {R D : List Int64}
variable {σ τ : Scene H} {is cs : List Instruction}

theorem SameLocals.refl (isLocal : Int64 → Bool) (σ : Scene H) : SameLocals isLocal σ σ :=
  ⟨rfl, rfl, rfl, fun _ _ => rfl⟩

theorem SameCourse.refl (isLocal : Int64 → Bool)
    (x : EStateM.Result ScriptError (Scene H) Unit) : SameCourse isLocal x x := by
  cases x with
  | ok _ σ => exact .ok (.refl isLocal σ)
  | error _ σ => exact .error (.refl isLocal σ)

theorem clear_eq (σ : Scene H) (rs : List Int64) :
    σ.clear rs = { σ with
      world := { σ.world with
        cells := fun c => if ∃ r ∈ rs, σ.cellOf r = some c then .null else σ.world.cells c }
      registers := fun r => if r ∈ rs ∧ σ.cellOf r = none then .null else σ.registers r } := by
  induction rs generalizing σ with
  | nil => simp [Scene.clear]
  | cons s rs ih =>
    refine (ih (σ.write s .null)).trans ?_
    rw [Scene.cellOf_write]
    unfold Scene.write
    cases hs : σ.cellOf s with
    | some c =>
      have hcells : ∀ d, (if ∃ r ∈ rs, σ.cellOf r = some d then Value.null
          else Function.update σ.world.cells c .null d) =
          if ∃ r ∈ s :: rs, σ.cellOf r = some d then .null else σ.world.cells d := by
        intro d
        by_cases hd : d = c
        · subst hd
          simp [hs]
        · simp [hs, Function.update_of_ne hd, Ne.symm hd]
      have hregisters : ∀ r, (if r ∈ rs ∧ σ.cellOf r = none then Value.null else σ.registers r) =
          if r ∈ s :: rs ∧ σ.cellOf r = none then .null else σ.registers r := by
        intro r
        by_cases hr : r = s
        · subst hr
          simp [hs]
        · simp [hr]
      simp only [Scene.writeCell, hcells, hregisters]
    | none =>
      have hcells : ∀ d, (∃ r ∈ rs, σ.cellOf r = some d) ↔ ∃ r ∈ s :: rs, σ.cellOf r = some d := by
        simp [hs]
      have hregisters : ∀ r, (if r ∈ rs ∧ σ.cellOf r = none then Value.null
          else Function.update σ.registers s .null r) =
          if r ∈ s :: rs ∧ σ.cellOf r = none then .null else σ.registers r := by
        intro r
        by_cases hr : r = s
        · subst hr
          simp [hs]
        · simp [hr]
      simp only [hcells, hregisters]

theorem read_clear (σ : Scene H) {rs : List Int64} {r : Int64} (hr : r ∈ rs) :
    (σ.clear rs).read r = .null := by
  rw [clear_eq]
  unfold Scene.read
  cases hc : σ.cellOf r with
  | some c => simpa using fun h => absurd hc (h r hr)
  | none => simp [hr, hc]

theorem read_clear_of_free (σ : Scene H) {rs : List Int64} {r : Int64} (hr : r ∉ rs)
    (hfree : σ.cellOf r = none) : (σ.clear rs).read r = σ.registers r := by
  rw [clear_eq]
  simp [Scene.read, hfree, hr]

/-- Two runs of nulls over the same named locals. -/
theorem SameLocals.clear {rs ss : List Int64} (h : ∀ r, isLocal r = true → (r ∈ rs ↔ r ∈ ss))
    (hlocal : ∀ r c, σ.cellOf r = some c → isLocal r = true) :
    SameLocals isLocal (σ.clear rs) (σ.clear ss) := by
  have hcells : ∀ c, (∃ r ∈ rs, σ.cellOf r = some c) ↔ ∃ r ∈ ss, σ.cellOf r = some c := fun c =>
    exists_congr fun r => and_congr_left fun hc => h r (hlocal r c hc)
  refine ⟨?_, ?_, ?_, fun r hr => ?_⟩
  · simp only [clear_eq, hcells]
  · simp only [clear_eq]
  · simp only [clear_eq]
  · simp only [clear_eq, Scene.read, hcells, h r hr]

end

/-! ## Pairs that are told apart -/

/-- A frame with the same value wherever one looks. -/
def Scene.blank (v : Value) : Scene Nat := ⟨⟨0, fun _ => v, 0⟩, fun _ => v, fun _ => none, none⟩

theorem SameCourse.of_ok {H : Type} {isLocal : Int64 → Bool} {σ τ : Scene H}
    (h : SameCourse isLocal (.ok () σ) (.ok () τ)) : SameLocals isLocal σ τ := by
  cases h with
  | ok h => exact h

theorem SameCourse.not_ok_error {H : Type} {isLocal : Int64 → Bool} {σ τ : Scene H}
    {e : ScriptError} : ¬ SameCourse isLocal (.ok () σ) (.error e τ) := nofun

theorem SameCourse.not_error_ok {H : Type} {isLocal : Int64 → Bool} {σ τ : Scene H}
    {e : ScriptError} : ¬ SameCourse isLocal (.error e σ) (.ok () τ) := nofun

section

variable {shared : Int64 → Prop} {isLocal : Int64 → Bool}

/-- A comparison is lost on a named local. -/
theorem loses_branch {a0 a3 : Int64} {op : CompareOp} (hlocal : isLocal a0 = true)
    (hop : CompareOp.ofCode? a3 = some op) (a1 a2 b1 b2 b3 : Int64) :
    ¬ KeepsLocals shared isLocal [⟨.compare, a0, a1, a2, a3⟩, ⟨.jumpIfFalsy, a0, b1, b2, b3⟩]
      [⟨.jumpUnless, a3, b1, a1, a2⟩] := by
  intro h
  let o : Operations Nat := { Operations.timeless with compare := fun _ _ => pure .eq }
  let σ := Scene.blank .null
  let v := Exec.comparisonResult op .eq
  have hv : v ≠ .null := by cases op <;> simp [v, Exec.comparisonResult]
  let on : Play Nat Unit := if v.isFalsy then Play.jump b1 else pure ()
  have hcomparing (use : Value → Play Nat Unit) : o.actions.comparing a3 a1 a2 use σ = use v σ := by
    unfold Actions.comparing
    rw [hop]
    rfl
  have hon (τ : Scene Nat) : ∃ υ, on τ = .ok () υ ∧ υ.read a0 = τ.read a0 := by
    cases hfalsy : v.isFalsy with
    | true =>
      refine ⟨{ τ with exit := some (.jumped b1) }, ?_, rfl⟩
      simp only [on, hfalsy, if_true]
      rfl
    | false =>
      refine ⟨τ, ?_, rfl⟩
      simp only [on, hfalsy]
      rfl
  have hcompare : o.play ⟨.compare, a0, a1, a2, a3⟩ σ = .ok () (σ.write a0 v) :=
    hcomparing (Play.setRegister a0)
  have hjump : o.play ⟨.jumpIfFalsy, a0, b1, b2, b3⟩ (σ.write a0 v) = on (σ.write a0 v) := by
    show (if ((σ.write a0 v).read a0).isFalsy then Play.jump b1 else pure ()) (σ.write a0 v) = _
    rw [Scene.read_write]
  obtain ⟨υ₁, hυ₁, hread₁⟩ := hon (σ.write a0 v)
  obtain ⟨υ₂, hυ₂, hread₂⟩ := hon σ
  have hpair : o.playAll [⟨.compare, a0, a1, a2, a3⟩, ⟨.jumpIfFalsy, a0, b1, b2, b3⟩] σ = .ok () υ₁ := by
    refine (Play.andThen_ok hcompare rfl _).trans ?_
    rw [o.playAll_singleton, hjump, hυ₁]
  have hfused : o.playAll [⟨.jumpUnless, a3, b1, a1, a2⟩] σ = .ok () υ₂ := by
    rw [o.playAll_singleton, ← hυ₂]
    exact hcomparing fun v => if v.isFalsy then Play.jump b1 else pure ()
  have hend := h Nat o σ rfl (fun _ _ hc => by cases hc) (by simp [Instruction.captures])
  rw [hpair, hfused] at hend
  have hreads := hend.of_ok.locals a0 hlocal
  rw [hread₁, hread₂, Scene.read_write] at hreads
  exact hv hreads

/-- Operations on which only the member of a null fails, with one literal. -/
def Operations.nullish (literal : Value) : Operations Nat :=
  { Operations.timeless with
    literal := fun _ => literal
    getMember := fun obj _ => match obj with
      | .null => throw (.typeError "no member")
      | v => pure v
    call := fun _ _ => pure (.bool true) }

theorem loses_pair {p i : Instruction} {qs : List Instruction} (o : Operations Nat)
    {σ τ : Scene Nat} {x : EStateM.Result ScriptError (Scene Nat) Unit}
    (hshared : ∀ r c, σ.cellOf r = some c → shared r) (hrunning : σ.exit = none)
    (hcaptures : ∀ j ∈ [p, i], ∀ r ∈ j.captures o.nested, shared r)
    (hp : o.play p σ = .ok () τ) (hτ : τ.exit = none) (hi : o.play i τ = x)
    (hdiffer : ¬ SameCourse isLocal x (o.playAll qs σ)) : ¬ KeepsLocals shared isLocal [p, i] qs := by
  intro h
  have hend := h Nat o σ hrunning hshared hcaptures
  have hpair : o.playAll [p, i] σ = x := by
    refine (Play.andThen_ok hp hτ _).trans ?_
    rw [o.playAll_singleton, hi]
  rw [hpair] at hend
  exact hdiffer hend

/-- A frame of nulls, with a literal loaded. -/
theorem loses_fed {i q : Instruction} {v : Value} {a0 : Int64} (a1 a2 a3 : Int64)
    {x : EStateM.Result ScriptError (Scene Nat) Unit} (hclosure : i.opcode ≠ .closure)
    (hi : (Operations.nullish v).play i (Scene.write (.blank .null) a0 v) = x)
    (hdiffer : ¬ SameCourse isLocal x ((Operations.nullish v).play q (.blank .null))) :
    ¬ KeepsLocals shared isLocal [⟨.load, a0, a1, a2, a3⟩, i] [q] := by
  refine loses_pair (Operations.nullish v) (σ := .blank .null)
    (τ := Scene.write (.blank .null) a0 v) (fun _ _ hc => by cases hc) rfl ?_ rfl
    (by rw [Scene.exit_write]; rfl) hi ?_
  · simp [Instruction.captures, hclosure]
  · rwa [Operations.playAll_singleton]

/-- A literal that is key and object at once. -/
theorem loses_get (a0 a1 a2 a3 b0 b3 : Int64) :
    ¬ KeepsLocals shared isLocal [⟨.load, a0, a1, a2, a3⟩, ⟨.get, b0, a0, a0, b3⟩]
      [⟨.getLiteral, b0, a1, a0, 0⟩] := by
  let o := Operations.nullish (.bool true)
  have hget (τ : Scene Nat) (h : τ.read a0 = .bool true) :
      o.play ⟨.get, b0, a0, a0, b3⟩ τ = .ok () (τ.write b0 (.bool true)) := by
    show (Play.onWorld (o.getMember (τ.read a0) (τ.read a0)) >>= Play.setRegister b0) τ = _
    rw [h]
    rfl
  exact loses_fed a1 a2 a3 (by simp) (hget _ (Scene.read_write _ a0 _)) SameCourse.not_ok_error

theorem loses_prepareCall (a0 a1 a2 a3 b0 b3 : Int64) :
    ¬ KeepsLocals shared isLocal [⟨.load, a0, a1, a2, a3⟩, ⟨.prepareCall, b0, a0, a0, b3⟩]
      [⟨.prepareCallLiteral, b0, a1, a0, b3⟩] := by
  let o := Operations.nullish (.bool true)
  have hprepare (τ : Scene Nat) (h : τ.read a0 = .bool true) :
      o.play ⟨.prepareCall, b0, a0, a0, b3⟩ τ =
        .ok () ((τ.write b3 (.bool true)).write b0 (.bool true)) := by
    show o.actions.prepareCall ⟨.prepareCall, b0, a0, a0, b3⟩ (τ.read a0) (τ.read a0) τ = _
    rw [h]
    rfl
  exact loses_fed a1 a2 a3 (by simp) (hprepare _ (Scene.read_write _ a0 _)) SameCourse.not_ok_error

theorem loses_itself {op lop : Opcode} {wanted : Bool} {a0 a1 b0 b3 : Int64}
    (hop : ∀ (o : Operations Nat), o.play ⟨op, b0, a0, a0, b3⟩ =
      (do o.actions.equality b0 (← Play.register a0) (← Play.register a0) wanted))
    (hlop : ∀ (o : Operations Nat), o.play ⟨lop, b0, a1, a0, 0⟩ =
      o.actions.literalEquality ⟨lop, b0, a1, a0, 0⟩ wanted)
    (hclosure : op ≠ .closure) (hb : isLocal b0 = true) (a2 a3 : Int64) :
    ¬ KeepsLocals shared isLocal [⟨.load, a0, a1, a2, a3⟩, ⟨op, b0, a0, a0, b3⟩]
      [⟨lop, b0, a1, a0, 0⟩] := by
  let o := Operations.nullish (.bool true)
  have heq (τ : Scene Nat) (h : τ.read a0 = .bool true) :
      o.play ⟨op, b0, a0, a0, b3⟩ τ = .ok () (τ.write b0 (.bool wanted)) := by
    rw [hop]
    show o.actions.equality b0 (τ.read a0) (τ.read a0) wanted τ = _
    rw [h]
    cases wanted <;> rfl
  have hlit : o.play ⟨lop, b0, a1, a0, 0⟩ (.blank .null) =
      .ok () (Scene.write (.blank .null) b0 (.bool !wanted)) := by
    rw [hlop]
    cases wanted <;> rfl
  refine loses_fed a1 a2 a3 hclosure (heq _ (Scene.read_write _ a0 _)) ?_
  rw [hlit]
  intro h
  have hreads := h.of_ok.locals b0 hb
  rw [Scene.read_write, Scene.read_write] at hreads
  cases wanted <;> cases hreads

/-- A literal is appended to itself. -/
theorem loses_append {op : Opcode} {source : AppendSource} (hop : AppendSource.ofLoad? op = some source)
    (a0 a1 a2 a3 b3 : Int64) :
    ¬ KeepsLocals shared isLocal
      [⟨op, a0, a1, a2, a3⟩, ⟨.append, a0, a0, AppendSource.register.code, b3⟩]
      [⟨.append, a0, a1, source.code, 0⟩] := by
  let o := Operations.nullish .null
  have hload : ∃ v, (∀ r, v ≠ .array r) ∧
      o.play ⟨op, a0, a1, a2, a3⟩ (.blank (.array ⟨0⟩)) = .ok () (Scene.write (.blank (.array ⟨0⟩)) a0 v) := by
    cases op <;> cases hop
    · exact ⟨.null, nofun, rfl⟩
    · exact ⟨.integer a1, nofun, rfl⟩
    · exact ⟨.float (Float.ofBits a1.toUInt64), nofun, rfl⟩
    · exact ⟨.bool (a1 != 0), nofun, rfl⟩
  obtain ⟨v, hv, hload⟩ := hload
  refine loses_pair o (σ := .blank (.array ⟨0⟩)) (fun _ _ hc => by cases hc) rfl ?_ hload
    (by rw [Scene.exit_write]; rfl) rfl ?_
  · have hne : op ≠ .closure := by rintro rfl; cases hop
    simp [Instruction.captures, hne]
  · rw [play_append, Scene.read_write, o.playAll_singleton, play_append]
    have hread : (Scene.blank (.array ⟨0⟩)).read a0 = .array ⟨0⟩ := rfl
    rw [hread]
    cases v with
    | array r => exact absurd rfl (hv r)
    | _ => cases source <;> exact SameCourse.not_error_ok

/-- Runs of nulls that do not cover the same named locals. -/
theorem loses_nulls (a0 a1 a2 a3 b0 b1 b2 b3 : Int64)
    (h : KeepsLocals shared isLocal [⟨.loadNulls, a0, a1, a2, a3⟩, ⟨.loadNulls, b0, b1, b2, b3⟩]
      [⟨.loadNulls, a0, a1 + b1, 0, 0⟩]) (r : Int64) (hr : isLocal r = true) :
    r ∈ registerRun a0 a1 ∨ r ∈ registerRun b0 b1 ↔ r ∈ registerRun a0 (a1 + b1) := by
  let o := Operations.nullish .null
  let σ := Scene.blank (.bool true)
  have hpair : o.playAll [⟨.loadNulls, a0, a1, a2, a3⟩, ⟨.loadNulls, b0, b1, b2, b3⟩] σ =
      .ok () (σ.clear (registerRun a0 a1 ++ registerRun b0 b1)) := by
    rw [Scene.clear_append]
    refine (Play.andThen_ok (τ := σ.clear (registerRun a0 a1)) rfl (by rw [Scene.exit_clear]; rfl)
      _).trans ?_
    rw [o.playAll_singleton]
    rfl
  have hmerged : o.playAll [⟨.loadNulls, a0, a1 + b1, 0, 0⟩] σ =
      .ok () (σ.clear (registerRun a0 (a1 + b1))) := by
    rw [o.playAll_singleton]
    rfl
  have hend := h Nat o σ rfl (fun _ _ hc => by cases hc) (by simp [Instruction.captures])
  rw [hpair, hmerged] at hend
  have hreads := hend.of_ok.locals r hr
  have hnull (rs : List Int64) : (σ.clear rs).read r = .null ↔ r ∈ rs := by
    refine ⟨fun hn => ?_, read_clear σ⟩
    by_contra hmem
    rw [read_clear_of_free σ hmem rfl] at hn
    cases hn
  rw [← List.mem_append, ← hnull, ← hnull, hreads]

theorem readAll_ok (rs : List Int64) (σ : Scene Nat) : ∃ vs, Play.readAll rs σ = .ok vs σ := by
  induction rs with
  | nil => exact ⟨[], rfl⟩
  | cons r rs ih =>
    obtain ⟨vs, hvs⟩ := ih
    refine ⟨σ.read r :: vs, ?_⟩
    refine (Play.bind_ok (show Play.register r σ = .ok (σ.read r) σ from rfl) _).trans ?_
    exact Play.bind_ok hvs _

/-- Where the result of the call is not what is returned, or where the register it
goes to is captured. -/
theorem loses_callLast {a0 b0 : Int64} (hb : isPresent b0 = true) (h : a0 = b0 → shared a0)
    (a1 a2 a3 b1 b2 b3 : Int64) :
    ¬ KeepsLocals shared isLocal [⟨.call, a0, a1, a2, a3⟩, ⟨.ret, b0, b1, b2, b3⟩]
      [⟨.tailCall, a0, a1, a2, a3⟩, ⟨.ret, b0, b1, b2, b3⟩] := by
  intro hkeeps
  let o := Operations.nullish .null
  let cellOf : Int64 → Option Ref := fun r => if r = a0 ∧ a0 = b0 then some ⟨0⟩ else none
  let σ : Scene Nat := { Scene.blank (.closure ⟨0⟩) with cellOf := cellOf }
  have hread (r : Int64) : σ.read r = .closure ⟨0⟩ := by
    unfold Scene.read
    cases σ.cellOf r <;> rfl
  have hresult : o.callResult ⟨.call, a0, a1, a2, a3⟩ (.closure ⟨0⟩) σ = .ok (.bool true) σ := by
    obtain ⟨vs, hvs⟩ := readAll_ok (registerRun a2 a3) σ
    exact Play.bind_ok hvs _
  have hset : ∃ τ, Play.setOptional a0 (.bool true) σ = .ok () τ ∧ τ.exit = none ∧
      (a0 = b0 → τ.world.cells ⟨0⟩ = .bool true) ∧ (a0 ≠ b0 → τ.read b0 = .closure ⟨0⟩) := by
    unfold Play.setOptional
    split
    · refine ⟨σ.write a0 (.bool true), rfl, Scene.exit_write .., fun hback => ?_, fun hback => ?_⟩
      · have hcell : σ.cellOf a0 = some ⟨0⟩ := if_pos ⟨rfl, hback⟩
        simp [Scene.write, hcell, Scene.writeCell]
      · have hcell : ∀ r, σ.cellOf r = none := fun r => if_neg fun h => hback h.2
        simp only [Scene.write, Scene.read, hcell, Function.update_of_ne (Ne.symm hback)]
        rfl
    · rename_i habsent
      exact ⟨σ, rfl, rfl, fun hback => absurd (hback ▸ hb) habsent, fun _ => hread b0⟩
  obtain ⟨τ, hset, hτ, hsame, hother⟩ := hset
  have hpair : o.playAll [⟨.call, a0, a1, a2, a3⟩, ⟨.ret, b0, b1, b2, b3⟩] σ =
      .ok () (τ.leave (τ.read b0)) := by
    have hcall : o.play ⟨.call, a0, a1, a2, a3⟩ σ = .ok () τ := by
      rw [play_call, hread, Play.bind_ok hresult, hset]
    refine (Play.andThen_ok hcall hτ _).trans ?_
    rw [o.playAll_singleton, play_ret o hb]
  have hlast : o.playAll [⟨.tailCall, a0, a1, a2, a3⟩, ⟨.ret, b0, b1, b2, b3⟩] σ =
      .ok () (σ.leave (.bool true)) := by
    have hcall : o.play ⟨.tailCall, a0, a1, a2, a3⟩ σ = .ok () (σ.leave (.bool true)) := by
      rw [play_tailCall, hread, if_pos (show Value.isClosure (.closure ⟨0⟩) = true from rfl),
        Play.bind_ok hresult]
      rfl
    exact Play.andThen_exit hcall rfl _
  have hend := hkeeps Nat o σ rfl (fun r c hc => ?_) (by simp [Instruction.captures])
  · rw [hpair, hlast] at hend
    by_cases hback : a0 = b0
    · have hcells := congrArg (fun w : World Nat => w.cells ⟨0⟩) hend.of_ok.world
      dsimp only [Scene.leave] at hcells
      rw [hsame hback] at hcells
      cases hcells
    · have hexit := hend.of_ok.exit
      dsimp only [Scene.leave] at hexit
      rw [hother hback] at hexit
      cases hexit
  · by_cases hcaptured : r = a0 ∧ a0 = b0
    · exact hcaptured.1 ▸ h hcaptured.2
    · rw [show σ.cellOf r = none from if_neg hcaptured] at hc
      cases hc

end

/-- Where two instructions have been fused into one, nothing less will do. -/
theorem Fused.spares {shared : Int64 → Prop} {p i : Instruction} {ctx : FusionContext} {f : Fusion}
    (h : Fused ctx p i f) (hfused : ∀ n, f ≠ .append n)
    (hkeeps : KeepsLocals shared ctx.isLocal [p, i] (f.code (some p))) :
    f.Spares shared ctx.isLocal p i := by
  obtain ⟨op, a0, a1, a2, a3⟩ := p
  obtain ⟨op', b0, b1, b2, b3⟩ := i
  cases h with
  | kept | storeBack | outerBack => exact absurd rfl (hfused _)
  | callLast hpop hiop hpresent =>
    cases hpop
    cases hiop
    by_contra hspares
    refine loses_callLast hpresent (fun hback => ?_) a1 a2 a3 b1 b2 b3 hkeeps
    by_contra hshared
    exact hspares ⟨hback, hshared⟩
  | closing _ hiop =>
    cases hiop
    trivial
  | branch hpop hiop hback =>
    cases hpop
    cases hiop
    obtain rfl : a0 = b0 := hback
    intro hlocal
    cases hcode : CompareOp.ofCode? a3 with
    | none => rfl
    | some op => exact absurd hkeeps (loses_branch hlocal hcode a1 a2 b1 b2 b3)
  | get hpop hiop hkey ht =>
    cases hpop
    cases hiop
    obtain rfl : a0 = b1 := hkey
    rintro rfl
    exact loses_get a0 a1 a2 a3 b0 b3 hkeeps
  | prepareCall hpop hiop hkey ht =>
    cases hpop
    cases hiop
    obtain rfl : a0 = b1 := hkey
    rintro rfl
    exact loses_prepareCall a0 a1 a2 a3 b0 b3 hkeeps
  | eq hpop hiop hkey ht =>
    cases hpop
    cases hiop
    obtain rfl : a0 = b1 := hkey
    rintro rfl
    by_contra hlocal
    exact loses_itself (fun _ => rfl) (fun _ => rfl) (by simp) (by simpa using hlocal) a2 a3 hkeeps
  | neq hpop hiop hkey ht =>
    cases hpop
    cases hiop
    obtain rfl : a0 = b1 := hkey
    rintro rfl
    by_contra hlocal
    exact loses_itself (fun _ => rfl) (fun _ => rfl) (by simp) (by simpa using hlocal) a2 a3 hkeeps
  | append hsource hiop hkind hkey ht =>
    cases hiop
    cases hkind
    obtain rfl : a0 = b1 := hkey
    rintro rfl
    exact loses_append hsource a0 a1 a2 a3 b3 hkeeps
  | retarget hop hiop hkey ht => cases op <;> trivial
  | moves | loads => trivial
  | nulls hpop hiop hnext =>
    cases hpop
    cases hiop
    exact loses_nulls a0 a1 a2 a3 b0 b1 b2 b3 hkeeps

/-! ## The theorem -/

end ScriptMachine
