import ScriptMachine.Builder.Draft
import ScriptMachine.Proofs.Fusion.Staleness

/-!
# The rules of fusion

Each rule takes two neighbouring instructions to one that does the same, up to the
register between them.
-/

set_option autoImplicit false

namespace ScriptMachine

/-! ## What fusing two instructions gives -/

/-- The rules, with what each one asks of the two instructions. -/
inductive Fused (ctx : FusionContext) (p i : Instruction) : Fusion → Prop
  | kept : Fused ctx p i (.append i)
  | storeBack : i.opcode = .assign ∨ i.opcode = .newSlot → i.arg0 = i.arg3 →
    Fused ctx p i (.append { i with arg0 := absent })
  | outerBack : i.opcode = .setOuter → i.arg0 = i.arg2 →
    Fused ctx p i (.append { i with arg0 := absent })
  | callLast : p.opcode = .call → i.opcode = .ret → isPresent i.arg0 = true →
    Fused ctx p i (.adjust { p with opcode := .tailCall } i)
  | closing : p.opcode = .close → i.opcode = .ret → Fused ctx p i (.replace i .armed)
  | branch : p.opcode = .compare → i.opcode = .jumpIfFalsy → p.arg0 = i.arg0 →
    Fused ctx p i (.replace ⟨.jumpUnless, p.arg3, i.arg1, p.arg1, p.arg2⟩ .armed)
  | get : p.opcode = .load → i.opcode = .get → p.arg0 = i.arg1 → ctx.isLocal p.arg0 = false →
    Fused ctx p i (.replace ⟨.getLiteral, i.arg0, p.arg1, i.arg2, 0⟩ .armed)
  | prepareCall : p.opcode = .load → i.opcode = .prepareCall → p.arg0 = i.arg1 →
    ctx.isLocal p.arg0 = false →
    Fused ctx p i (.replace ⟨.prepareCallLiteral, i.arg0, p.arg1, i.arg2, i.arg3⟩ .armed)
  | eq : p.opcode = .load → i.opcode = .eq → p.arg0 = i.arg1 → ctx.isLocal p.arg0 = false →
    Fused ctx p i (.replace ⟨.eqLiteral, i.arg0, p.arg1, i.arg2, 0⟩ .armed)
  | neq : p.opcode = .load → i.opcode = .neq → p.arg0 = i.arg1 → ctx.isLocal p.arg0 = false →
    Fused ctx p i (.replace ⟨.neqLiteral, i.arg0, p.arg1, i.arg2, 0⟩ .armed)
  | append {source : AppendSource} : AppendSource.ofLoad? p.opcode = some source →
    i.opcode = .append → i.arg2 = AppendSource.register.code → p.arg0 = i.arg1 →
    ctx.isLocal p.arg0 = false →
    Fused ctx p i (.replace ⟨.append, i.arg0, p.arg1, source.code, 0⟩ .armed)
  | retarget : p.opcode.isRetargetable = true → i.opcode = .move → p.arg0 = i.arg1 →
    ctx.isLocal p.arg0 = false → Fused ctx p i (.replace { p with arg0 := i.arg0 } .suppressed)
  | moves : p.opcode = .move → i.opcode = .move →
    Fused ctx p i (.replace ⟨.doubleMove, p.arg0, p.arg1, i.arg0, i.arg1⟩ .armed)
  | loads : p.opcode = .load → i.opcode = .load →
    Fused ctx p i (.replace ⟨.doubleLoad, p.arg0, p.arg1, i.arg0, i.arg1⟩ .armed)
  | nulls : p.opcode = .loadNulls → i.opcode = .loadNulls → p.arg0 + p.arg1 = i.arg0 →
    Fused ctx p i (.replace ⟨.loadNulls, p.arg0, p.arg1 + i.arg1, 0, 0⟩ .armed)

theorem feeds_iff {ctx : FusionContext} {p : Instruction} {source : Int64} :
    Fusion.feeds ctx p source = true ↔
      p.opcode = .load ∧ p.arg0 = source ∧ ctx.isLocal p.arg0 = false := by
  simp [Fusion.feeds, and_assoc]

theorem fused_ofPair (ctx : FusionContext) (p i : Instruction) :
    Fused ctx p i (Fusion.ofPair ctx p i) := by
  obtain ⟨op, a0, a1, a2, a3⟩ := i
  cases op with
  | jumpIfFalsy =>
    simp only [Fusion.ofPair, Bool.and_eq_true, beq_iff_eq]
    split
    · rename_i h
      exact .branch h.1 rfl h.2
    · exact .kept
  | assign =>
    simp only [Fusion.ofPair, beq_iff_eq]
    split
    · rename_i h
      exact .storeBack (.inl rfl) h
    · exact .kept
  | newSlot =>
    simp only [Fusion.ofPair, beq_iff_eq]
    split
    · rename_i h
      exact .storeBack (.inr rfl) h
    · exact .kept
  | setOuter =>
    simp only [Fusion.ofPair, beq_iff_eq]
    split
    · rename_i h
      exact .outerBack rfl h
    · exact .kept
  | ret =>
    have hclosing : Fused ctx p ⟨.ret, a0, a1, a2, a3⟩
        (if p.opcode == .close then .replace ⟨.ret, a0, a1, a2, a3⟩ .armed
          else .append ⟨.ret, a0, a1, a2, a3⟩) := by
      split
      · rename_i h
        exact .closing (beq_iff_eq.1 h) rfl
      · exact .kept
    show Fused ctx p _ (Fusion.ofReturn ctx p ⟨.ret, a0, a1, a2, a3⟩)
    unfold Fusion.ofReturn
    dsimp only
    by_cases hcall : (ctx.nested && isPresent a0 && p.opcode == .call) = true
    · cases ctx.returnExpression with
      | none => simpa only [hcall, Bool.true_and, Bool.false_eq_true, if_false] using hclosing
      | some start =>
        simp only [hcall, Bool.true_and]
        split
        · simp only [Bool.and_eq_true, beq_iff_eq] at hcall
          exact .callLast hcall.2 rfl hcall.1.2
        · exact hclosing
    · simpa only [hcall, Bool.false_and, Bool.false_eq_true, if_false] using hclosing
  | get =>
    simp only [Fusion.ofPair]
    split
    · rename_i h
      obtain ⟨hp, hsource, hlocal⟩ := feeds_iff.1 h
      exact .get hp rfl hsource hlocal
    · exact .kept
  | prepareCall =>
    simp only [Fusion.ofPair]
    split
    · rename_i h
      obtain ⟨hp, hsource, hlocal⟩ := feeds_iff.1 h
      exact .prepareCall hp rfl hsource hlocal
    · exact .kept
  | eq =>
    simp only [Fusion.ofPair]
    split
    · rename_i h
      obtain ⟨hp, hsource, hlocal⟩ := feeds_iff.1 h
      exact .eq hp rfl hsource hlocal
    · exact .kept
  | neq =>
    simp only [Fusion.ofPair]
    split
    · rename_i h
      obtain ⟨hp, hsource, hlocal⟩ := feeds_iff.1 h
      exact .neq hp rfl hsource hlocal
    · exact .kept
  | append =>
    simp only [Fusion.ofPair, Fusion.ofAppend, Bool.and_eq_true, beq_iff_eq, Bool.not_eq_true']
    split
    · rename_i source hs
      split
      · rename_i h
        exact .append hs rfl h.1.1 h.1.2 h.2
      · exact .kept
    · exact .kept
  | move =>
    simp only [Fusion.ofPair, Fusion.ofMove, Bool.and_eq_true, beq_iff_eq, Bool.not_eq_true']
    split
    · rename_i h
      exact .retarget h.1.1 rfl h.1.2 h.2
    · split
      · rename_i h
        exact .moves h rfl
      · exact .kept
  | load =>
    simp only [Fusion.ofPair, Bool.and_eq_true, beq_iff_eq]
    split
    · rename_i h
      exact .loads h.1.1 rfl
    · exact .kept
  | loadNulls =>
    simp only [Fusion.ofPair, Bool.and_eq_true, beq_iff_eq]
    split
    · rename_i h
      exact .nulls h.1 rfl h.2
    · exact .kept
  | _ => exact .kept

/-! ## Instructions that fill a register -/

namespace Operations

variable {H : Type} (o : Operations H)

open Play

def compared (code x y : Int64) : Play H Value :=
  match CompareOp.ofCode? code with
  | none => throw ⟨.compile, "invalid comparison " ++ Decimal.integer code, []⟩
  | some op => do
    let x ← register x
    let y ← register y
    return Exec.comparisonResult op (← onWorld (o.compare x y))

def combined (op : ArithOp) (x y : Int64) : Play H Value := do
  let x ← register x
  let y ← register y
  onWorld (o.arith op x y)

def bits (code x y : Int64) : Play H Value :=
  match BitwiseOp.ofCode? code with
  | none => throw ⟨.compile, "invalid bitwise op " ++ Decimal.integer code, []⟩
  | some op => do
    let x ← register x
    let y ← register y
    o.actions.ofExcept (Operator.bitwise op x y)

/-- What an instruction puts into its first register. -/
def result (i : Instruction) : Play H Value :=
  match i.opcode with
  | .load => pure (o.literal i.arg1)
  | .loadInteger => pure (.integer i.arg1)
  | .loadFloat => pure (.float (Float.ofBits i.arg1.toUInt64))
  | .loadBool => pure (.bool (i.arg1 != 0))
  | .get => do
    let key ← register i.arg1
    let obj ← register i.arg2
    onWorld (o.getMember obj key)
  | .add => o.combined .add i.arg1 i.arg2
  | .sub => o.combined .sub i.arg1 i.arg2
  | .mul => o.combined .mul i.arg1 i.arg2
  | .div => o.combined .div i.arg1 i.arg2
  | .mod => o.combined .mod i.arg1 i.arg2
  | .exp => o.combined .exp i.arg1 i.arg2
  | .bitwise => o.bits i.arg3 i.arg1 i.arg2
  | .compare => o.compared i.arg3 i.arg1 i.arg2
  | _ => pure .null

theorem comparing_eq (code x y : Int64) (use : Value → Play H Unit) :
    o.actions.comparing code x y use = o.compared code x y >>= use := by
  unfold Actions.comparing compared
  cases CompareOp.ofCode? code with
  | none => rfl
  | some op => simp only [bind_assoc, pure_bind]; rfl

theorem bitwise_eq (i : Instruction) :
    o.actions.bitwise i = o.bits i.arg3 i.arg1 i.arg2 >>= setRegister i.arg0 := by
  unfold Actions.bitwise bits
  cases BitwiseOp.ofCode? i.arg3 with
  | none => rfl
  | some op => simp only [bind_assoc]; rfl

theorem arithmetic_eq (op : ArithOp) (i : Instruction) :
    o.actions.arithmetic op i = o.combined op i.arg1 i.arg2 >>= setRegister i.arg0 := by
  unfold Actions.arithmetic combined
  simp only [bind_assoc]
  rfl

theorem play_eq {i : Instruction} (hi : i.opcode.isRetargetable = true ∨ i.opcode = .compare) :
    o.play i = o.result i >>= setRegister i.arg0 := by
  obtain ⟨op, a0, a1, a2, a3⟩ := i
  cases op with
  | load | loadInteger | loadFloat | loadBool => rfl
  | get => simp only [result, bind_assoc]; rfl
  | add | sub | mul | div | mod | exp => exact o.arithmetic_eq _ _
  | bitwise => exact o.bitwise_eq _
  | compare => exact o.comparing_eq a3 a1 a2 _
  | _ => simp [Opcode.isRetargetable] at hi

end Operations

variable {H : Type} (o : Operations H) {shared : Int64 → Prop} {R D D' : List Int64}
variable {σ τ : Scene H}

theorem Takes.result (i : Instruction) :
    Takes shared R [] (Alike shared R []) (o.result i) (o.result i) := by
  have hregister (r : Int64) : Takes shared R [] (Alike shared R [])
      (Play.register r : Play H Value) (Play.register r) := .register List.not_mem_nil
  have hcombined (op : ArithOp) (x y : Int64) : Takes shared R [] (Alike shared R [])
      (o.combined op x y) (o.combined op x y) :=
    .bind (hregister x) fun _ => .bind (hregister y) fun _ => .onWorld _
  obtain ⟨op, a0, a1, a2, a3⟩ := i
  cases op with
  | get => exact .bind (hregister a1) fun _ => .bind (hregister a2) fun _ => .onWorld _
  | add | sub | mul | div | mod | exp => exact hcombined _ a1 a2
  | bitwise =>
    show Takes shared R [] _ (o.bits a3 a1 a2) (o.bits a3 a1 a2)
    unfold Operations.bits
    split
    · exact .throw _
    · exact .bind (hregister a1) fun _ => .bind (hregister a2) fun _ => .ofExcept o _
  | compare =>
    show Takes shared R [] _ (o.compared a3 a1 a2) (o.compared a3 a1 a2)
    unfold Operations.compared
    split
    · exact .throw _
    · exact .bind (hregister a1) fun _ => .bind (hregister a2) fun _ =>
        .bind (.onWorld _) fun _ => .pure _
  | _ => exact .pure _

/-! ## Two instructions for one -/

/-- Running `p` and `i` has the outcome of running `qs`, up to stale registers. -/
def Replaces (shared : Int64 → Prop) (R D : List Int64) (p i : Instruction)
    (qs : List Instruction) : Prop :=
  ∀ σ, Alike shared R [] σ σ →
    Outcome (Goes shared R D) R (o.playAll [p, i] σ) (o.playAll qs σ)

theorem Alike.of_write (h : Alike shared R [] σ σ) {t : Int64} (ht : t ∈ R ∧ ¬ shared t)
    (v : Value) : Alike shared R [t] (σ.write t v) σ := by
  have hc : σ.cellOf t = none := h.own ht.2
  refine ⟨⟨?_, by simp, by simp, fun r hr => ?_⟩, by simp [h.running], ?_, by simpa using ht⟩
  · simp [Scene.write, hc]
  · have hrt : r ≠ t := by simpa using hr
    simp [Scene.write, hc, Function.update_of_ne hrt]
  · simpa using h.confined

/-- An instruction fills a register that the next one reads first and nobody reads
again: the value need not go through the register. -/
theorem replaces_of_fed {p i q : Instruction} {x : Play H Value} {f : Value → Play H Unit}
    (hp : o.play p = x >>= Play.setRegister p.arg0)
    (hx : Takes shared R [] (Alike shared R []) x x)
    (hi : ∀ σ, o.play i σ = f (σ.read p.arg0) σ) (hq : o.play q = x >>= f)
    (ht : p.arg0 ∈ R ∧ ¬ shared p.arg0)
    (hf : ∀ v, Takes shared R [p.arg0] (Goes shared R D) (f v) (f v)) :
    Replaces o shared R D p i [q] := by
  intro σ hσ
  rw [Operations.playAll_singleton, hq]
  show Outcome _ R ((o.play p).andThen (o.playAll [i]) σ) _
  rw [Operations.playAll_singleton]
  have hout := hx σ σ hσ
  cases hxσ : x σ with
  | error e τ =>
    rw [hxσ] at hout
    have herror : o.play p σ = .error e τ := hp ▸ Play.bind_error hxσ _
    rw [Play.andThen_error herror, Play.bind_error hxσ]
    exact .error (.refl R τ)
  | ok v τ =>
    rw [hxσ] at hout
    have hτ : Alike shared R [] τ τ := by
      cases hout with
      | ok h => exact h
    have hok : o.play p σ = .ok () (τ.write p.arg0 v) := hp ▸ Play.bind_ok hxσ _
    rw [Play.andThen_ok hok (by simp [hτ.running]), Play.bind_ok hxσ, hi, Scene.read_write]
    exact hf v _ _ (hτ.of_write ht v)

/-- Where both give the same result, nothing becomes stale. -/
theorem replaces_of_eq {p i q : Instruction}
    (h : ∀ σ, σ.exit = none → o.playAll [p, i] σ = o.play q σ)
    (hq : ∀ r ∈ q.captures o.nested, shared r) : Replaces o shared R [] p i [q] := by
  intro σ hσ
  rw [Operations.playAll_singleton, h σ hσ.running]
  exact (Takes.play o (fun _ _ => List.not_mem_nil) hq).mono
    (fun _ _ => Goes.congr fun r => by simp) σ σ hσ

/-- Appends a value to what a register holds. -/
def appendTo (array : Int64) (v : Value) : Play H Unit := do
  match ← Play.register array with
  | .array r => o.actions.pushItem r v
  | _ => o.actions.fail (.typeError "append target is not an array")

theorem appendTo_eq (array : Int64) (v : Value) (σ : Scene H) :
    appendTo o array v σ =
      match σ.read array with
      | .array r => o.actions.pushItem r v σ
      | _ => o.actions.fail (.typeError "append target is not an array") σ := by
  refine (Play.bind_ok (show Play.register array σ = .ok (σ.read array) σ from rfl) _).trans ?_
  cases σ.read array <;> rfl

theorem play_append (a0 a1 a3 : Int64) (source : AppendSource) (σ : Scene H) :
    o.play ⟨.append, a0, a1, source.code, a3⟩ σ =
      match σ.read a0 with
      | .array r => (o.actions.appended ⟨.append, a0, a1, source.code, a3⟩ source >>=
          o.actions.pushItem r) σ
      | _ => o.actions.fail (.typeError "append target is not an array") σ := by
  refine (Play.bind_ok (show Play.register a0 σ = .ok (σ.read a0) σ from rfl) _).trans ?_
  cases σ.read a0 with
  | array r => cases source <;> rfl
  | _ => rfl

section

variable (a0 a1 a2 a3 b0 b1 b2 b3 : Int64) (ht : a0 ∈ R ∧ ¬ shared a0)
include ht

theorem replaces_branch :
    Replaces o shared R [a0] ⟨.compare, a0, a1, a2, a3⟩ ⟨.jumpIfFalsy, a0, b1, b2, b3⟩
      [⟨.jumpUnless, a3, b1, a1, a2⟩] :=
  replaces_of_fed o (f := fun v => if v.isFalsy then o.actions.jump b1 else pure ())
    (o.play_eq (.inr rfl)) (.result o _) (fun _ => rfl)
    (o.comparing_eq a3 a1 a2 fun v => if v.isFalsy then o.actions.jump b1 else pure ()) ht
    fun v => .jumpIf o v.isFalsy b1

theorem replaces_get (h : a0 ≠ b2) :
    Replaces o shared R (without [a0] [b0]) ⟨.load, a0, a1, a2, a3⟩ ⟨.get, b0, a0, b2, b3⟩
      [⟨.getLiteral, b0, a1, b2, 0⟩] :=
  replaces_of_fed o (o.play_eq (.inl rfl)) (.result o _) (fun _ => rfl) rfl ht fun _ =>
    Takes.goes (.bind (.register (by simp [h.symm])) fun _ =>
      .bind (.onWorld _) fun v => .setRegister b0 v)

theorem replaces_prepareCall (h : a0 ≠ b2) :
    Replaces o shared R (without [a0] [b0, b3]) ⟨.load, a0, a1, a2, a3⟩
      ⟨.prepareCall, b0, a0, b2, b3⟩ [⟨.prepareCallLiteral, b0, a1, b2, b3⟩] :=
  replaces_of_fed o (f := fun key => do
      let obj ← Play.register b2
      o.actions.prepareCall ⟨.prepareCall, b0, a0, b2, b3⟩ key obj)
    (o.play_eq (.inl rfl)) (.result o _) (fun _ => rfl) rfl ht fun key =>
    Takes.goes (.bind (.register (by simp [h.symm])) fun obj =>
      .prepareCall o (i := ⟨.prepareCall, b0, a0, b2, b3⟩) key obj)

theorem replaces_eq (h : a0 ≠ b2) :
    Replaces o shared R (without [a0] [b0]) ⟨.load, a0, a1, a2, a3⟩ ⟨.eq, b0, a0, b2, b3⟩
      [⟨.eqLiteral, b0, a1, b2, 0⟩] :=
  replaces_of_fed o (o.play_eq (.inl rfl)) (.result o _) (fun _ => rfl) rfl ht fun _ =>
    Takes.goes (.bind (.register (by simp [h.symm])) fun _ => .setRegister b0 _)

theorem replaces_neq (h : a0 ≠ b2) :
    Replaces o shared R (without [a0] [b0]) ⟨.load, a0, a1, a2, a3⟩ ⟨.neq, b0, a0, b2, b3⟩
      [⟨.neqLiteral, b0, a1, b2, 0⟩] :=
  replaces_of_fed o (o.play_eq (.inl rfl)) (.result o _) (fun _ => rfl) rfl ht fun _ =>
    Takes.goes (.bind (.register (by simp [h.symm])) fun _ => .setRegister b0 _)

theorem replaces_retarget {op : Opcode} (hop : op.isRetargetable = true) :
    Replaces o shared R (without [a0] [b0]) ⟨op, a0, a1, a2, a3⟩ ⟨.move, b0, a0, b2, b3⟩
      [⟨op, b0, a1, a2, a3⟩] := by
  have hq : o.play ⟨op, b0, a1, a2, a3⟩ =
      o.result ⟨op, a0, a1, a2, a3⟩ >>= Play.setRegister b0 := by
    rw [o.play_eq (.inl hop)]
    rfl
  exact replaces_of_fed o (o.play_eq (.inl hop)) (.result o _) (fun _ => rfl) hq ht fun v =>
    Takes.goes (.setRegister b0 v)

theorem replaces_append {op : Opcode} {source : AppendSource}
    (hop : AppendSource.ofLoad? op = some source) (h : a0 ≠ b0) :
    Replaces o shared R [a0] ⟨op, a0, a1, a2, a3⟩
      ⟨.append, b0, a0, AppendSource.register.code, b3⟩ [⟨.append, b0, a1, source.code, 0⟩] := by
  have hretarget : op.isRetargetable = true := by
    cases op <;> first | rfl | cases hop
  refine replaces_of_fed o (f := appendTo o b0) (o.play_eq (.inl hretarget)) (.result o _)
    (fun σ => ?_) (funext fun σ => ?_) ht fun v => ?_
  · rw [play_append, appendTo_eq]
    cases σ.read b0 <;> rfl
  · rw [play_append]
    cases op <;> cases hop <;>
      exact (appendTo_eq o b0 _ σ).symm
  · refine Takes.goes (.bind (.register (by simp [h.symm])) fun array => ?_)
    split
    · exact .onWorld _
    · exact .throw _

end

/-! ## Rules that leave nothing out -/

theorem replaces_of_bind {p i q : Instruction}
    (hp : ∀ σ : Scene H, ∃ τ, o.play p σ = .ok () τ ∧ τ.exit = σ.exit)
    (hq : o.play q = o.play p >>= fun _ => o.play i)
    (hcaptures : ∀ r ∈ q.captures o.nested, shared r) : Replaces o shared R [] p i [q] := by
  refine replaces_of_eq o (fun σ hσ => ?_) hcaptures
  obtain ⟨τ, hok, hexit⟩ := hp σ
  rw [hq, Play.bind_ok hok, ← o.playAll_singleton i]
  exact Play.andThen_ok hok (hexit.trans hσ) _

theorem replaces_moves (a0 a1 a2 a3 b0 b1 b2 b3 : Int64) :
    Replaces o shared R [] ⟨.move, a0, a1, a2, a3⟩ ⟨.move, b0, b1, b2, b3⟩
      [⟨.doubleMove, a0, a1, b0, b1⟩] :=
  replaces_of_bind o (fun σ => ⟨σ.write a0 (σ.read a1), rfl, by simp⟩) rfl
    (by simp [Instruction.captures])

theorem replaces_loads (a0 a1 a2 a3 b0 b1 b2 b3 : Int64) :
    Replaces o shared R [] ⟨.load, a0, a1, a2, a3⟩ ⟨.load, b0, b1, b2, b3⟩
      [⟨.doubleLoad, a0, a1, b0, b1⟩] :=
  replaces_of_bind o (fun σ => ⟨σ.write a0 (o.literal a1), rfl, by simp⟩) rfl
    (by simp [Instruction.captures])

theorem toInt_add_of_le {c d : Int64} (hc : 0 ≤ c.toInt) (hd : 0 ≤ d.toInt)
    (hsum : c.toInt + d.toInt ≤ Int64.maxValue.toInt) : (c + d).toInt = c.toInt + d.toInt := by
  rw [Int64.toInt_maxValue] at hsum
  rw [Int64.toInt_add, Int.bmod_eq_of_le (by omega) (by omega)]

theorem registerRun_add {start c d : Int64} (hc : 0 ≤ c.toInt) (hd : 0 ≤ d.toInt)
    (hsum : c.toInt + d.toInt ≤ Int64.maxValue.toInt) :
    registerRun start (c + d) = registerRun start c ++ registerRun (start + c) d := by
  have hadd : (c + d).toInt.toNat = c.toInt.toNat + d.toInt.toNat := by
    rw [toInt_add_of_le hc hd hsum]
    omega
  have hofNat : Int64.ofNat c.toInt.toNat = c := by
    rw [← Int64.ofInt_eq_ofNat, Int.toNat_of_nonneg hc, Int64.ofInt_toInt]
  unfold registerRun
  rw [hadd, List.range_add, List.map_append, List.map_map]
  congr 1
  refine List.map_congr_left fun k _ => ?_
  simp only [Function.comp_apply, Int64.ofNat_add, hofNat, Int64.add_assoc]

theorem replaces_nulls (a0 a1 a2 a3 b1 b2 b3 : Int64) (ha : 0 ≤ a1.toInt) (hb : 0 ≤ b1.toInt)
    (hsum : a1.toInt + b1.toInt ≤ Int64.maxValue.toInt) :
    Replaces o shared R [] ⟨.loadNulls, a0, a1, a2, a3⟩ ⟨.loadNulls, a0 + a1, b1, b2, b3⟩
      [⟨.loadNulls, a0, a1 + b1, 0, 0⟩] := by
  refine replaces_of_bind o (fun σ => ⟨σ.clear (registerRun a0 a1), rfl, by simp⟩)
    (funext fun σ => ?_) (by simp [Instruction.captures])
  show EStateM.Result.ok () (σ.clear (registerRun a0 (a1 + b1))) =
    .ok () ((σ.clear (registerRun a0 a1)).clear (registerRun (a0 + a1) b1))
  rw [registerRun_add ha hb hsum, Scene.clear_append]

theorem replaces_closing (a0 a1 a2 a3 b0 b1 b2 b3 : Int64) :
    Replaces o shared R [] ⟨.close, a0, a1, a2, a3⟩ ⟨.ret, b0, b1, b2, b3⟩
      [⟨.ret, b0, b1, b2, b3⟩] := by
  refine replaces_of_eq o (fun σ hσ => ?_) (by simp [Instruction.captures])
  refine (Play.andThen_ok (τ := σ.close a1) rfl hσ _).trans ?_
  rw [o.playAll_singleton]
  show (Play.optionalRegister b0 >>= Play.leave) (σ.close a1) =
    (Play.optionalRegister b0 >>= Play.leave) σ
  unfold Play.optionalRegister
  split
  · show EStateM.Result.ok () ((σ.close a1).leave ((σ.close a1).read b0)) =
      .ok () (σ.leave (σ.read b0))
    rw [Scene.read_close]
    rfl
  · rfl

/-! ## The last call -/

def Value.isClosure : Value → Bool
  | .closure _ => true
  | _ => false

/-- What a call gives, and what becomes of it. -/
theorem play_call (a0 a1 a2 a3 : Int64) (σ : Scene H) :
    o.play ⟨.call, a0, a1, a2, a3⟩ σ =
      (o.callResult ⟨.call, a0, a1, a2, a3⟩ (σ.read a1) >>= Play.setOptional a0) σ := rfl

theorem play_tailCall (a0 a1 a2 a3 : Int64) (σ : Scene H) :
    o.play ⟨.tailCall, a0, a1, a2, a3⟩ σ =
      if (σ.read a1).isClosure then
        (o.callResult ⟨.call, a0, a1, a2, a3⟩ (σ.read a1) >>= Play.leave) σ
      else o.play ⟨.call, a0, a1, a2, a3⟩ σ := by
  rw [play_call]
  refine (Play.bind_ok (show Play.register a1 σ = .ok (σ.read a1) σ from rfl) _).trans ?_
  cases σ.read a1 <;> rfl

theorem play_ret {r : Int64} (hr : isPresent r = true) (b1 b2 b3 : Int64) (σ : Scene H) :
    o.play ⟨.ret, r, b1, b2, b3⟩ σ = .ok () (σ.leave (σ.read r)) := by
  show (Play.optionalRegister r >>= Play.leave) σ = _
  unfold Play.optionalRegister
  rw [if_pos hr]
  rfl

/-- The value of the call is the value of the frame, whoever hands it over. -/
theorem replaces_callLast (a0 a1 a2 a3 b1 b2 b3 : Int64) (ha : isPresent a0 = true)
    (hshared : ¬ shared a0) :
    Replaces o shared R [] ⟨.call, a0, a1, a2, a3⟩ ⟨.ret, a0, b1, b2, b3⟩
      [⟨.tailCall, a0, a1, a2, a3⟩, ⟨.ret, a0, b1, b2, b3⟩] := by
  intro σ hσ
  show Outcome _ R ((o.play ⟨.call, a0, a1, a2, a3⟩).andThen (o.playAll [⟨.ret, a0, b1, b2, b3⟩]) σ)
    ((o.play ⟨.tailCall, a0, a1, a2, a3⟩).andThen (o.playAll [⟨.ret, a0, b1, b2, b3⟩]) σ)
  rw [o.playAll_singleton]
  have hout := Takes.callResult (i := ⟨.call, a0, a1, a2, a3⟩) o
    (fun _ _ => List.not_mem_nil) (σ.read a1) σ σ hσ
  cases hcall : o.callResult ⟨.call, a0, a1, a2, a3⟩ (σ.read a1) σ with
  | error e τ =>
    have hplain : o.play ⟨.call, a0, a1, a2, a3⟩ σ = .error e τ := Play.bind_error hcall _
    have hlast : o.play ⟨.tailCall, a0, a1, a2, a3⟩ σ = .error e τ := by
      rw [play_tailCall, hplain, Play.bind_error hcall]
      split <;> rfl
    rw [Play.andThen_error hplain, Play.andThen_error hlast]
    exact .error (.refl R τ)
  | ok v τ =>
    rw [hcall] at hout
    have hτ : Alike shared R [] τ τ := by
      cases hout with
      | ok h => exact h
    have hown : τ.cellOf a0 = none := hτ.own hshared
    have hplain : o.play ⟨.call, a0, a1, a2, a3⟩ σ = .ok () (τ.write a0 v) := by
      rw [play_call, Play.bind_ok hcall]
      unfold Play.setOptional
      rw [if_pos ha]
      rfl
    rw [Play.andThen_ok hplain (by simp [hτ.running]), play_ret o ha, Scene.read_write]
    by_cases hclosure : (σ.read a1).isClosure = true
    · have hlast : o.play ⟨.tailCall, a0, a1, a2, a3⟩ σ = .ok () (τ.leave v) := by
        rw [play_tailCall, if_pos hclosure, Play.bind_ok hcall]
        rfl
      rw [Play.andThen_exit hlast rfl]
      refine .ok (.inr ⟨rfl, ⟨?_, rfl, rfl, fun _ _ => rfl⟩⟩)
      simp [Scene.leave, Scene.write, hown]
    · have hlast : o.play ⟨.tailCall, a0, a1, a2, a3⟩ σ = .ok () (τ.write a0 v) := by
        rw [play_tailCall, if_neg hclosure, hplain]
      rw [Play.andThen_ok hlast (by simp [hτ.running]), play_ret o ha, Scene.read_write]
      exact .ok (.inr ⟨rfl, .refl R _⟩)

/-! ## Values that are written back -/

theorem setOptional_read {r : Int64} {v : Value} (h : σ.read r = v) :
    o.actions.setOptional r v σ = .ok () σ := by
  subst h
  unfold Actions.setOptional
  split
  · show EStateM.Result.ok () (σ.write r (σ.read r)) = _
    rw [Scene.write_read]
  · rfl

theorem mem_without_optional {r s : Int64} (hs : s ∉ D) :
    r ∈ D ↔ r ∈ without D (Instruction.optional s) := by
  simp only [mem_without_iff, Instruction.optional]
  refine ⟨fun hr => ⟨hr, fun hmem => ?_⟩, And.left⟩
  split at hmem
  · exact hs (List.mem_singleton.1 hmem ▸ hr)
  · cases hmem

theorem Takes.storeBack {put : Value → Value → Value → Deed H Unit} (i : Instruction)
    (hback : i.arg0 = i.arg3) (hshared : ¬ shared i.arg0) (h1 : i.arg1 ∉ D) (h2 : i.arg2 ∉ D)
    (h3 : i.arg3 ∉ D) :
    Takes shared R D (Alike shared R (without D (Instruction.optional i.arg0)))
      (o.actions.store (fun obj key v => Play.onWorld (put obj key v)) i)
      (o.actions.store (fun obj key v => Play.onWorld (put obj key v)) { i with arg0 := absent }) := by
  intro σ τ h
  have hown : σ.cellOf i.arg0 = none := h.own hshared
  let act := put (σ.read i.arg1) (σ.read i.arg2) (σ.read i.arg3)
  have hact : put (τ.read i.arg1) (τ.read i.arg2) (τ.read i.arg3) = act := by
    rw [← h.read_eq h1, ← h.read_eq h2, ← h.read_eq h3]
  show Outcome _ R
    ((Play.onWorld act >>= fun _ => o.actions.setOptional i.arg0 (σ.read i.arg3)) σ)
    ((Play.onWorld (put (τ.read i.arg1) (τ.read i.arg2) (τ.read i.arg3)) >>= fun _ =>
      o.actions.setOptional absent (τ.read i.arg3)) τ)
  rw [hact]
  cases hw : act σ.world with
  | error e w =>
    rw [Play.bind_error (Play.onWorld_error hw), Play.bind_error (Play.onWorld_error (h.world ▸ hw))]
    exact .error (h.withWorld w).toRun
  | ok a w =>
    rw [Play.bind_ok (Play.onWorld_ok hw), Play.bind_ok (Play.onWorld_ok (h.world ▸ hw))]
    -- the operation has not touched the register
    have hkept : Scene.read { σ with world := w } i.arg0 = σ.read i.arg3 := by
      rw [← hback]
      simp only [Scene.read, hown]
    rw [setOptional_read o hkept]
    exact .ok ((h.withWorld w).congr fun r => mem_without_optional (hback ▸ h3))

theorem Takes.outerBack (i : Instruction) (hback : i.arg0 = i.arg2) (h2 : i.arg2 ∉ D) :
    Takes shared R D (Alike shared R (without D (Instruction.optional i.arg0)))
      (o.actions.setOuter i) (o.actions.setOuter { i with arg0 := absent }) := by
  intro σ τ h
  have hkept : (σ.writeCell (o.outer i.arg1.toInt.toNat) (σ.read i.arg2)).read i.arg0 =
      σ.read i.arg2 := by
    rw [hback]
    exact σ.read_writeCell _ i.arg2
  show Outcome _ R
    (o.actions.setOptional i.arg0 (σ.read i.arg2)
      (σ.writeCell (o.outer i.arg1.toInt.toNat) (σ.read i.arg2)))
    (.ok () (τ.writeCell (o.outer i.arg1.toInt.toNat) (τ.read i.arg2)))
  rw [← h.read_eq h2, setOptional_read o hkept]
  exact .ok ((h.writeCell _ _).congr fun r => mem_without_optional (hback ▸ h2))

end ScriptMachine
