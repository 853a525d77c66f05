import ScriptMachine.Builder.Draft
import ScriptMachine.Machine.Globals
import ScriptMachine.Proofs.Fusion.Rules

/-!
# Fused streams

Straight-line code that is appended with fusion has the outcome of the same code
appended as it is, up to the registers whose writes fusion has dropped.
-/

set_option autoImplicit false

namespace ScriptMachine

/-! ## Streams that agree -/

variable {H : Type} (o : Operations H) {shared : Int64 → Prop} {R D D' : List Int64}

/-- A run of nulls lies within a frame. -/
def Instruction.InFrame (i : Instruction) : Prop :=
  i.opcode = .loadNulls →
    0 ≤ i.arg0.toInt ∧ 0 ≤ i.arg1.toInt ∧ i.arg0.toInt + i.arg1.toInt ≤ Draft.maxStackSize

instance : DecidablePred Instruction.InFrame := fun i =>
  inferInstanceAs (Decidable (i.opcode = .loadNulls → 0 ≤ i.arg0.toInt ∧ 0 ≤ i.arg1.toInt ∧
    i.arg0.toInt + i.arg1.toInt ≤ Draft.maxStackSize))

/-- The stream `cs` does what the instructions `is` do, but for the stale
registers `D`. -/
structure Tracks (shared : Int64 → Prop) (R D : List Int64) (is cs : List Instruction) : Prop where
  outcome : ∀ σ : Scene H, Alike shared R [] σ σ →
    Outcome (Goes shared R D) R (o.playAll is σ) (o.playAll cs σ)
  captures : ∀ i ∈ cs, ∀ r ∈ i.captures o.nested, shared r
  inFrame : ∀ i ∈ cs, i.InFrame

section

variable {σ τ υ : Scene H}

theorem SameBut.append {D₁ D₂ : List Int64} (h₁ : SameBut D₁ σ τ) (h₂ : SameBut D₂ τ υ) :
    SameBut (D₁ ++ D₂) σ υ :=
  (h₁.weaken (List.subset_append_left ..)).trans (h₂.weaken (List.subset_append_right ..))

theorem Goes.trans {D₁ D₂ : List Int64} (h₁ : Goes shared R D₁ σ τ) (h₂ : Goes shared R D₂ τ υ) :
    Goes shared R (D₁ ++ D₂) σ υ := by
  rcases h₁ with h₁ | ⟨hexit, h₁⟩
  · rcases h₂ with h₂ | ⟨hexit, -⟩
    · refine .inl ⟨h₁.toSameBut.append h₂.toSameBut, h₁.running, h₁.confined, fun r hr => ?_⟩
      exact (List.mem_append.1 hr).elim (h₁.stale r) (h₂.stale r)
    · rw [← h₁.exit, h₁.running] at hexit
      cases hexit
  · rcases h₂ with h₂ | ⟨-, h₂⟩
    · rw [h₁.exit, h₂.running] at hexit
      cases hexit
    · exact .inr ⟨hexit, h₁.trans h₂⟩

theorem Outcome.trans {α : Type} {D₁ D₂ : List Int64}
    {a b c : EStateM.Result ScriptError (Scene H) α}
    (h₁ : Outcome (Goes shared R D₁) R a b) (h₂ : Outcome (Goes shared R D₂) R b c) :
    Outcome (Goes shared R (D₁ ++ D₂)) R a c := by
  cases h₁ with
  | ok h₁ =>
    cases h₂ with
    | ok h₂ => exact .ok (h₁.trans h₂)
  | error h₁ =>
    cases h₂ with
    | error h₂ => exact .error (h₁.trans h₂)

theorem Outcome.andThen {x y f g : Play H Unit}
    (h : Outcome (Goes shared R D) R (x σ) (y τ))
    (hfg : ∀ σ τ, Alike shared R D σ τ → Outcome (Goes shared R D') R (f σ) (g τ)) :
    Outcome (Goes shared R D') R (x.andThen f σ) (y.andThen g τ) := by
  cases hx : x σ with
  | error e σ' =>
    rw [hx] at h
    cases hy : y τ with
    | ok b τ' => rw [hy] at h; cases h
    | error e' τ' =>
      rw [hy] at h
      rw [Play.andThen_error hx, Play.andThen_error hy]
      cases h with
      | error h => exact .error h
  | ok a σ' =>
    rw [hx] at h
    cases hy : y τ with
    | error e τ' => rw [hy] at h; cases h
    | ok b τ' =>
      rw [hy] at h
      cases h with
      | ok h =>
        rcases h with h | ⟨hexit, h⟩
        · rw [Play.andThen_ok hx h.running, Play.andThen_ok hy (h.exit ▸ h.running)]
          exact hfg _ _ h
        · rw [Play.andThen_exit hx hexit, Play.andThen_exit hy (h.exit ▸ hexit)]
          exact .ok (.inr ⟨hexit, h⟩)

theorem Alike.eq (h : Alike shared R [] σ τ) : σ = τ := by
  obtain ⟨⟨hworld, hcell, hexit, hregisters⟩, -, -, -⟩ := h
  obtain ⟨w, rs, cs, e⟩ := σ
  obtain ⟨w', rs', cs', e'⟩ := τ
  cases hworld
  cases hcell
  cases hexit
  have hrs : rs = rs' := funext fun r => hregisters r List.not_mem_nil
  rw [hrs]

end

theorem Takes.playAll {cs : List Instruction} (h : ∀ i ∈ cs, ∀ r ∈ i.captures o.nested, shared r) :
    Takes shared R [] (Goes shared R []) (o.playAll cs) (o.playAll cs) := by
  induction cs with
  | nil => exact (Takes.pure ()).goes
  | cons i cs ih =>
    intro σ τ hστ
    have hi := Takes.play (R := R) o (fun _ _ => List.not_mem_nil) (h i List.mem_cons_self) σ τ hστ
    refine hi.andThen fun σ' τ' h' => ?_
    exact ih (fun j hj => h j (List.mem_cons_of_mem _ hj)) σ' τ' (h'.congr fun r => by simp)

namespace Tracks

variable {is cs qs : List Instruction} {p i n : Instruction}

theorem nil : Tracks o shared R [] [] [] :=
  ⟨fun _ h => .ok (.inl h), by simp, by simp⟩

/-- Another instruction for both, which may come in two versions. -/
theorem append (h : Tracks o shared R D is cs)
    (hn : Takes shared R D (Goes shared R D') (o.play i) (o.play n))
    (hcaptures : ∀ r ∈ n.captures o.nested, shared r) (hframe : n.InFrame) :
    Tracks o shared R D' (is ++ [i]) (cs ++ [n]) where
  outcome σ hσ := by
    rw [o.playAll_append hσ.running, o.playAll_append hσ.running, o.playAll_singleton,
      o.playAll_singleton]
    exact (h.outcome σ hσ).andThen hn
  captures j hj := by
    rcases List.mem_append.1 hj with hj | hj
    · exact h.captures j hj
    · exact List.mem_singleton.1 hj ▸ hcaptures
  inFrame j hj := by
    rcases List.mem_append.1 hj with hj | hj
    · exact h.inFrame j hj
    · exact List.mem_singleton.1 hj ▸ hframe

/-- The last instruction of the stream and a new one give way to others. -/
theorem replace (h : Tracks o shared R D is (cs ++ [p]))
    (hi : Takes shared R D (Goes shared R D') (o.play i) (o.play i))
    {D₁ : List Int64} (hq : Replaces o shared R D₁ p i qs)
    (hcaptures : ∀ j ∈ qs, ∀ r ∈ j.captures o.nested, shared r) (hframe : ∀ j ∈ qs, j.InFrame) :
    Tracks o shared R (D' ++ D₁) (is ++ [i]) (cs ++ qs) where
  outcome σ hσ := by
    have hcs := Takes.playAll (R := R) o fun j hj => h.captures j (List.mem_append_left _ hj)
    have hsame : Outcome (Goes shared R D') R (o.playAll (is ++ [i]) σ)
        (o.playAll (cs ++ [p] ++ [i]) σ) := by
      rw [o.playAll_append hσ.running, o.playAll_append hσ.running, o.playAll_singleton]
      exact (h.outcome σ hσ).andThen hi
    have hlast : Outcome (Goes shared R D₁) R (o.playAll (cs ++ [p] ++ [i]) σ)
        (o.playAll (cs ++ qs) σ) := by
      rw [List.append_assoc, o.playAll_append hσ.running, o.playAll_append hσ.running]
      refine (hcs σ σ hσ).andThen fun τ υ hτυ => ?_
      cases hτυ.eq
      exact hq τ hτυ
    exact hsame.trans hlast
  captures j hj := by
    rcases List.mem_append.1 hj with hj | hj
    · exact h.captures j (List.mem_append_left _ hj)
    · exact hcaptures j hj
  inFrame j hj := by
    rcases List.mem_append.1 hj with hj | hj
    · exact h.inFrame j (List.mem_append_left _ hj)
    · exact hframe j hj

theorem congr (h : Tracks o shared R D is cs) (hD : ∀ r, r ∈ D ↔ r ∈ D') :
    Tracks o shared R D' is cs where
  outcome σ hσ := by
    have hout := h.outcome σ hσ
    generalize o.playAll is σ = a at hout ⊢
    generalize o.playAll cs σ = b at hout ⊢
    cases hout with
    | ok hout => exact .ok (hout.congr hD)
    | error hout => exact .error hout
  captures := h.captures
  inFrame := h.inFrame

end Tracks

/-! ## Drafts -/

/-- The registers whose write a fusion drops: what the previous instruction filled
is handed on or goes elsewhere. -/
def droppedBy (p q : Instruction) : List Int64 :=
  match q.opcode with
  | .doubleMove | .doubleLoad | .loadNulls | .ret => []
  | _ => [p.arg0]

/-- What the compiler takes care of where two instructions are fused. -/
def Compatible (shared : Int64 → Prop) (isLocal : Int64 → Bool) (p i : Instruction) :
    Fusion → Prop
  | .append n => n ≠ i → i.opcode ≠ .setOuter → ¬ shared i.arg0
  | .replace q _ =>
    match q.opcode with
    | .getLiteral | .prepareCallLiteral | .eqLiteral | .neqLiteral => p.arg0 ≠ i.arg2
    | .append => p.arg0 ≠ i.arg0
    | .jumpUnless => isLocal p.arg0 = false
    | _ => True
  | .adjust _ _ => p.arg0 = i.arg0 ∧ ¬ shared p.arg0

instance {shared : Int64 → Prop} [DecidablePred shared] {isLocal : Int64 → Bool}
    {p i : Instruction} : DecidablePred (Compatible shared isLocal p i)
  | .append n => inferInstanceAs (Decidable (n ≠ i → i.opcode ≠ .setOuter → ¬ shared i.arg0))
  | .replace q _ => by
    unfold Compatible
    dsimp only
    split <;> infer_instance
  | .adjust _ _ => inferInstanceAs (Decidable (p.arg0 = i.arg0 ∧ ¬ shared p.arg0))

namespace Draft

/-- What becomes of an instruction that is appended with fusion. -/
def fusion (d : Draft) (nested : Bool) (i : Instruction) : Fusion :=
  fuse d.code.back? i d.state (d.fusionContext nested)

def dropped (d : Draft) (nested : Bool) (i : Instruction) : List Int64 :=
  match d.code.back?, d.fusion nested i with
  | some p, .replace q _ => droppedBy p q
  | _, _ => []

/-- The stale registers after another instruction. -/
def stale (d : Draft) (nested : Bool) (D : List Int64) (i : Instruction) : List Int64 :=
  without (D ++ d.dropped nested i) i.writes

/-- An instruction that a careful compiler appends: it reads no stale register. -/
structure Careful (shared : Int64 → Prop) (d : Draft) (nested : Bool) (D : List Int64)
    (i : Instruction) : Prop where
  reads : ∀ r ∈ i.reads o.nested, r ∉ D
  captures : ∀ r ∈ i.captures o.nested, shared r
  inFrame : i.InFrame
  compatible : ∀ p, d.code.back? = some p →
    Compatible shared d.isLocalRegister p i (d.fusion nested i)

-- the instances for lists are named: those for finite types try every register
instance [DecidablePred shared] {d : Draft} {nested : Bool} {i : Instruction} :
    Decidable (d.Careful o shared nested D i) :=
  have : Decidable (∀ r ∈ i.reads o.nested, r ∉ D) := List.decidableBAll _ _
  have : Decidable (∀ r ∈ i.captures o.nested, shared r) := List.decidableBAll _ _
  have : Decidable (∀ p, d.code.back? = some p →
      Compatible shared d.isLocalRegister p i (d.fusion nested i)) :=
    Option.decidableForallMem _
  decidable_of_iff ((∀ r ∈ i.reads o.nested, r ∉ D) ∧ (∀ r ∈ i.captures o.nested, shared r) ∧
      i.InFrame ∧ ∀ p, d.code.back? = some p →
        Compatible shared d.isLocalRegister p i (d.fusion nested i))
    ⟨fun h => ⟨h.1, h.2.1, h.2.2.1, h.2.2.2⟩,
      fun h => ⟨h.reads, h.captures, h.inFrame, h.compatible⟩⟩

def AllCareful (shared : Int64 → Prop) (nested : Bool) :
    Draft → List Int64 → List Instruction → Prop
  | _, _, [] => True
  | d, D, i :: is =>
    d.Careful o shared nested D i ∧
      AllCareful shared nested (d.emit nested i) (d.stale nested D i) is

instance decidableAllCareful [DecidablePred shared] (nested : Bool) :
    (d : Draft) → (D : List Int64) → (is : List Instruction) →
      Decidable (AllCareful o shared nested d D is)
  | _, _, [] => isTrue trivial
  | d, D, i :: is =>
    @instDecidableAnd _ _ inferInstance
      (decidableAllCareful nested (d.emit nested i) (d.stale nested D i) is)

variable {d : Draft} {nested : Bool}

theorem emit_fused (hd : d.optimize = true) (i : Instruction) :
    d.emit nested i = d.applyFusion (d.fusion nested i) := by
  simp [emit, hd, emitFused, fusion]

/-- Either nothing is fused, or a rule applies to the last instruction. -/
theorem fusion_cases (d : Draft) (nested : Bool) (i : Instruction) :
    d.fusion nested i = .append i ∨
      ∃ p, d.code.back? = some p ∧ Fused (d.fusionContext nested) p i (d.fusion nested i) := by
  unfold fusion fuse
  cases hp : d.code.back? with
  | none => exact .inl rfl
  | some p =>
    cases d.state with
    | armed => exact .inr ⟨p, rfl, fused_ofPair _ p i⟩
    | suppressed => exact .inl rfl

theorem toList_of_back? {p : Instruction} (hp : d.code.back? = some p) :
    ∃ cs, d.code.toList = cs ++ [p] := by
  rw [← Array.getLast?_toList] at hp
  exact List.getLast?_eq_some_iff.1 hp

theorem toList_replaceLast {cs : List Instruction} {p : Instruction} (h : d.code.toList = cs ++ [p])
    (q : Instruction) : (d.code.setIfInBounds (d.code.size - 1) q).toList = cs ++ [q] := by
  have hsize : d.code.size - 1 = cs.length := by
    rw [← Array.length_toList, h]
    simp
  rw [Array.toList_setIfInBounds, h, hsize]
  simp

theorem dropped_eq {p : Instruction} (hp : d.code.back? = some p) (i : Instruction) :
    d.dropped nested i = match d.fusion nested i with
      | .replace q _ => droppedBy p q
      | _ => [] := by
  unfold dropped
  rw [hp]
  cases d.fusion nested i <;> rfl

end Draft

section

variable {p i q : Instruction}

/-- The one instruction that a fusion leaves in place of two. -/
theorem Fused.replaces {ctx : FusionContext} {s : EmitterState} (h : Fused ctx p i (.replace q s))
    (hcompatible : Compatible shared ctx.isLocal p i (.replace q s))
    (hlocal : ∀ r, shared r → ctx.isLocal r = true) (hR : ∀ r ∈ droppedBy p q, r ∈ R)
    (hp : p.InFrame) (hi : i.InFrame) :
    Replaces o shared R (without (droppedBy p q) i.writes) p i [q] := by
  have hown : ∀ r, ctx.isLocal r = false → ¬ shared r := by
    intro r hr hs
    rw [hlocal r hs] at hr
    cases hr
  obtain ⟨op, a0, a1, a2, a3⟩ := p
  obtain ⟨op', b0, b1, b2, b3⟩ := i
  cases h with
  | closing hpop hiop =>
    cases hpop
    cases hiop
    exact replaces_closing o a0 a1 a2 a3 b0 b1 b2 b3
  | branch hpop hiop hback =>
    cases hpop
    cases hiop
    cases hback
    have ht := And.intro (hR a0 (by simp [droppedBy])) (hown a0 hcompatible)
    exact replaces_branch o a0 a1 a2 a3 b1 b2 b3 ht
  | get hpop hiop hkey htemp =>
    cases hpop
    cases hiop
    cases hkey
    have ht := And.intro (hR a0 (by simp [droppedBy])) (hown a0 htemp)
    exact replaces_get o a0 a1 a2 a3 b0 b2 b3 ht hcompatible
  | prepareCall hpop hiop hkey htemp =>
    cases hpop
    cases hiop
    cases hkey
    have ht := And.intro (hR a0 (by simp [droppedBy])) (hown a0 htemp)
    exact replaces_prepareCall o a0 a1 a2 a3 b0 b2 b3 ht hcompatible
  | eq hpop hiop hkey htemp =>
    cases hpop
    cases hiop
    cases hkey
    have ht := And.intro (hR a0 (by simp [droppedBy])) (hown a0 htemp)
    exact replaces_eq o a0 a1 a2 a3 b0 b2 b3 ht hcompatible
  | neq hpop hiop hkey htemp =>
    cases hpop
    cases hiop
    cases hkey
    have ht := And.intro (hR a0 (by simp [droppedBy])) (hown a0 htemp)
    exact replaces_neq o a0 a1 a2 a3 b0 b2 b3 ht hcompatible
  | append hsource hiop hkind hkey htemp =>
    cases hiop
    cases hkind
    cases hkey
    have ht := And.intro (hR a0 (by simp [droppedBy])) (hown a0 htemp)
    exact replaces_append o a0 a1 a2 a3 b0 b3 ht hsource hcompatible
  | retarget hop hiop hkey htemp =>
    cases hiop
    cases hkey
    have hdropped : droppedBy ⟨op, a0, a1, a2, a3⟩ ⟨op, b0, a1, a2, a3⟩ = [a0] := by
      cases op <;> first | rfl | cases hop
    rw [hdropped] at hR ⊢
    have ht := And.intro (hR a0 (by simp)) (hown a0 htemp)
    exact replaces_retarget o a0 a1 a2 a3 b0 b2 b3 ht hop
  | moves hpop hiop =>
    cases hpop
    cases hiop
    exact replaces_moves o a0 a1 a2 a3 b0 b1 b2 b3
  | loads hpop hiop =>
    cases hpop
    cases hiop
    exact replaces_loads o a0 a1 a2 a3 b0 b1 b2 b3
  | nulls hpop hiop hnext =>
    cases hpop
    cases hiop
    obtain rfl : a0 + a1 = b0 := hnext
    obtain ⟨ha0, ha, hasum⟩ := hp rfl
    obtain ⟨hb0, hb, hbsum⟩ := hi rfl
    dsimp only [Draft.maxStackSize] at ha0 ha hasum hb0 hb hbsum
    exact replaces_nulls o a0 a1 a2 a3 b1 b2 b3 ha hb (by rw [Int64.toInt_maxValue]; omega)

/-- An instruction that leaves out to write back the value it has read. -/
theorem Fused.back {ctx : FusionContext} {n : Instruction} (h : Fused ctx p i (.append n))
    (hne : n ≠ i) (hshared : i.opcode ≠ .setOuter → ¬ shared i.arg0)
    (hreads : ∀ r ∈ i.reads o.nested, r ∉ D) :
    Takes shared R D (Goes shared R (without D i.writes)) (o.play i) (o.play n) ∧
      (∀ r ∈ n.captures o.nested, shared r) ∧ n.InFrame := by
  obtain ⟨op, a0, a1, a2, a3⟩ := i
  cases h with
  | kept => exact absurd rfl hne
  | storeBack hop hback =>
    rcases hop with hop | hop
    · cases hop
      refine ⟨Takes.goes (Takes.storeBack o ⟨.assign, a0, a1, a2, a3⟩ hback (hshared (by simp))
        ?_ ?_ ?_), ?_, ?_⟩
      · exact hreads a1 (by simp [Instruction.reads])
      · exact hreads a2 (by simp [Instruction.reads])
      · exact hreads a3 (by simp [Instruction.reads])
      · simp [Instruction.captures]
      · simp [Instruction.InFrame]
    · cases hop
      refine ⟨Takes.goes (Takes.storeBack o ⟨.newSlot, a0, a1, a2, a3⟩ hback (hshared (by simp))
        ?_ ?_ ?_), ?_, ?_⟩
      · exact hreads a1 (by simp [Instruction.reads])
      · exact hreads a2 (by simp [Instruction.reads])
      · exact hreads a3 (by simp [Instruction.reads])
      · simp [Instruction.captures]
      · simp [Instruction.InFrame]
  | outerBack hop hback =>
    cases hop
    refine ⟨Takes.goes (Takes.outerBack o ⟨.setOuter, a0, a1, a2, a3⟩ hback ?_), ?_, ?_⟩
    · exact hreads a2 (by simp [Instruction.reads])
    · simp [Instruction.captures]
    · simp [Instruction.InFrame]

theorem Fused.captures_eq {ctx : FusionContext} {s : EmitterState} (h : Fused ctx p i (.replace q s))
    (nested : Int64 → Prototype) : q.captures nested = [] := by
  have hne : q.opcode ≠ .closure := by
    cases h with
    | closing _ hiop => simp [hiop]
    | retarget hop =>
      intro hq
      rw [show p.opcode = .closure from hq] at hop
      cases hop
    | _ => simp
  simp [Instruction.captures, hne]

theorem Fused.inFrame {ctx : FusionContext} {s : EmitterState} (h : Fused ctx p i (.replace q s))
    (hp : p.InFrame) (hi : i.InFrame) : q.InFrame := by
  intro hq
  cases h with
  | nulls hpop hiop hnext =>
    obtain ⟨ha0, ha, hasum⟩ := hp hpop
    obtain ⟨hb0, hb, hbsum⟩ := hi hiop
    have hmax := Int64.toInt_maxValue
    dsimp only [Draft.maxStackSize] at hasum hbsum ⊢
    rw [← hnext, toInt_add_of_le ha0 ha (by omega)] at hbsum
    rw [toInt_add_of_le ha hb (by omega)]
    omega
  | closing _ hiop =>
    rw [hiop] at hq
    cases hq
  | retarget hop =>
    rw [show p.opcode = .loadNulls from hq] at hop
    cases hop
  | _ => cases hq

end

section

variable {d : Draft} {nested : Bool} {is : List Instruction} {i : Instruction}

theorem Tracks.emit (h : Tracks o shared R D is d.code.toList) (hd : d.optimize = true)
    (hlocal : ∀ r, shared r → d.isLocalRegister r = true) (hR : ∀ r ∈ d.dropped nested i, r ∈ R)
    (hc : d.Careful o shared nested D i) :
    Tracks o shared R (d.stale nested D i) (is ++ [i]) (d.emit nested i).code.toList := by
  have hplay : Takes shared R D (Goes shared R (without D i.writes)) (o.play i) (o.play i) :=
    Takes.play o hc.reads hc.captures
  rw [Draft.emit_fused hd]
  unfold Draft.stale
  have hkeep : ∀ n, Takes shared R D (Goes shared R (without D i.writes)) (o.play i) (o.play n) →
      (∀ r ∈ n.captures o.nested, shared r) → n.InFrame →
      Tracks o shared R (without (D ++ []) i.writes) (is ++ [i])
        (d.applyFusion (.append n)).code.toList := by
    intro n hn hcaptures hframe
    simpa [Draft.applyFusion] using h.append o hn hcaptures hframe
  rcases d.fusion_cases nested i with hkept | ⟨p, hp, hfused⟩
  · have hnone : d.dropped nested i = [] := by
      unfold Draft.dropped
      rw [hkept]
      cases d.code.back? <;> rfl
    rw [hnone, hkept]
    exact hkeep i hplay hc.captures hc.inFrame
  · obtain ⟨cs, hcs⟩ := Draft.toList_of_back? hp
    have hcompatible := hc.compatible p hp
    rw [Draft.dropped_eq hp] at hR ⊢
    have hpframe : p.InFrame := h.inFrame p (by simp [hcs])
    generalize d.fusion nested i = f at hfused hcompatible hR ⊢
    cases f with
    | append n =>
      have hback : Takes shared R D (Goes shared R (without D i.writes)) (o.play i) (o.play n) ∧
          (∀ r ∈ n.captures o.nested, shared r) ∧ n.InFrame := by
        by_cases hni : n = i
        · rw [hni]
          exact ⟨hplay, hc.captures, hc.inFrame⟩
        · exact hfused.back o hni (hcompatible hni) hc.reads
      exact hkeep n hback.1 hback.2.1 hback.2.2
    | replace q s =>
      have hreplaces := hfused.replaces o hcompatible hlocal hR hpframe hc.inFrame
      rw [hcs] at h
      have hnew := h.replace o hplay hreplaces (by simp [hfused.captures_eq])
        (by simpa using hfused.inFrame hpframe hc.inFrame)
      rw [← Draft.toList_replaceLast hcs q] at hnew
      refine hnew.congr o fun r => ?_
      simp only [List.mem_append, mem_without_iff]
      tauto
    | adjust q n =>
      cases hfused with
      | callLast hpop hiop hpresent =>
        obtain ⟨op, a0, a1, a2, a3⟩ := p
        obtain ⟨op', b0, b1, b2, b3⟩ := i
        cases hpop
        cases hiop
        obtain ⟨hback, hshared⟩ := hcompatible
        obtain rfl : a0 = b0 := hback
        rw [hcs] at h
        have hnew := h.replace o hplay
          (replaces_callLast (R := R) o a0 a1 a2 a3 b1 b2 b3 hpresent hshared)
          (by simp [Instruction.captures]) (by simp [Instruction.InFrame])
        have hcode : (d.applyFusion (.adjust ⟨.tailCall, a0, a1, a2, a3⟩
            ⟨.ret, a0, b1, b2, b3⟩)).code.toList =
            cs ++ [⟨.tailCall, a0, a1, a2, a3⟩, ⟨.ret, a0, b1, b2, b3⟩] := by
          show ((d.code.setIfInBounds _ _).push _).toList = _
          rw [Array.toList_push, Draft.toList_replaceLast hcs, List.append_assoc]
          rfl
        rw [hcode]
        simpa using hnew

end

/-! ## The theorem -/

/-- How straight-line code can end: it goes on, jumps or returns, or it fails. -/
inductive SameEnd (D : List Int64) : EStateM.Result ScriptError (Scene H) Unit →
    EStateM.Result ScriptError (Scene H) Unit → Prop
  | ok {σ τ : Scene H} : SameBut D σ τ → SameEnd D (.ok () σ) (.ok () τ)
  | error {e : ScriptError} {σ τ : Scene H} : SameBut D σ τ → SameEnd D (.error e σ) (.error e τ)

/-- Arrays that never go, and weak references to them. The objects are counted. -/
def Operations.timeless : Operations Nat where
  literal index := .string ⟨⟨index.toInt.toNat⟩, if index = 0 then "weakref" else "ref"⟩
  nested _ := { name := "" }
  outer i := ⟨i⟩
  root := ⟨0⟩
  ownerBase := pure .null
  getMember obj key :=
    match obj, key with
    | .array _, .string t => pure (.native t.ref)
    | .weak _, .string t => pure (.native t.ref)
    | _, _ => throw (.typeError "no member")
  setMember _ _ _ := throw (.typeError "no member")
  newSlot _ _ _ := throw (.typeError "no member")
  newMember _ _ _ _ _ := throw (.typeError "no member")
  deleteSlot _ _ := throw (.typeError "no member")
  hasMember _ _ := pure false
  arith _ _ _ := throw (.typeError "no number")
  negate _ := throw (.typeError "no number")
  compare _ _ := throw (.typeError "no order")
  typeOf _ := pure .null
  instanceOf _ _ := pure false
  copy v := pure v
  pushItem _ _ := pure ()
  visit _ _ := pure none
  newObject _ _ _ := modifyGet fun (w : World Nat) =>
    (.array ⟨w.objects⟩, { w with objects := w.objects + 1 })
  closure _ _ _ := throw (.typeError "no closure")
  call callee args :=
    match callee, args with
    | .native ⟨0⟩, [.array r] => pure (.weak r)
    | .native ⟨1⟩, [.weak r] => pure (.array r)
    | _, _ => throw (.typeError "no function")

end ScriptMachine
