import ScriptMachine.Proofs.Builder.Operations

/-!
# Refused requests

A request to the function being built is checked before anything changes, so a refusal
leaves the function and those around it as they were. One request gives up the innermost
target first, and that stays given up when its register turns out not to be releasable.
-/

set_option autoImplicit false

namespace ScriptMachine

namespace Draft

/-- A request that can be refused. -/
inductive Request where
  | literal (l : Literal)
  | allocate
  | pushLocal (name : String)
  | addParameter (name : String)
  | pushTarget (target : Option Nat)
  | popTarget
  | topTarget
  | outerTarget (n : Nat)
  | addBreak
  | addContinue
  | endLoop (continueTo : Nat)

/-- An action with another view of its answer. -/
def answering {α β : Type} (f : α → β) (act : Drafting α) : Drafting β := fun d =>
  ((act d).1.map f, (act d).2)

/-- What the request answers, a place or nothing, and the draft after it. -/
def Request.perform : Request → Drafting (Option Nat)
  | .literal l => answering some (Draft.literal l)
  | .allocate => answering some Draft.allocate
  | .pushLocal name => answering some (Draft.pushLocal name)
  | .addParameter name => answering some (Draft.addParameter name)
  | .pushTarget target => answering some (Draft.pushTarget target)
  | .popTarget => answering some Draft.popTarget
  | .topTarget => answering some fun d => (d.topTarget, d)
  | .outerTarget n => answering some fun d => (d.outerTarget n, d)
  | .addBreak => answering (fun _ => none) Draft.addBreak
  | .addContinue => answering (fun _ => none) Draft.addContinue
  | .endLoop continueTo => answering (fun _ => none) (Draft.endLoop continueTo)

variable {α β : Type} {d : Draft} {e : BuildError} {pos : Nat}

theorem answering_refused {f : α → β} {act : Drafting α} :
    (answering f act d).1 = .error e ↔ (act d).1 = .error e := by
  unfold answering
  cases (act d).1 <;> simp [Except.map]

/-- A refusal leaves the draft as it was. -/
def Atomic (act : Drafting α) : Prop := ∀ d e, (act d).1 = .error e → (act d).2 = d

namespace Atomic

theorem answering {act : Drafting α} (h : Atomic act) (f : α → β) :
    Atomic (Draft.answering f act) := fun d e he => h d e (answering_refused.1 he)

theorem reading (ask : Draft → Except BuildError α) : Atomic fun d => (ask d, d) :=
  fun _ _ _ => rfl

theorem literal (l : Literal) : Atomic (Draft.literal l) := by
  intro d e he
  unfold Draft.literal at he ⊢
  split at he
  · cases he
  · split at he
    · rename_i hfull
      rw [if_pos hfull]
    · cases he

theorem pushSlot (name : Option String) : Atomic (Draft.pushSlot name) := by
  intro d e he
  unfold Draft.pushSlot at he ⊢
  dsimp only at he ⊢
  split at he
  · rename_i hfull
    rw [if_pos hfull]
  · cases he

theorem addParameter (name : String) : Atomic (Draft.addParameter name) := by
  intro d e he
  have h := pushSlot (some name) d
  unfold Draft.addParameter Draft.pushLocal at he ⊢
  generalize Draft.pushSlot (some name) d = r at h he ⊢
  obtain ⟨r | r, d'⟩ := r
  · exact h r rfl
  · cases he

theorem pushTarget (target : Option Nat) : Atomic (Draft.pushTarget target) := by
  intro d e he
  cases target with
  | some pos => cases he
  | none =>
    have h := pushSlot none d
    unfold Draft.pushTarget Draft.allocate at he ⊢
    generalize Draft.pushSlot none d = r at h he ⊢
    obtain ⟨r | r, d'⟩ := r
    · exact h r rfl
    · cases he

theorem addBreak : Atomic Draft.addBreak := by
  intro d e he
  unfold Draft.addBreak at he ⊢
  split at he
  · rfl
  · cases he

theorem addContinue : Atomic Draft.addContinue := by
  intro d e he
  unfold Draft.addContinue at he ⊢
  split at he
  · rfl
  · cases he

theorem endLoop (continueTo : Nat) : Atomic (Draft.endLoop continueTo) := by
  intro d e he
  unfold Draft.endLoop at he ⊢
  split at he
  · rfl
  · cases he

end Atomic

/-- All requests but one are atomic. -/
theorem Request.atomic {r : Request} (hr : r ≠ .popTarget) : Atomic r.perform := by
  cases r with
  | popTarget => exact absurd rfl hr
  | literal l => exact (Atomic.literal l).answering some
  | allocate => exact (Atomic.pushSlot none).answering some
  | pushLocal name => exact (Atomic.pushSlot (some name)).answering some
  | addParameter name => exact (Atomic.addParameter name).answering some
  | pushTarget target => exact (Atomic.pushTarget target).answering some
  | topTarget => exact (Atomic.reading _).answering some
  | outerTarget n => exact (Atomic.reading _).answering some
  | addBreak => exact Atomic.addBreak.answering _
  | addContinue => exact Atomic.addContinue.answering _
  | endLoop continueTo => exact (Atomic.endLoop continueTo).answering _

/-- The register can be given up as a target: a local stays in use, and a temporary must
be the topmost. -/
def Releasable (d : Draft) (pos : Nat) : Prop :=
  ∃ s, d.slots[pos]? = some s ∧ (s.name.isSome ∨ pos + 1 = d.slots.size)

/-- A target is refused when it cannot be given up, and is gone all the same. -/
theorem popTarget_refused (h : d.popTarget.1 = .error e) :
    (∀ pos ∈ d.targets.head?, ¬ d.Releasable pos) ∧
      d.popTarget.2 = { d with targets := d.targets.tail } := by
  unfold popTarget at h ⊢
  cases htargets : d.targets with
  | nil =>
    refine ⟨fun pos hpos => absurd hpos (by simp), ?_⟩
    show d = { d with targets := [] }
    rw [← htargets]
  | cons pos rest =>
    rw [htargets] at h
    dsimp only at h ⊢
    cases hs : d.slots[pos]? with
    | none =>
      refine ⟨fun p hp => ?_, rfl⟩
      obtain rfl : pos = p := Option.some.inj hp
      rintro ⟨s, hslot, -⟩
      rw [hs] at hslot
      cases hslot
    | some s =>
      simp only [hs] at h ⊢
      split at h
      · cases h
      · rename_i hname
        split at h
        · cases h
        · rename_i htop
          rw [if_neg hname, if_neg htop]
          refine ⟨fun p hp => ?_, rfl⟩
          obtain rfl : pos = p := Option.some.inj hp
          rintro ⟨t, ht, hor⟩
          rw [hs, Option.some.injEq] at ht
          subst ht
          exact hor.elim hname htop

end Draft

namespace Builder

open Draft (Request)

theorem drafting_atomic {α : Type} {act : Drafting α} (hact : Draft.Atomic act) (b : Builder)
    {e : BuildError} (h : (b.drafting act).1 = .error e) : (b.drafting act).2 = b := by
  have hcurrent := hact b.current e h
  unfold drafting
  dsimp only
  rw [hcurrent]

/-- A request that is refused leaves the function being built, and those around it, as they
were. There is one exception: a target whose register cannot be given up is no target any
more. -/
theorem refusal_keeps_all_but_target (b : Builder) (r : Request) {e : BuildError}
    (h : (b.drafting r.perform).1 = .error e) :
    (r ≠ .popTarget → (b.drafting r.perform).2 = b) ∧
      (r = .popTarget → (∀ pos ∈ b.current.targets.head?, ¬ b.current.Releasable pos) ∧
        (b.drafting r.perform).2 =
          { b with current := { b.current with targets := b.current.targets.tail } }) := by
  constructor
  · intro hr
    exact drafting_atomic (Request.atomic hr) b h
  · rintro rfl
    have hpop : b.current.popTarget.1 = .error e := Draft.answering_refused.1 h
    obtain ⟨hfixed, hafter⟩ := Draft.popTarget_refused hpop
    have hdraft : (b.drafting Request.popTarget.perform).2 =
        { b with current := b.current.popTarget.2 } := rfl
    exact ⟨hfixed, by rw [hdraft, hafter]⟩

/-- A temporary that is a target, below another that is none. -/
def buriedTemporary : Builder :=
  (((ofName "f").drafting (Draft.pushTarget none)).2.drafting Draft.allocate).2

theorem refusal_keeps_all_but_target_buriedTemporary :
    (buriedTemporary.drafting Request.popTarget.perform).1 = .error .unbalancedTargets ∧
      (buriedTemporary.drafting Request.addBreak.perform).1 = .error (.notInLoop "break") ∧
      buriedTemporary.current.targets = [1] ∧ ¬ buriedTemporary.current.Releasable 1 ∧
      (buriedTemporary.drafting Request.popTarget.perform).2 =
        { buriedTemporary with current := { buriedTemporary.current with targets := [] } } ∧
      (buriedTemporary.drafting Request.addBreak.perform).2 = buriedTemporary :=
  have hpop := (refusal_keeps_all_but_target buriedTemporary .popTarget rfl).2 rfl
  have hbreak := (refusal_keeps_all_but_target buriedTemporary .addBreak rfl).1
  ⟨rfl, rfl, rfl, hpop.1 1 rfl, hpop.2, hbreak (fun h => by cases h)⟩

/-- The target is refused because its register is not the topmost; it was there before, and
is not there afterwards. -/
theorem refused_target_is_lost :
    (buriedTemporary.drafting Request.popTarget.perform).1 = .error .unbalancedTargets ∧
      buriedTemporary.current.topTarget = .ok 1 ∧
      (buriedTemporary.drafting Request.popTarget.perform).2.current.topTarget =
        .error .unbalancedTargets :=
  ⟨rfl, rfl, rfl⟩

end Builder

end ScriptMachine
