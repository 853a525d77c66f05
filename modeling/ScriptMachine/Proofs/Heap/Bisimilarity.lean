import Mathlib.Data.Finset.Card
import Mathlib.Data.Finset.Prod
import Mathlib.Data.List.Forall2
import ScriptMachine.Heap.Equality
import ScriptMachine.Proofs.Binary.Comparing
import ScriptMachine.Proofs.Heap.Storing

/-!
# Equality by structure

Arrays and dicts may contain themselves, so equality by structure is a coinductive
notion: two values are alike when some relation holds of them that goes on to what they
contain. A comparison takes the pairs it is in the middle of for equal. It ends, since
there are finitely many pairs, and it tells whether two values are alike.
-/

set_option autoImplicit false

namespace ScriptMachine

/-! ## Equality of scripts -/

namespace Value

/-- A number that is not equal to itself. -/
def isNaN : Value → Bool
  | float x => x.isNaN
  | complex z => z.re.isNaN || z.im.isNaN
  | _ => false

theorem checkEqual_comm (a b : Value) : a.checkEqual b = b.checkEqual a := by
  cases a <;> cases b <;>
    simp [checkEqual, Bool.beq_comm, Binary.beq_comm, asComplex?, asFloat?, tag, sameObject,
      Complex.equal, ref?]

theorem checkEqual_self {a : Value} (h : a.isNaN = false) : a.checkEqual a = true := by
  cases a with
  | float x => exact Binary.beq_self h
  | complex z =>
    obtain ⟨hre, him⟩ := Bool.or_eq_false_iff.1 h
    simp [checkEqual, asComplex?, Complex.equal, Binary.beq_self hre, Binary.beq_self him]
  | _ => simp [checkEqual, asFloat?, tag, sameObject, ref?]

end Value

/-! ## Entries side by side -/

namespace Entry

variable {R : Value → Value → Prop} {es fs : List Entry}

/-- Two entries have the same key and related values. -/
def Beside (R : Value → Value → Prop) (e f : Entry) : Prop :=
  e.1.chars = f.1.chars ∧ R e.2 f.2

theorem find?_head (e : Entry) (rest : List Entry) :
    find? e.1.chars (e :: rest) = some e.2 := if_pos rfl

theorem rel_flip {o o' : Option Value} (h : Option.Rel R o o') : Option.Rel (flip R) o' o := by
  cases h with
  | some h => exact .some h
  | none => exact .none

/-- Of two lists with the same keys neither begins below the other. -/
theorem head_not_below {e f : Entry} (hf : Ascending (f :: fs))
    (h : ∀ key, Option.Rel R (find? key (e :: es)) (find? key (f :: fs))) :
    ¬ e.1.chars < f.1.chars := by
  intro hlt
  have hnone : find? e.1.chars (f :: fs) = none := by
    refine find?_of_below fun g hg => ?_
    rcases List.mem_cons.1 hg with rfl | hg
    · exact hlt
    · exact String.lt_trans hlt ((List.pairwise_cons.1 hf).1 g hg)
  have hrel := h e.1.chars
  rw [hnone, find?_head] at hrel
  cases hrel

theorem Beside.of_find? (he : Ascending es) (hf : Ascending fs)
    (h : ∀ key, Option.Rel R (find? key es) (find? key fs)) :
    List.Forall₂ (Beside R) es fs := by
  induction es generalizing fs with
  | nil =>
    cases fs with
    | nil => exact .nil
    | cons f fs =>
      have hrel := h f.1.chars
      rw [find?_head] at hrel
      cases hrel
  | cons e es ih =>
    cases fs with
    | nil =>
      have hrel := h e.1.chars
      rw [find?_head] at hrel
      cases hrel
    | cons f fs =>
      have hflip : ∀ key, Option.Rel (flip R) (find? key (f :: fs)) (find? key (e :: es)) :=
        fun key => rel_flip (h key)
      have hkey : e.1.chars = f.1.chars := by
        rcases Std.lt_trichotomy e.1.chars f.1.chars with hlt | heq | hgt
        · exact absurd hlt (head_not_below hf h)
        · exact heq
        · exact absurd hgt (head_not_below he hflip)
      have hvalue : R e.2 f.2 := by
        have hrel := h e.1.chars
        rw [find?_head, hkey, find?_head] at hrel
        cases hrel with
        | some hrel => exact hrel
      refine .cons ⟨hkey, hvalue⟩ (ih (List.pairwise_cons.1 he).2 (List.pairwise_cons.1 hf).2 ?_)
      intro key
      by_cases hk : e.1.chars = key
      · have hes : find? key es = none := find?_of_below (hk ▸ (List.pairwise_cons.1 he).1)
        have hfs : find? key fs = none :=
          find?_of_below ((hkey.symm.trans hk) ▸ (List.pairwise_cons.1 hf).1)
        rw [hes, hfs]
        exact .none
      · have hrel := h key
        rwa [find?, find?, if_neg hk, if_neg (hkey ▸ hk)] at hrel

theorem Beside.find? (h : List.Forall₂ (Beside R) es fs) (key : String) :
    Option.Rel R (find? key es) (find? key fs) := by
  induction h with
  | nil => exact .none
  | @cons e f es fs hef _ ih =>
    by_cases hk : e.1.chars = key
    · rw [Entry.find?, Entry.find?, if_pos hk, if_pos (hef.1.symm.trans hk)]
      exact .some hef.2
    · rw [Entry.find?, Entry.find?, if_neg hk, if_neg (hef.1 ▸ hk)]
      exact ih

end Entry

namespace Heap

variable {h : Heap} {R S : Value → Value → Prop} {vs : List (Ref × Ref)}
variable {a b u v : Value}

/-! ## Likeness -/

/-- One level of likeness: the same array or dict, arrays of one length with related
elements, dicts with the same keys and related values under each, and other values that
are equal. -/
def Matches (h : Heap) (R : Value → Value → Prop) : Value → Value → Prop
  | .array x, .array y => x = y ∨ List.Forall₂ R (h.items x).toList (h.items y).toList
  | .dict x, .dict y =>
    x = y ∨ ∀ key, Option.Rel R ((h.entries x).find? key) ((h.entries y).find? key)
  | a, b => a.checkEqual b = true

/-- Related values match, and what they contain is related. -/
def Bisimulation (h : Heap) (R : Value → Value → Prop) : Prop :=
  ∀ a b, R a b → h.Matches R a b

/-- Likeness down to a depth. -/
def Alike (h : Heap) : Nat → Value → Value → Prop
  | 0 => fun _ _ => True
  | n + 1 => h.Matches (h.Alike n)

/-- What a comparison goes on to in two arrays or two dicts: whether their sizes agree,
and the pairs of values in them, each with whether the keys agree. -/
structure Front where
  left : Ref
  right : Ref
  sizes : Bool
  pairs : List (Bool × Value × Value)

def front? (h : Heap) : Value → Value → Option Front
  | .array x, .array y => some
    { left := x, right := y, sizes := (h.items x).size == (h.items y).size
      pairs := ((h.items x).toList.zip (h.items y).toList).map fun p => (true, p.1, p.2) }
  | .dict x, .dict y => some
    { left := x, right := y
      sizes := (h.entries x).list.length == (h.entries y).list.length
      pairs := ((h.entries x).list.zip (h.entries y).list).map fun p =>
        (p.1.1.chars == p.2.1.chars, p.1.2, p.2.2) }
  | _, _ => none

/-- The two are one, or are being compared. -/
def Front.Known (f : Front) (vs : List (Ref × Ref)) : Prop :=
  f.left = f.right ∨ (f.left, f.right) ∈ vs

instance (f : Front) (vs : List (Ref × Ref)) : Decidable (f.Known vs) :=
  inferInstanceAs (Decidable (_ ∨ _))

variable {f g : Front} {n : Nat}

theorem forall₂_iff_pairs {α : Type} {S : α → α → Prop} {xs ys : List α} :
    List.Forall₂ S xs ys ↔ xs.length = ys.length ∧ ∀ p ∈ xs.zip ys, S p.1 p.2 := by
  simp only [List.forall₂_iff_zip, Prod.forall]

theorem matches_front (hf : h.front? a b = some f) :
    h.Matches R a b ↔
      f.left = f.right ∨ (f.sizes = true ∧ ∀ p ∈ f.pairs, p.1 = true ∧ R p.2.1 p.2.2) := by
  unfold front? at hf
  split at hf
  · cases hf
    simp only [Matches, forall₂_iff_pairs, List.forall_mem_map, beq_iff_eq, Array.length_toList,
      true_and]
  · cases hf
    rename_i x y
    have hkeys : (∀ key, Option.Rel R ((h.entries x).find? key) ((h.entries y).find? key)) ↔
        List.Forall₂ (Entry.Beside R) (h.entries x).list (h.entries y).list :=
      ⟨Entry.Beside.of_find? (h.entries x).ascending (h.entries y).ascending, Entry.Beside.find?⟩
    simp only [Matches, hkeys, forall₂_iff_pairs, List.forall_mem_map, beq_iff_eq, Entry.Beside]
  · cases hf

theorem matches_plain (hf : h.front? a b = none) :
    h.Matches R a b ↔ a.checkEqual b = true := by
  unfold Matches
  split
  · cases hf
  · cases hf
  · rfl

theorem Matches.mono (hRS : ∀ u v, R u v → S u v) (hm : h.Matches R a b) : h.Matches S a b := by
  cases hf : h.front? a b with
  | none => exact (matches_plain hf).2 ((matches_plain hf).1 hm)
  | some f =>
    refine (matches_front hf).2 (((matches_front hf).1 hm).imp_right fun hp => ⟨hp.1, ?_⟩)
    exact fun p hmem => ⟨(hp.2 p hmem).1, hRS _ _ (hp.2 p hmem).2⟩

theorem Alike.of_succ : ∀ {n : Nat} {a b : Value}, h.Alike (n + 1) a b → h.Alike n a b
  | 0, _, _, _ => trivial
  | _ + 1, _, _, hm => Matches.mono (fun _ _ => Alike.of_succ) hm

/-- Values that are alike at every depth are alike. -/
theorem bisimulation_alike (h : Heap) : h.Bisimulation fun a b => ∀ n, h.Alike n a b := by
  intro a b hab
  cases hf : h.front? a b with
  | none => exact (matches_plain hf).2 ((matches_plain hf).1 (hab 1))
  | some f =>
    rw [matches_front hf]
    by_cases heq : f.left = f.right
    · exact .inl heq
    · have hat := fun n => ((matches_front hf).1 (hab (n + 1))).resolve_left heq
      exact .inr ⟨(hat 0).1, fun p hp => ⟨((hat 0).2 p hp).1, fun n => ((hat n).2 p hp).2⟩⟩

/-! ## The comparison without a bound on its depth -/

/-- What a comparison answers while some pairs are being compared. Only a finite run
has an answer. -/
inductive Compares (h : Heap) : List (Ref × Ref) → Value → Value → Bool → Prop
  | plain {vs : List (Ref × Ref)} {a b : Value} (hf : h.front? a b = none) :
      Compares h vs a b (a.checkEqual b)
  | known {vs : List (Ref × Ref)} {a b : Value} {f : Front} (hf : h.front? a b = some f)
      (hk : f.Known vs) : Compares h vs a b true
  | sizes {vs : List (Ref × Ref)} {a b : Value} {f : Front} (hf : h.front? a b = some f)
      (hk : ¬ f.Known vs) (hs : f.sizes = false) : Compares h vs a b false
  | equal {vs : List (Ref × Ref)} {a b : Value} {f : Front} (hf : h.front? a b = some f)
      (hk : ¬ f.Known vs) (hs : f.sizes = true) (hkeys : ∀ p ∈ f.pairs, p.1 = true)
      (hvalues : ∀ p ∈ f.pairs, Compares h ((f.left, f.right) :: vs) p.2.1 p.2.2 true) :
      Compares h vs a b true
  | keys {vs : List (Ref × Ref)} {a b : Value} {f : Front} {before after : List (Bool × Value × Value)}
      {p : Bool × Value × Value} (hf : h.front? a b = some f)
      (hk : ¬ f.Known vs) (hs : f.sizes = true) (hp : f.pairs = before ++ p :: after)
      (hkeys : ∀ q ∈ before, q.1 = true)
      (hvalues : ∀ q ∈ before, Compares h ((f.left, f.right) :: vs) q.2.1 q.2.2 true)
      (hkey : p.1 = false) : Compares h vs a b false
  | values {vs : List (Ref × Ref)} {a b : Value} {f : Front}
      {before after : List (Bool × Value × Value)} {p : Bool × Value × Value}
      (hf : h.front? a b = some f)
      (hk : ¬ f.Known vs) (hs : f.sizes = true) (hp : f.pairs = before ++ p :: after)
      (hkeys : ∀ q ∈ before, q.1 = true)
      (hvalues : ∀ q ∈ before, Compares h ((f.left, f.right) :: vs) q.2.1 q.2.2 true)
      (hkey : p.1 = true) (hvalue : Compares h ((f.left, f.right) :: vs) p.2.1 p.2.2 false) :
      Compares h vs a b false

/-- An answer of no is right: no relation holds of the two and goes on. -/
theorem Compares.complete {r : Bool} (hc : h.Compares vs a b r) (hR : h.Bisimulation R)
    (hab : R a b) : r = true := by
  induction hc with
  | plain hf => exact (matches_plain hf).1 (hR _ _ hab)
  | known _ _ => rfl
  | sizes hf hk hs =>
    have hm := ((matches_front hf).1 (hR _ _ hab)).resolve_left fun heq => hk (.inl heq)
    exact hs.symm.trans hm.1
  | equal _ _ _ _ _ => rfl
  | keys hf hk hs hp _ _ hkey =>
    have hm := ((matches_front hf).1 (hR _ _ hab)).resolve_left fun heq => hk (.inl heq)
    exact hkey.symm.trans (hm.2 _ (by simp [hp])).1
  | values hf hk hs hp _ _ _ _ _ ih =>
    have hm := ((matches_front hf).1 (hR _ _ hab)).resolve_left fun heq => hk (.inl heq)
    exact ih (hm.2 _ (by simp [hp])).2

theorem array_of_items {r : Ref} (hne : (h.items r).toList ≠ []) :
    ∃ xs, h.body? r = some (.array xs) := by
  unfold items at hne
  split at hne
  · exact ⟨_, by assumption⟩
  · exact absurd rfl hne

theorem dict_of_entries {r : Ref} (hne : (h.entries r).list ≠ []) :
    ∃ es, h.body? r = some (.dict es) := by
  unfold entries at hne
  split at hne
  · exact ⟨_, by assumption⟩
  · exact absurd rfl hne

theorem ne_nil_of_zip {α : Type} {xs ys : List α} {β : Type} {k : α × α → β}
    (hne : (xs.zip ys).map k ≠ []) : xs ≠ [] ∧ ys ≠ [] := by
  constructor <;> rintro rfl <;> simp at hne

/-- A pair is compared as arrays or as dicts. As what it is not, it has nothing in it. -/
theorem front_other (hf : h.front? a b = some f) (hg : h.front? u v = some g)
    (hl : g.left = f.left) (hr : g.right = f.right) (hne : f.pairs ≠ []) :
    (u = a ∧ v = b) ∨ (g.sizes = true ∧ g.pairs = []) := by
  unfold front? at hf hg
  split at hf <;> split at hg <;> cases hf <;> cases hg <;> cases hl <;> cases hr
  · exact .inl ⟨rfl, rfl⟩
  · obtain ⟨⟨_, hx⟩, ⟨_, hy⟩⟩ := (ne_nil_of_zip hne).imp array_of_items array_of_items
    exact .inr (by simp [entries, Entries.empty, hx, hy])
  · obtain ⟨⟨_, hx⟩, ⟨_, hy⟩⟩ := (ne_nil_of_zip hne).imp dict_of_entries dict_of_entries
    exact .inr (by simp [items, hx, hy])
  · exact .inl ⟨rfl, rfl⟩

/-- An answer of yes is right, as far as the pairs being compared are alike. -/
theorem Compares.alike {r : Bool} (hc : h.Compares vs a b r) (hr : r = true) (n : Nat)
    (hvs : ∀ u v g, h.front? u v = some g → (g.left, g.right) ∈ vs → h.Alike n u v) :
    h.Alike n a b := by
  induction hc generalizing n with
  | @plain vs a b hf =>
    cases n with
    | zero => trivial
    | succ n => exact (matches_plain hf).2 hr
  | @known vs a b f hf hk =>
    rcases hk with heq | hmem
    · cases n with
      | zero => trivial
      | succ n => exact (matches_front hf).2 (.inl heq)
    · exact hvs _ _ f hf hmem
  | @equal vs a b f hf hk hs hkeys _ ih =>
    -- the pair itself is being compared further down: it is alike one level less deep
    induction n with
    | zero => trivial
    | succ n ihn =>
      have hless := fun u v g hg hmem => Alike.of_succ (hvs u v g hg hmem)
      refine (matches_front hf).2 (.inr ⟨hs, fun p hp => ⟨hkeys p hp, ih p hp rfl n ?_⟩⟩)
      intro u v g hg hmem
      rcases List.mem_cons.1 hmem with heq | hmem
      · obtain ⟨hl, hr⟩ := Prod.ext_iff.1 heq
        rcases front_other hf hg hl hr (List.ne_nil_of_mem hp) with ⟨rfl, rfl⟩ | ⟨hsize, hnil⟩
        · exact ihn hless
        · cases n with
          | zero => trivial
          | succ n => exact (matches_front hg).2 (.inr ⟨hsize, by simp [hnil]⟩)
      · exact hless u v g hg hmem
  | sizes | keys | values => cases hr

/-! ## The bound is never reached -/

theorem deepEqualWithin_plain (hf : h.front? a b = none) (fuel : Nat) (vs : List (Ref × Ref)) :
    h.deepEqualWithin (fuel + 1) vs a b = a.checkEqual b := by
  unfold deepEqualWithin
  split
  · contradiction
  · cases hf
  · cases hf
  · rfl

theorem deepEqualWithin_front (hf : h.front? a b = some f) (fuel : Nat) (vs : List (Ref × Ref)) :
    h.deepEqualWithin (fuel + 1) vs a b =
      if f.Known vs then true
      else f.sizes && f.pairs.all fun p =>
        p.1 && h.deepEqualWithin fuel ((f.left, f.right) :: vs) p.2.1 p.2.2 := by
  unfold front? at hf
  split at hf
  · cases hf
    simp [deepEqualWithin, Front.Known, List.all_map, Function.comp_def]
  · cases hf
    simp [deepEqualWithin, Front.Known, List.all_map, Function.comp_def]
  · cases hf

/-- The number of pairs of objects that are not being compared. -/
def room (h : Heap) (vs : List (Ref × Ref)) : Nat :=
  ((Finset.range h.cells.size ×ˢ Finset.range h.cells.size).filter
    fun p => vs.contains ((⟨p.1⟩, ⟨p.2⟩) : Ref × Ref) = false).card

theorem room_nil (h : Heap) : h.room [] = h.cells.size * h.cells.size := by
  simp [room]

/-- What has something in it is an object of the heap. -/
theorem front_inRange (hf : h.front? a b = some f) (hne : f.pairs ≠ []) :
    f.left.id < h.cells.size ∧ f.right.id < h.cells.size := by
  unfold front? at hf
  split at hf
  · cases hf
    obtain ⟨⟨_, hx⟩, ⟨_, hy⟩⟩ := (ne_nil_of_zip hne).imp array_of_items array_of_items
    exact ⟨body?_lt hx, body?_lt hy⟩
  · cases hf
    obtain ⟨⟨_, hx⟩, ⟨_, hy⟩⟩ := (ne_nil_of_zip hne).imp dict_of_entries dict_of_entries
    exact ⟨body?_lt hx, body?_lt hy⟩
  · cases hf

theorem room_lt (hf : h.front? a b = some f) (hk : ¬ f.Known vs) (hne : f.pairs ≠ []) :
    h.room ((f.left, f.right) :: vs) < h.room vs := by
  obtain ⟨hl, hr⟩ := front_inRange hf hne
  refine Finset.card_lt_card (Finset.ssubset_iff_of_subset ?_ |>.2 ⟨(f.left.id, f.right.id), ?_, ?_⟩)
  · intro p hp
    simp only [Finset.mem_filter, List.contains_cons, Bool.or_eq_false_iff] at hp ⊢
    exact ⟨hp.1, hp.2.2⟩
  · simp only [Finset.mem_filter, Finset.mem_product, Finset.mem_range]
    exact ⟨⟨hl, hr⟩, by simpa using fun hmem => hk (.inr hmem)⟩
  · simp

/-- The pairs are gone through up to the first that differs. -/
theorem Compares.of_pairs (hf : h.front? a b = some f) (hk : ¬ f.Known vs) (hs : f.sizes = true)
    {answer : Bool × Value × Value → Bool}
    (hinner : ∀ p ∈ f.pairs, h.Compares ((f.left, f.right) :: vs) p.2.1 p.2.2 (answer p)) :
    h.Compares vs a b (f.pairs.all fun p => p.1 && answer p) := by
  cases hfirst : f.pairs.find? fun p => !(p.1 && answer p) with
  | none =>
    have hall : ∀ p ∈ f.pairs, p.1 = true ∧ answer p = true := by
      simpa using List.find?_eq_none.1 hfirst
    rw [List.all_eq_true.2 fun p hp => by simp [hall p hp]]
    exact .equal hf hk hs (fun p hp => (hall p hp).1) fun p hp => (hall p hp).2 ▸ hinner p hp
  | some p =>
    obtain ⟨hno, before, after, hpairs, hbefore⟩ := List.find?_eq_some_iff_append.1 hfirst
    simp only [Bool.not_not, Bool.and_eq_true] at hbefore
    rw [Bool.not_eq_true'] at hno
    have hmem : p ∈ f.pairs := List.mem_of_find?_eq_some hfirst
    have hvalues : ∀ q ∈ before, h.Compares ((f.left, f.right) :: vs) q.2.1 q.2.2 true :=
      fun q hq => (hbefore q hq).2 ▸ hinner q (by simp [hpairs, hq])
    rw [List.all_eq_false.2 ⟨p, hmem, by simp [hno]⟩]
    cases hkey : p.1 with
    | false => exact .keys hf hk hs hpairs (fun q hq => (hbefore q hq).1) hvalues hkey
    | true =>
      rw [hkey, Bool.true_and] at hno
      exact .values hf hk hs hpairs (fun q hq => (hbefore q hq).1) hvalues hkey
        (hno ▸ hinner p hmem)

theorem compares_within : ∀ {fuel : Nat} {vs : List (Ref × Ref)} {a b : Value},
    h.room vs < fuel → h.Compares vs a b (h.deepEqualWithin fuel vs a b)
  | fuel + 1, vs, a, b, hroom => by
    cases hf : h.front? a b with
    | none =>
      rw [deepEqualWithin_plain hf]
      exact .plain hf
    | some f =>
      rw [deepEqualWithin_front hf]
      by_cases hk : f.Known vs
      · rw [if_pos hk]
        exact .known hf hk
      rw [if_neg hk]
      cases hs : f.sizes with
      | false => exact .sizes hf hk hs
      | true =>
        refine .of_pairs hf hk hs fun p hp => ?_
        have := room_lt hf hk (List.ne_nil_of_mem hp)
        exact compares_within (by omega)

theorem compares_deepEqual (h : Heap) (a b : Value) : h.Compares [] a b (h.deepEqual a b) :=
  compares_within (by rw [room_nil]; omega)

theorem deepEqual_iff : h.deepEqual a b = true ↔ ∃ R, h.Bisimulation R ∧ R a b := by
  constructor
  · intro hyes
    refine ⟨fun a b => ∀ n, h.Alike n a b, h.bisimulation_alike, fun n => ?_⟩
    exact (compares_deepEqual h a b).alike hyes n fun _ _ _ _ hmem => absurd hmem List.not_mem_nil
  · rintro ⟨R, hR, hab⟩
    exact (compares_deepEqual h a b).complete hR hab

/-! ## Symmetry -/

theorem Matches.symm (hm : h.Matches R a b) : h.Matches (flip R) b a := by
  unfold Matches at hm
  split at hm
  · exact hm.imp Eq.symm List.Forall₂.flip
  · exact hm.imp Eq.symm fun hkeys key => Entry.rel_flip (hkeys key)
  · rename_i harrays hdicts
    unfold Matches
    split
    · exact absurd rfl fun heq => harrays _ _ heq rfl
    · exact absurd rfl fun heq => hdicts _ _ heq rfl
    · rwa [Value.checkEqual_comm]

theorem deepEqual_comm (h : Heap) (a b : Value) : h.deepEqual b a = h.deepEqual a b := by
  have hswap : ∀ a b, h.deepEqual a b = true → h.deepEqual b a = true := by
    intro a b hab
    obtain ⟨R, hR, hab⟩ := deepEqual_iff.1 hab
    exact deepEqual_iff.2 ⟨flip R, fun u v huv => (hR v u huv).symm, hab⟩
  exact Bool.eq_iff_iff.2 ⟨hswap b a, hswap a b⟩

/-! ## Unrolling -/

/-- What a value shows. -/
inductive Unrolling where
  | beyond
  | array (items : List Unrolling)
  | dict (entries : List (String × Unrolling))
  | string (chars : String)
  | space (s : Space)
  | other (v : Value)

/-- What a value shows down to a depth: arrays and dicts by what they contain, strings
and spaces by content. -/
def unrolled (h : Heap) : Nat → Value → Unrolling
  | 0, _ => .beyond
  | n + 1, .array r => .array ((h.items r).toList.map (h.unrolled n))
  | n + 1, .dict r => .dict ((h.entries r).list.map fun e => (e.1.chars, h.unrolled n e.2))
  | _ + 1, .string t => .string t.chars
  | _ + 1, .space _ s => .space s
  | _ + 1, v => .other v

/-- What an array or a dict contains. -/
def contents (h : Heap) : Value → List Value
  | .array r => (h.items r).toList
  | .dict r => (h.entries r).list.map (·.2)
  | _ => []

/-- The values met when a value is unrolled. -/
inductive Occurs (h : Heap) (v : Value) : Value → Prop
  | self : Occurs h v v
  | inside {u w : Value} (hu : Occurs h v u) (hw : w ∈ h.contents u) : Occurs h v w

/-- No number met differs from itself. -/
def NaNFree (h : Heap) (v : Value) : Prop := ∀ u, h.Occurs v u → u.isNaN = false

theorem Occurs.of_inside (hu : u ∈ h.contents a) (hw : h.Occurs u v) : h.Occurs a v := by
  induction hw with
  | self => exact .inside .self hu
  | inside _ hmem ih => exact .inside ih hmem

theorem NaNFree.inside (ha : h.NaNFree a) (hu : u ∈ h.contents a) : h.NaNFree u :=
  fun _ hw => ha _ (.of_inside hu hw)

theorem eq_of_unrolled (hu : h.unrolled (n + 1) u = .other v) : u = v := by
  cases u <;> simp_all [unrolled]

theorem checkEqual_of_unrolled (ha : a.isNaN = false) (hf : h.front? a b = none)
    (hab : h.unrolled 1 a = h.unrolled 1 b) : a.checkEqual b = true := by
  cases a with
  | array _ | dict _ => cases b <;> simp_all [unrolled, front?]
  | string _ | space _ _ => cases b <;> simp_all [unrolled, Value.checkEqual]
  | _ =>
    rw [eq_of_unrolled hab.symm]
    exact Value.checkEqual_self ha

theorem pairs_of_map {α β : Type} {k : α → β} {xs ys : List α} (hmap : xs.map k = ys.map k) :
    xs.length = ys.length ∧ ∀ p ∈ xs.zip ys, k p.1 = k p.2 := by
  rw [← List.forall₂_eq_eq_eq, List.forall₂_map_left_iff, List.forall₂_map_right_iff] at hmap
  exact forall₂_iff_pairs.1 hmap

theorem alike_of_unrolled (hall : ∀ n, h.unrolled n a = h.unrolled n b) (ha : h.NaNFree a) :
    ∀ n, h.Alike n a b := by
  intro n
  induction n generalizing a b with
  | zero => trivial
  | succ n ih =>
    cases hf : h.front? a b with
    | none => exact (matches_plain hf).2 (checkEqual_of_unrolled (ha _ .self) hf (hall 1))
    | some f =>
      unfold Alike Matches
      unfold front? at hf
      split at hf
      · rename_i x y
        have hmap : ∀ m, (h.items x).toList.map (h.unrolled m) = (h.items y).toList.map (h.unrolled m) :=
          fun m => by simpa [unrolled] using hall (m + 1)
        refine .inr (forall₂_iff_pairs.2 ⟨(pairs_of_map (hmap 0)).1, fun p hp => ?_⟩)
        exact ih (fun m => (pairs_of_map (hmap m)).2 p hp) (ha.inside (List.of_mem_zip hp).1)
      · rename_i x y
        have hmap : ∀ m, (h.entries x).list.map (fun e => (e.1.chars, h.unrolled m e.2)) =
            (h.entries y).list.map (fun e => (e.1.chars, h.unrolled m e.2)) :=
          fun m => by simpa [unrolled] using hall (m + 1)
        refine .inr fun key => Entry.Beside.find? (forall₂_iff_pairs.2
          ⟨(pairs_of_map (hmap 0)).1, fun p hp => ⟨?_, ?_⟩⟩) key
        · exact (Prod.ext_iff.1 ((pairs_of_map (hmap 0)).2 p hp)).1
        · refine ih (fun m => (Prod.ext_iff.1 ((pairs_of_map (hmap m)).2 p hp)).2) (ha.inside ?_)
          exact List.mem_map.2 ⟨p.1, (List.of_mem_zip hp).1, rfl⟩
      · cases hf

/-- A comparison ends, on any heap, with the answer whether the two values are bisimilar.
The order of the two is of no account, and structures that show the same at every depth
are equal. -/
theorem deepEqual_decides_bisimilarity (h : Heap) (a b : Value) :
    h.Compares [] a b (h.deepEqual a b) ∧
    (h.deepEqual a b = true ↔ ∃ R, h.Bisimulation R ∧ R a b) ∧
    h.deepEqual b a = h.deepEqual a b ∧
    (h.NaNFree a → (∀ n, h.unrolled n a = h.unrolled n b) → h.deepEqual a b = true) := by
  refine ⟨h.compares_deepEqual a b, deepEqual_iff, h.deepEqual_comm a b, fun ha hall => ?_⟩
  exact deepEqual_iff.2 ⟨_, h.bisimulation_alike, alike_of_unrolled hall ha⟩

/-- An array `[1, itself]`, and two such arrays that contain one another. -/
def rings : Heap where
  cells := #[some ⟨2, .fresh, none, .array #[.integer 1, .array ⟨0⟩]⟩,
    some ⟨2, .fresh, none, .array #[.integer 1, .array ⟨2⟩]⟩,
    some ⟨2, .fresh, none, .array #[.integer 1, .array ⟨1⟩]⟩]

theorem rings_unrolled (n : Nat) :
    rings.unrolled n (.array ⟨0⟩) = rings.unrolled n (.array ⟨1⟩) ∧
      rings.unrolled n (.array ⟨0⟩) = rings.unrolled n (.array ⟨2⟩) := by
  have h0 : rings.items ⟨0⟩ = #[.integer 1, .array ⟨0⟩] := rfl
  have h1 : rings.items ⟨1⟩ = #[.integer 1, .array ⟨2⟩] := rfl
  have h2 : rings.items ⟨2⟩ = #[.integer 1, .array ⟨1⟩] := rfl
  induction n with
  | zero => exact ⟨rfl, rfl⟩
  | succ n ih => simp [unrolled, h0, h1, h2, ← ih.1, ← ih.2]

theorem rings_occurs (hu : rings.Occurs (.array ⟨0⟩) u) : u = .array ⟨0⟩ ∨ u = .integer 1 := by
  induction hu with
  | self => exact .inl rfl
  | inside _ hw ih =>
    rcases ih with rfl | rfl
    · have hw : _ ∈ [Value.integer 1, .array ⟨0⟩] := hw
      simpa [or_comm] using hw
    · exact absurd hw List.not_mem_nil

theorem deepEqual_decides_bisimilarity_rings :
    rings.NaNFree (.array ⟨0⟩) ∧
    (∀ n, rings.unrolled n (.array ⟨0⟩) = rings.unrolled n (.array ⟨1⟩)) ∧
    rings.deepEqual (.array ⟨0⟩) (.array ⟨1⟩) = true := by
  have hfree : rings.NaNFree (.array ⟨0⟩) := by
    intro u hu
    rcases rings_occurs hu with rfl | rfl <;> rfl
  exact ⟨hfree, fun n => (rings_unrolled n).1,
    (deepEqual_decides_bisimilarity rings _ _).2.2.2 hfree fun n => (rings_unrolled n).1⟩

end Heap

end ScriptMachine
