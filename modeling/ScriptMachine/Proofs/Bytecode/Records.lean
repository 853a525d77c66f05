import ScriptMachine.Bytecode.Stored
import ScriptMachine.Proofs.Json.Floats
import ScriptMachine.Proofs.Json.Scaling
import ScriptMachine.Proofs.Json.Trees

/-!
# Records of a stored function

Reading and writing records field by field: a record that is written with different
names gives its fields back, plain values read back, and what is written has as many
containers inside each other as the reader may enter.
-/

set_option autoImplicit false

namespace ScriptMachine

namespace Json

mutual

/-- The number of containers inside each other. -/
def depth : Json → Nat
  | .array items => depthItems items + 1
  | .object entries => depthEntries entries + 1
  | _ => 0

def depthItems : List Json → Nat
  | [] => 0
  | j :: rest => max (depth j) (depthItems rest)

def depthEntries : List (Option String × Json) → Nat
  | [] => 0
  | (_, j) :: rest => max (depth j) (depthEntries rest)

end

theorem depthItems_le_iff {items : List Json} {d : Nat} :
    depthItems items ≤ d ↔ ∀ j ∈ items, depth j ≤ d := by
  induction items with
  | nil => simp [depthItems]
  | cons j rest ih => simp [depthItems, ih]

theorem depthEntries_le_iff {entries : List (Option String × Json)} {d : Nat} :
    depthEntries entries ≤ d ↔ ∀ e ∈ entries, depth e.2 ≤ d := by
  induction entries with
  | nil => simp [depthEntries]
  | cons e rest ih => rw [depthEntries, Nat.max_le, ih, List.forall_mem_cons]

end Json

namespace Stored
open Json

/-- Entering a record takes a level, and its fields fit the levels left. -/
theorem enter_record {entries : List (String × Json)} {d : Nat} (h : (record entries).depth < d) :
    enter d = some (d - 1) ∧ ∀ e ∈ entries, e.2.depth < d - 1 := by
  rw [record, depth] at h
  refine ⟨if_neg (by omega), fun e he => ?_⟩
  have hle : e.2.depth ≤ _ := depthEntries_le_iff.1 (Nat.le_refl _) _ (List.mem_map_of_mem
    (f := fun (e : String × Json) => (some e.1, e.2)) he)
  omega

theorem depth_array_pos (items : List Json) : 0 < (Json.array items).depth := by
  rw [depth]
  exact Nat.succ_pos _

theorem depth_item {items : List Json} {d : Nat} (h : (Json.array items).depth < d) :
    ∀ j ∈ items, j.depth < d - 1 := by
  intro j hj
  rw [depth] at h
  have := depthItems_le_iff.1 (Nat.le_refl _) j hj
  omega

theorem enter_eq_some {d e : Nat} (h : enter d = some e) : 2 ≤ d ∧ e = d - 1 := by
  rw [enter] at h
  split at h
  · cases h
  · cases h
    omega

theorem enter_pos {d e : Nat} (h : enter d = some e) : 0 < e := by
  obtain ⟨hd, rfl⟩ := enter_eq_some h
  omega

theorem depth_record_lt {entries : List (String × Json)} {d e : Nat} (henter : enter d = some e)
    (h : ∀ x ∈ entries, x.2.depth < e) : (record entries).depth < d := by
  obtain ⟨hd, rfl⟩ := enter_eq_some henter
  rw [record, depth]
  have hle : depthEntries (entries.map fun (e : String × Json) => (some e.1, e.2)) ≤ d - 1 - 1 := by
    rw [depthEntries_le_iff, List.forall_mem_map]
    exact fun x hx => Nat.le_sub_one_of_lt (h x hx)
  omega

theorem depth_array_lt {α : Type} {write : α → Json} {as : List α} {d : Nat} (hd : 0 < d)
    (h : ∀ a ∈ as, (write a).depth < d) : (Json.array (as.map write)).depth < d + 1 := by
  rw [depth, Nat.add_lt_add_iff_right, ← Nat.le_sub_one_iff_lt hd, depthItems_le_iff,
    List.forall_mem_map]
  exact fun a ha => Nat.le_sub_one_of_lt (h a ha)

/-! ## Lists -/

section Lists

variable {α β : Type} {f : α → Option β}

theorem mapM_of_forall {g : α → β} {l : List α} (h : ∀ a ∈ l, f a = some (g a)) :
    l.mapM f = some (l.map g) := by
  induction l with
  | nil => rfl
  | cons a l ih =>
    rw [List.forall_mem_cons] at h
    simp [h.1, ih h.2]

theorem forall_of_mapM {l : List α} {bs : List β} {P : β → Prop} (h : l.mapM f = some bs)
    (hitem : ∀ a b, f a = some b → P b) : ∀ b ∈ bs, P b := by
  induction l generalizing bs with
  | nil =>
    cases h
    simp
  | cons a l ih =>
    rw [List.mapM_cons] at h
    obtain ⟨b, hb, h⟩ := Option.bind_eq_some_iff.1 h
    obtain ⟨cs, hcs, h⟩ := Option.bind_eq_some_iff.1 h
    cases h
    exact List.forall_mem_cons.2 ⟨hitem a b hb, ih hcs⟩

theorem exists_of_mapM {l : List α} {bs : List β} (h : l.mapM f = some bs) :
    ∀ a ∈ l, ∃ b, f a = some b := by
  induction l generalizing bs with
  | nil => exact List.forall_mem_nil _
  | cons a l ih =>
    rw [List.mapM_cons] at h
    obtain ⟨b, hb, h⟩ := Option.bind_eq_some_iff.1 h
    obtain ⟨cs, hcs, -⟩ := Option.bind_eq_some_iff.1 h
    exact List.forall_mem_cons.2 ⟨⟨b, hb⟩, ih hcs⟩

end Lists

/-- A written list reads back where each of its items does, a level further in. -/
theorem list?_array {α : Type} (item : Json → Option α) {write : α → Json} {as : List α} {d : Nat}
    (hdepth : (Json.array (as.map write)).depth < d + 1)
    (h : ∀ a ∈ as, (write a).depth < d → item (write a) = some a) :
    list? item (.array (as.map write)) = some as := by
  have hitem (a : α) (ha : a ∈ as) : (item ∘ write) a = some (id a) :=
    h a ha (depth_item hdepth _ (List.mem_map_of_mem ha))
  rw [list?, List.mapM_map, mapM_of_forall hitem, List.map_id]

theorem forall_of_list? {α : Type} {item : Json → Option α} {j : Json} {as : List α} {P : α → Prop}
    (h : list? item j = some as) (hitem : ∀ k a, item k = some a → P a) : ∀ a ∈ as, P a := by
  cases j with
  | array items => exact forall_of_mapM h hitem
  | _ => cases h

theorem exists_of_list?_array {α : Type} {item : Json → Option α} {write : α → Json} {as bs : List α}
    (h : list? item (.array (as.map write)) = some bs) : ∀ a ∈ as, ∃ b, item (write a) = some b := by
  rw [list?, List.mapM_map] at h
  exact exists_of_mapM h

/-! ## Records -/

theorem valuesOf_record {entries : List (String × Json)} (h : (entries.map (·.1)).Nodup)
    {e : String × Json} (he : e ∈ entries) :
    valuesOf e.1 (entries.map fun (e : String × Json) => (some e.1, e.2)) = [e.2] := by
  induction entries with
  | nil => cases he
  | cons f rest ih =>
    rw [List.map_cons, List.nodup_cons] at h
    rcases List.mem_cons.1 he with rfl | he
    · have hnone : valuesOf e.1 (rest.map fun (e : String × Json) => (some e.1, e.2)) = [] := by
        simp only [valuesOf, List.map_eq_nil_iff, List.filter_eq_nil_iff, List.forall_mem_map]
        intro f hf heq
        apply h.1
        simp only [beq_iff_eq, Option.some.injEq] at heq
        exact heq ▸ List.mem_map_of_mem hf
      simpa [valuesOf] using hnone
    · have hne : f.1 ≠ e.1 := fun heq => h.1 (heq ▸ List.mem_map_of_mem he)
      simpa [valuesOf, hne] using ih h.2 he

/-- The fields of a written record, whose names are all different. -/
theorem fields?_record (names : List String) (entries : List (String × Json))
    (hnames : entries.map (·.1) = names) (h : names.Nodup) :
    fields? names (record entries) = some (entries.map fun (e : String × Json) => some e.2) := by
  subst hnames
  have hkeys : (entries.map fun (e : String × Json) => (some e.1, e.2)).all
      (fun (e : Option String × Json) => e.1.isSome) = true := by
    simp
  have hfield (e : String × Json) (he : e ∈ entries) :
      field? e.1 (entries.map fun (e : String × Json) => (some e.1, e.2)) = some (some e.2) := by
    rw [field?, valuesOf_record h he]
  rw [record, fields?, if_pos hkeys, List.mapM_map]
  exact mapM_of_forall hfield

/-! ## Plain values -/

theorem int?_intJson (n : Int64) : int? (intJson n) = some n := by
  have hlow : -(2 : Int) ^ 63 ≤ n.toInt := n.le_toInt
  have hhigh : n.toInt < (2 : Int) ^ 63 := n.toInt_lt
  rw [intJson, int?, Decimal.integer]
  by_cases hneg : n.toInt < 0
  · have hword : n.toInt.natAbs ≤ Nat.pow 2 63 := by
      show n.toInt.natAbs ≤ 2 ^ 63
      omega
    rw [if_pos hneg, ofLexeme?_negative (by omega) hword]
    have hvalue : -(n.toInt.natAbs : Int) = n.toInt := by omega
    show some (Int64.ofInt (-(n.toInt.natAbs : Int))) = some n
    rw [hvalue, Int64.ofInt_toInt]
  · rw [if_neg hneg, String.empty_append, ofLexeme?_digitText]
    · have hsmall : n.toInt.natAbs < Nat.pow 2 63 := by
        show n.toInt.natAbs < 2 ^ 63
        omega
      have hvalue : ((n.toInt.natAbs : Nat) : Int) = n.toInt := by omega
      have hn : Int64.ofNat n.toInt.natAbs = n := by
        rw [← Int64.ofInt_eq_ofNat, hvalue, Int64.ofInt_toInt]
      simp [hsmall, hn]
    · rw [maxWord]
      show n.toInt.natAbs ≤ 2 ^ 64 - 1
      omega

theorem nat?_natJson {bound n : Nat} (hn : n < bound) (hb : bound ≤ Nat.pow 2 64) :
    nat? bound (natJson n) = some n := by
  rw [natJson, nat?, ofLexeme?_digitText]
  · simp [hn]
  · rw [maxWord]
    omega

theorem size?_natJson {n : Nat} (hn : n < Nat.pow 2 64) : size? (natJson n) = some n :=
  nat?_natJson hn (Nat.le_refl _)

@[simp] theorem string?_text (s : String) : string? (text s) = some s := rfl

@[simp] theorem char?_text (c : Char) : char? (text c.toString) = some c := by
  simp [char?]

@[simp] theorem unitChoice?_text (d : Nat) (s : String) : unitChoice? d (text s) = some s := rfl

@[simp] theorem ofName?_name (op : Opcode) : Opcode.ofName? op.name = some op := by
  cases op <;> decide

@[simp] theorem depth_text (s : String) : (text s).depth = 0 := rfl

@[simp] theorem depth_null : Json.null.depth = 0 := rfl

@[simp] theorem depth_bool (b : Bool) : (Json.bool b).depth = 0 := rfl

@[simp] theorem depth_intJson (n : Int64) : (intJson n).depth = 0 := rfl

@[simp] theorem depth_kindJson (k : CaptureKind) : (kindJson k).depth = 0 := by
  cases k <;> rfl

@[simp] theorem depth_natJson (n : Nat) : (natJson n).depth = 0 := rfl

@[simp] theorem depth_floatJson (x : Float) : (floatJson x).depth = 0 := by
  rw [floatJson]
  split <;> rfl

theorem written_text (s : String) : Written (text s) := .string s

theorem written_intJson (n : Int64) : Written (intJson n) := .number (Decimal.numeral_integer n)

theorem written_natJson (n : Nat) : Written (natJson n) := .number (Decimal.numeral_digitText n)

theorem written_floatJson (x : Float) : Written (floatJson x) := by
  rw [floatJson]
  split
  · next h => exact .number (Decimal.numeral_render h)
  · exact .null

theorem written_array {α : Type} {write : α → Json} (h : ∀ a, Written (write a)) (as : List α) :
    Written (.array (as.map write)) :=
  .array (List.forall_mem_map.2 fun a _ => h a)

/-! ## What a reader accepts -/

theorem nat?_lt {bound n : Nat} {j : Json} (h : nat? bound j = some n) : n < bound := by
  unfold nat? at h
  split at h
  · split at h
    · split at h
      · next hn =>
        cases h
        exact hn
      · cases h
    · cases h
  · cases h

theorem isFinite_of_floatJson {x y : Float} (h : float? (floatJson x) = some y) :
    Decimal.isFinite x = true := by
  rw [floatJson] at h
  split at h
  · assumption
  · cases h

theorem isFinite_of_float? {j : Json} {x : Float} (h : float? j = some x) :
    Decimal.isFinite x = true := by
  unfold float? at h
  split at h
  · split at h
    · cases h
      exact (Binary.tame_ofWord _).isFinite
    · cases h
      exact ((Binary.tame_ofWord _).neg (by decide) (by decide)).isFinite
    · next hx =>
      cases h
      exact (tame_ofLexeme? hx).isFinite
    · cases h
  · cases h

end Stored

end ScriptMachine
