import ScriptMachine.Proofs.Binary.Comparing
import ScriptMachine.Proofs.Bytecode.Records

/-!
# Stored functions read back

A function whose numbers fit their words and whose nesting the reader allows is read
back from its text when all its floats are finite. A float that is not has no spelling
in a stored function: the writer leaves a null in its place, and the reader takes no
null for a float.

What the reader accepts in any spelling is such a function, so its own text describes
it again.
-/

set_option autoImplicit false

namespace ScriptMachine

/-- The floats of a constant. -/
def Literal.floats : Literal → List Float
  | .float x => [x]
  | .complex re im => [re, im]
  | _ => []

namespace Stored
open Json

/-! ## Parts of a function -/

theorem spaceJson_ne_null (s : Space) : spaceJson s ≠ .null := by
  cases s <;> simp [spaceJson, record]

theorem space?_spaceJson (s : Space) {fuel depth : Nat} (hdepth : (spaceJson s).depth < depth)
    (hfuel : depth ≤ fuel) : space? fuel depth (spaceJson s) = some s := by
  induction s generalizing fuel depth with
  | simple d n c =>
    obtain ⟨fuel, rfl⟩ := Nat.exists_eq_succ_of_ne_zero (n := fuel) (by omega)
    rw [spaceJson] at hdepth ⊢
    have hfields := fields?_record ["domain", "dimension", "sign", "child"]
      [("domain", text d), ("dimension", intJson n), ("sign", text c.toString),
        ("child", .null)] rfl (by decide)
    rw [space?, (enter_record hdepth).1]
    simp only [Option.bind_eq_bind, Option.bind_some, hfields, List.map_cons, List.map_nil,
      string?_text, int?_intJson, char?_text]
    rfl
  | into d n c s ih =>
    obtain ⟨fuel, rfl⟩ := Nat.exists_eq_succ_of_ne_zero (n := fuel) (by omega)
    rw [spaceJson] at hdepth ⊢
    obtain ⟨henter, hinner⟩ := enter_record hdepth
    have hfields := fields?_record ["domain", "dimension", "sign", "child"]
      [("domain", text d), ("dimension", intJson n), ("sign", text c.toString),
        ("child", spaceJson s)] rfl (by decide)
    have hs : space? fuel (depth - 1) (spaceJson s) = some s :=
      ih (hinner ("child", spaceJson s) (by simp)) (by omega)
    have hnull := spaceJson_ne_null s
    rw [space?, henter]
    simp only [Option.bind_eq_bind, Option.bind_some, hfields, List.map_cons, List.map_nil,
      string?_text, int?_intJson, char?_text]
    rw [hs]
    rfl

theorem instruction?_instructionJson (i : Instruction) {depth : Nat}
    (h : (instructionJson i).depth < depth) : instruction? depth (instructionJson i) = some i := by
  rw [instructionJson] at h ⊢
  have hfields := fields?_record ["opcode", "arg0", "arg1", "arg2", "arg3"]
    [("opcode", text i.opcode.name), ("arg0", intJson i.arg0), ("arg1", intJson i.arg1),
      ("arg2", intJson i.arg2), ("arg3", intJson i.arg3)] rfl (by decide)
  rw [instruction?, (enter_record h).1]
  simp only [Option.bind_eq_bind, Option.bind_some, hfields, List.map_cons, List.map_nil,
    unitChoice?_text, ofName?_name, int?_intJson]
  rfl

theorem literal?_literalJson (l : Literal) {depth : Nat} (h : (literalJson l).depth < depth)
    (hfloats : ∀ x ∈ l.floats, float? (floatJson x) = some x) :
    literal? depth (literalJson l) = some l := by
  cases l with
  | null => rfl
  | integer n =>
    rw [literalJson] at h ⊢
    unfold literal?
    rw [record, List.map_cons, List.map_nil, (enter_record h).1]
    simp only [Option.bind_eq_bind, Option.bind_some, int?_intJson]
    rfl
  | float x =>
    rw [literalJson] at h ⊢
    unfold literal?
    rw [record, List.map_cons, List.map_nil, (enter_record h).1]
    simp only [Option.bind_eq_bind, Option.bind_some, hfloats x (by simp [Literal.floats])]
    rfl
  | complex re im =>
    rw [literalJson] at h ⊢
    obtain ⟨henter, hinner⟩ := enter_record h
    have hfields := fields?_record ["re", "im"]
      [("re", floatJson re), ("im", floatJson im)] rfl (by decide)
    unfold literal?
    rw [record, List.map_cons, List.map_nil, henter]
    simp only [Option.bind_eq_bind, Option.bind_some, complexParts?,
      (enter_record (hinner _ List.mem_cons_self)).1, hfields, List.map_cons, List.map_nil,
      hfloats re (by simp [Literal.floats]), hfloats im (by simp [Literal.floats])]
    rfl
  | bool b =>
    rw [literalJson] at h ⊢
    unfold literal?
    rw [record, List.map_cons, List.map_nil, (enter_record h).1]
    rfl
  | string s =>
    rw [literalJson] at h ⊢
    unfold literal?
    rw [record, List.map_cons, List.map_nil, (enter_record h).1]
    rfl
  | space s =>
    rw [literalJson] at h ⊢
    obtain ⟨henter, hinner⟩ := enter_record h
    unfold literal?
    rw [record, List.map_cons, List.map_nil, henter]
    simp only [Option.bind_eq_bind, Option.bind_some,
      space?_spaceJson s (hinner _ List.mem_cons_self) (Nat.le_refl _)]
    rfl

theorem capture?_captureJson {c : Capture} (hindex : c.index < Nat.pow 2 64) {depth : Nat}
    (h : (captureJson c).depth < depth) : capture? depth (captureJson c) = some c := by
  rw [captureJson] at h ⊢
  have hfields := fields?_record ["name", "kind", "index"]
    [("name", text c.name), ("kind", kindJson c.kind), ("index", natJson c.index)]
    rfl (by decide)
  have hkind (d : Nat) : kind? d (kindJson c.kind) = some c.kind := by
    cases c.kind <;> rfl
  rw [capture?, (enter_record h).1]
  simp only [Option.bind_eq_bind, Option.bind_some, hfields, List.map_cons, List.map_nil,
    string?_text, hkind, size?_natJson hindex]
  rfl

theorem local?_localJson {l : LocalInfo} (hpos : l.pos < Nat.pow 2 64)
    (hstart : l.startOp < Nat.pow 2 64) (hend : l.endOp < Nat.pow 2 64) {depth : Nat}
    (h : (localJson l).depth < depth) : local? depth (localJson l) = some l := by
  rw [localJson] at h ⊢
  have hfields := fields?_record ["name", "pos", "start_op", "end_op"]
    [("name", text l.name), ("pos", natJson l.pos), ("start_op", natJson l.startOp),
      ("end_op", natJson l.endOp)] rfl (by decide)
  rw [local?, (enter_record h).1]
  simp only [Option.bind_eq_bind, Option.bind_some, hfields, List.map_cons, List.map_nil,
    string?_text, size?_natJson hpos, size?_natJson hstart, size?_natJson hend]
  rfl

theorem line?_lineJson {l : LineInfo} (hline : l.line < Nat.pow 2 32) (hop : l.op < Nat.pow 2 64)
    {depth : Nat} (h : (lineJson l).depth < depth) : line? depth (lineJson l) = some l := by
  rw [lineJson] at h ⊢
  have hfields := fields?_record ["line", "op"]
    [("line", natJson l.line), ("op", natJson l.op)] rfl (by decide)
  rw [line?, (enter_record h).1]
  simp only [Option.bind_eq_bind, Option.bind_some, hfields, List.map_cons, List.map_nil,
    nat?_natJson hline (by decide), size?_natJson hop]
  rfl

/-! ## Whole functions -/

theorem prototypesJson_eq_map (ps : List Prototype) : prototypesJson ps = ps.map prototypeJson := by
  induction ps with
  | nil => rfl
  | cons p ps ih => rw [prototypesJson, ih, List.map_cons]

end Stored

namespace Prototype

/-- The numbers of a function fit the words that hold them. -/
inductive InRange : Prototype → Prop where
  | intro {p : Prototype}
    (outers : ∀ c ∈ p.outers, c.index < Nat.pow 2 64)
    (locals : ∀ l ∈ p.locals,
      l.pos < Nat.pow 2 64 ∧ l.startOp < Nat.pow 2 64 ∧ l.endOp < Nat.pow 2 64)
    (lines : ∀ l ∈ p.lines.toList, l.line < Nat.pow 2 32 ∧ l.op < Nat.pow 2 64)
    (stackSize : p.stackSize < Nat.pow 2 64)
    (functions : ∀ f ∈ p.functions, InRange f) : InRange p

mutual

/-- The floats among the constants of a function and of the functions inside it. -/
def floats : Prototype → List Float
  | { literals, functions, .. } => literals.toList.flatMap Literal.floats ++ floatsAll functions

def floatsAll : List Prototype → List Float
  | [] => []
  | p :: rest => floats p ++ floatsAll rest

end

theorem floatsAll_eq_flatMap (ps : List Prototype) : floatsAll ps = ps.flatMap floats := by
  induction ps with
  | nil => rfl
  | cons p ps ih => rw [floatsAll, ih, List.flatMap_cons]

theorem forall_floats {p : Prototype} {P : Float → Prop} :
    (∀ x ∈ p.floats, P x) ↔
      (∀ l ∈ p.literals.toList, ∀ x ∈ l.floats, P x) ∧ ∀ f ∈ p.functions, ∀ x ∈ f.floats, P x := by
  cases p
  simp only [floats, floatsAll_eq_flatMap, List.forall_mem_append, List.forall_mem_flatMap]

end Prototype

namespace Stored
open Json

theorem prototype?_prototypeJson {p : Prototype} (hp : p.InRange) {depth : Nat}
    (h : (prototypeJson p).depth < depth)
    (hfloats : ∀ x ∈ p.floats, float? (floatJson x) = some x) :
    prototype? depth (prototypeJson p) = some p := by
  induction hp generalizing depth with
  | @intro p houters hlocals hlines hstack hfunctions ih =>
    rw [Prototype.forall_floats] at hfloats
    obtain ⟨name, source, code, literals, parameters, functions, outers, defaults, locals, lines,
      stackSize, varargs⟩ := p
    rw [prototypeJson, prototypesJson_eq_map] at h ⊢
    obtain ⟨-, hinner⟩ := enter_record h
    simp only [List.forall_mem_cons] at hinner
    obtain ⟨-, -, hcode, hliterals, hparameters, hfuns, hcaptures, hdefaults, hlocal, hline, -⟩ :=
      hinner
    obtain ⟨depth, rfl⟩ : ∃ k, depth = k + 3 :=
      ⟨depth - 3, by have := depth_array_pos (code.toList.map instructionJson); omega⟩
    have hcode := list?_array (instruction? (depth + 1)) hcode
      fun i _ => instruction?_instructionJson i
    have hliterals := list?_array (literal? (depth + 1)) hliterals
      fun l hl h => literal?_literalJson l h (hfloats.1 l hl)
    have hparameters := list?_array string? hparameters fun s _ _ => string?_text s
    have hfuns := list?_array (prototype? (depth + 1)) hfuns
      fun f hf h => ih f hf h (hfloats.2 f hf)
    have hcaptures := list?_array (capture? (depth + 1)) hcaptures
      fun c hc => capture?_captureJson (houters c hc)
    have hdefaults := list?_array int? hdefaults fun n _ _ => int?_intJson n
    have hlocal := list?_array (local? (depth + 1)) hlocal
      fun l hl => local?_localJson (hlocals l hl).1 (hlocals l hl).2.1 (hlocals l hl).2.2
    have hline := list?_array (line? (depth + 1)) hline
      fun l hl => line?_lineJson (hlines l hl).1 (hlines l hl).2
    unfold prototype?
    simp only
    rw [fields?_record]
    · simp only [Option.bind_eq_bind, Option.bind_some, List.map_cons, List.map_nil, string?_text,
        hcode, hliterals, hparameters, hfuns, hcaptures, hdefaults, hlocal, hline,
        size?_natJson hstack]
      rfl
    · rfl
    · decide

/-! ## What the reader accepts -/

theorem depth_of_space? {fuel depth : Nat} {j : Json} {s : Space}
    (h : space? fuel depth j = some s) : (spaceJson s).depth < depth := by
  induction fuel generalizing depth j s with
  | zero => cases h
  | succ fuel ih =>
    simp only [space?, Option.bind_eq_bind, Option.bind_eq_some_iff] at h
    obtain ⟨inside, henter, fields, -, h⟩ := h
    have hpos : 0 < inside := enter_pos henter
    split at h
    · next d n c s' =>
      simp only [Option.bind_eq_some_iff] at h
      obtain ⟨name, -, dimension, -, sign, -, h⟩ := h
      split at h
      · cases h
        exact depth_record_lt henter (by simpa using hpos)
      · cases h
        exact depth_record_lt henter (by simpa using hpos)
      · obtain ⟨codomain, hinner, h⟩ := Option.bind_eq_some_iff.1 h
        cases h
        exact depth_record_lt henter (by simpa [hpos] using ih hinner)
    · cases h

theorem complexParts?_accepts {depth : Nat} {j : Json} {re im : Float}
    (h : complexParts? depth j = some (re, im)) :
    ∃ inside, enter depth = some inside ∧ Decimal.isFinite re = true ∧ Decimal.isFinite im = true := by
  obtain ⟨inside, henter, h⟩ := Option.bind_eq_some_iff.1 h
  obtain ⟨fields, -, h⟩ := Option.bind_eq_some_iff.1 h
  split at h
  · obtain ⟨x, hx, h⟩ := Option.bind_eq_some_iff.1 h
    obtain ⟨y, hy, h⟩ := Option.bind_eq_some_iff.1 h
    cases h
    exact ⟨inside, henter, isFinite_of_float? hx, isFinite_of_float? hy⟩
  · cases h

theorem literal?_accepts {depth : Nat} {j : Json} {l : Literal} (hd : 0 < depth)
    (h : literal? depth j = some l) :
    (literalJson l).depth < depth ∧ ∀ x ∈ l.floats, Decimal.isFinite x = true := by
  unfold literal? at h
  split at h
  · split at h
    · cases h
      exact ⟨hd, by simp [Literal.floats]⟩
    · cases h
  · next k j =>
    obtain ⟨inside, henter, h⟩ := Option.bind_eq_some_iff.1 h
    have hpos : 0 < inside := enter_pos henter
    split at h
    · split at h
      · cases h
        exact ⟨hd, by simp [Literal.floats]⟩
      · cases h
    · obtain ⟨n, -, h⟩ := Option.bind_eq_some_iff.1 h
      cases h
      exact ⟨depth_record_lt henter (by simpa using hpos), by simp [Literal.floats]⟩
    · obtain ⟨x, hx, h⟩ := Option.bind_eq_some_iff.1 h
      cases h
      exact ⟨depth_record_lt henter (by simpa using hpos),
        by simpa [Literal.floats] using isFinite_of_float? hx⟩
    · obtain ⟨⟨re, im⟩, hparts, h⟩ := Option.bind_eq_some_iff.1 h
      cases h
      obtain ⟨innermost, hinner, hre, him⟩ := complexParts?_accepts hparts
      refine ⟨depth_record_lt henter ?_, by simpa [Literal.floats] using ⟨hre, him⟩⟩
      have hpos : 0 < innermost := enter_pos hinner
      simpa using depth_record_lt hinner (by simpa using hpos)
    · obtain ⟨b, -, h⟩ := Option.bind_eq_some_iff.1 h
      cases h
      exact ⟨depth_record_lt henter (by simpa using hpos), by simp [Literal.floats]⟩
    · obtain ⟨s, -, h⟩ := Option.bind_eq_some_iff.1 h
      cases h
      exact ⟨depth_record_lt henter (by simpa using hpos), by simp [Literal.floats]⟩
    · obtain ⟨s, hs, h⟩ := Option.bind_eq_some_iff.1 h
      cases h
      exact ⟨depth_record_lt henter (by simpa using depth_of_space? hs), by simp [Literal.floats]⟩
    · cases h
  · cases h

theorem instruction?_accepts {depth : Nat} {j : Json} {i : Instruction}
    (h : instruction? depth j = some i) : (instructionJson i).depth < depth := by
  obtain ⟨inside, henter, -⟩ := Option.bind_eq_some_iff.1 h
  exact depth_record_lt henter (by simpa using enter_pos henter)

theorem capture?_accepts {depth : Nat} {j : Json} {c : Capture} (h : capture? depth j = some c) :
    (captureJson c).depth < depth ∧ c.index < Nat.pow 2 64 := by
  obtain ⟨inside, henter, h⟩ := Option.bind_eq_some_iff.1 h
  obtain ⟨fields, -, h⟩ := Option.bind_eq_some_iff.1 h
  constructor
  · exact depth_record_lt henter (by simpa using enter_pos henter)
  · split at h
    · simp only [Option.bind_eq_bind, Option.bind_eq_some_iff] at h
      obtain ⟨name, -, kind, -, index, hindex, h⟩ := h
      cases h
      exact nat?_lt hindex
    · cases h

theorem local?_accepts {depth : Nat} {j : Json} {l : LocalInfo} (h : local? depth j = some l) :
    (localJson l).depth < depth ∧
      l.pos < Nat.pow 2 64 ∧ l.startOp < Nat.pow 2 64 ∧ l.endOp < Nat.pow 2 64 := by
  obtain ⟨inside, henter, h⟩ := Option.bind_eq_some_iff.1 h
  obtain ⟨fields, -, h⟩ := Option.bind_eq_some_iff.1 h
  constructor
  · exact depth_record_lt henter (by simpa using enter_pos henter)
  · split at h
    · simp only [Option.bind_eq_bind, Option.bind_eq_some_iff] at h
      obtain ⟨name, -, pos, hpos, start, hstart, last, hlast, h⟩ := h
      cases h
      exact ⟨nat?_lt hpos, nat?_lt hstart, nat?_lt hlast⟩
    · cases h

theorem line?_accepts {depth : Nat} {j : Json} {l : LineInfo} (h : line? depth j = some l) :
    (lineJson l).depth < depth ∧ l.line < Nat.pow 2 32 ∧ l.op < Nat.pow 2 64 := by
  obtain ⟨inside, henter, h⟩ := Option.bind_eq_some_iff.1 h
  obtain ⟨fields, -, h⟩ := Option.bind_eq_some_iff.1 h
  constructor
  · exact depth_record_lt henter (by simpa using enter_pos henter)
  · split at h
    · simp only [Option.bind_eq_bind, Option.bind_eq_some_iff] at h
      obtain ⟨line, hline, op, hop, h⟩ := h
      cases h
      exact ⟨nat?_lt hline, nat?_lt hop⟩
    · cases h

/-- A function that is read is in range, has finite floats, and is not nested
deeper when it is written again. -/
theorem prototype?_accepts {depth : Nat} {j : Json} {p : Prototype}
    (h : prototype? depth j = some p) :
    p.InRange ∧ (∀ x ∈ p.floats, Decimal.isFinite x = true) ∧ (prototypeJson p).depth < depth := by
  induction depth using Nat.strongRecOn generalizing j p with
  | ind depth ih =>
    unfold prototype? at h
    split at h
    · cases h
    · cases h
    · cases h
    · next j d =>
      obtain ⟨fields, -, h⟩ := Option.bind_eq_some_iff.1 h
      split at h
      · simp only [Option.bind_eq_bind, Option.bind_eq_some_iff] at h
        obtain ⟨name, -, source, -, code, hcode, literals, hliterals, parameters, -, functions,
          hfunctions, outers, houters, defaults, -, locals, hlocals, lines, hlines, stackSize, hstack,
          varargs, -, h⟩ := h
        cases h
        have hpos : 0 < d + 1 := Nat.succ_pos d
        have hcode := forall_of_list? hcode fun _ _ => instruction?_accepts
        have hliterals := forall_of_list? hliterals fun _ _ => literal?_accepts hpos
        have hfunctions := forall_of_list? hfunctions fun _ _ => ih (d + 1) (by omega)
        have houters := forall_of_list? houters fun _ _ => capture?_accepts
        have hlocals := forall_of_list? hlocals fun _ _ => local?_accepts
        have hlines := forall_of_list? hlines fun _ _ => line?_accepts
        have hstack : stackSize < Nat.pow 2 64 := nat?_lt hstack
        have henter : enter (d + 3) = some (d + 2) := if_neg (by omega)
        refine ⟨?_, ?_, ?_⟩
        · exact .intro (fun c hc => (houters c hc).2) (fun l hl => (hlocals l hl).2)
            (fun l hl => (hlines l hl).2) hstack (fun f hf => (hfunctions f hf).1)
        · rw [Prototype.forall_floats]
          exact ⟨fun l hl => (hliterals l hl).2, fun f hf => (hfunctions f hf).2.1⟩
        · rw [prototypeJson, prototypesJson_eq_map]
          apply depth_record_lt henter
          simp only [List.forall_mem_cons]
          exact ⟨Nat.succ_pos _, Nat.succ_pos _, depth_array_lt hpos hcode,
            depth_array_lt hpos fun l hl => (hliterals l hl).1,
            depth_array_lt hpos fun _ _ => hpos,
            depth_array_lt hpos fun f hf => (hfunctions f hf).2.2,
            depth_array_lt hpos fun c hc => (houters c hc).1,
            depth_array_lt hpos fun _ _ => hpos,
            depth_array_lt hpos fun l hl => (hlocals l hl).1,
            depth_array_lt hpos fun l hl => (hlines l hl).1,
            Nat.succ_pos _, Nat.succ_pos _, List.forall_mem_nil _⟩
      · cases h

/-! ## What has no spelling -/

theorem isFinite_of_literal? {depth : Nat} {l l' : Literal}
    (h : literal? depth (literalJson l) = some l') : ∀ x ∈ l.floats, Decimal.isFinite x = true := by
  cases l with
  | float x =>
    obtain ⟨inside, -, h⟩ := Option.bind_eq_some_iff.1 h
    obtain ⟨y, hy, -⟩ := Option.bind_eq_some_iff.1 h
    simpa [Literal.floats] using isFinite_of_floatJson hy
  | complex re im =>
    obtain ⟨inside, -, h⟩ := Option.bind_eq_some_iff.1 h
    obtain ⟨⟨re', im'⟩, hparts, -⟩ := Option.bind_eq_some_iff.1 h
    obtain ⟨innermost, -, h⟩ := Option.bind_eq_some_iff.1 hparts
    rw [fields?_record ["re", "im"] _ rfl (by decide), Option.bind_eq_bind,
      Option.bind_some] at h
    obtain ⟨re', hre, h⟩ := Option.bind_eq_some_iff.1 h
    obtain ⟨im', him, -⟩ := Option.bind_eq_some_iff.1 h
    simpa [Literal.floats] using ⟨isFinite_of_floatJson hre, isFinite_of_floatJson him⟩
  | _ => exact List.forall_mem_nil _

/-- No function is read from the text of one that has a float without a spelling. -/
theorem isFinite_of_prototype? {depth : Nat} {p q : Prototype}
    (h : prototype? depth (prototypeJson p) = some q) :
    ∀ x ∈ p.floats, Decimal.isFinite x = true := by
  induction depth using Nat.strongRecOn generalizing p q with
  | ind depth ih =>
    obtain ⟨name, source, code, literals, parameters, functions, outers, defaults, locals, lines,
      stackSize, varargs⟩ := p
    rw [prototypeJson, prototypesJson_eq_map] at h
    unfold prototype? at h
    split at h
    · cases h
    · cases h
    · cases h
    · next _ d =>
      rw [fields?_record] at h
      · rw [Option.bind_eq_bind, Option.bind_some] at h
        obtain ⟨_, -, h⟩ := Option.bind_eq_some_iff.1 h
        obtain ⟨_, -, h⟩ := Option.bind_eq_some_iff.1 h
        obtain ⟨_, -, h⟩ := Option.bind_eq_some_iff.1 h
        obtain ⟨literals', hliterals, h⟩ := Option.bind_eq_some_iff.1 h
        obtain ⟨_, -, h⟩ := Option.bind_eq_some_iff.1 h
        obtain ⟨functions', hfunctions, -⟩ := Option.bind_eq_some_iff.1 h
        rw [Prototype.forall_floats]
        constructor
        · intro l hl
          obtain ⟨l', hl'⟩ := exists_of_list?_array hliterals l hl
          exact isFinite_of_literal? hl'
        · intro f hf
          obtain ⟨f', hf'⟩ := exists_of_list?_array hfunctions f hf
          exact ih (d + 1) (by omega) hf'
      · rfl
      · decide

/-! ## Stored functions are well-written -/

theorem written_spaceJson (s : Space) : Written (spaceJson s) := by
  induction s with
  | simple d n c =>
    apply Written.object
    simp only [List.forall_mem_cons]
    exact ⟨written_text d, written_intJson n, written_text _, .null, List.forall_mem_nil _⟩
  | into d n c s ih =>
    apply Written.object
    simp only [List.forall_mem_cons]
    exact ⟨written_text d, written_intJson n, written_text _, ih, List.forall_mem_nil _⟩

/-- A record of one field. -/
theorem written_choice (name : String) {j : Json} (h : Written j) : Written (record [(name, j)]) :=
  .object (List.forall_mem_singleton.2 h)

theorem written_literalJson (l : Literal) : Written (literalJson l) := by
  cases l with
  | null => exact written_text _
  | integer n => exact written_choice _ (written_intJson n)
  | float x => exact written_choice _ (written_floatJson x)
  | complex re im =>
    apply written_choice
    apply Written.object
    simp only [List.forall_mem_cons]
    exact ⟨written_floatJson re, written_floatJson im, List.forall_mem_nil _⟩
  | bool b => exact written_choice _ (.bool b)
  | string s => exact written_choice _ (written_text s)
  | space s => exact written_choice _ (written_spaceJson s)

theorem written_instructionJson (i : Instruction) : Written (instructionJson i) := by
  apply Written.object
  simp only [List.forall_mem_cons]
  exact ⟨written_text _, written_intJson _, written_intJson _, written_intJson _, written_intJson _,
    List.forall_mem_nil _⟩

theorem written_captureJson (c : Capture) : Written (captureJson c) := by
  apply Written.object
  simp only [List.forall_mem_cons]
  have hkind : Written (kindJson c.kind) := by cases c.kind <;> exact written_text _
  exact ⟨written_text _, hkind, written_natJson _, List.forall_mem_nil _⟩

theorem written_localJson (l : LocalInfo) : Written (localJson l) := by
  apply Written.object
  simp only [List.forall_mem_cons]
  exact ⟨written_text _, written_natJson _, written_natJson _, written_natJson _,
    List.forall_mem_nil _⟩

theorem written_lineJson (l : LineInfo) : Written (lineJson l) := by
  apply Written.object
  simp only [List.forall_mem_cons]
  exact ⟨written_natJson _, written_natJson _, List.forall_mem_nil _⟩

mutual

theorem written_prototypeJson : ∀ p : Prototype, Written (prototypeJson p)
  | { functions, .. } => by
    rw [prototypeJson]
    apply Written.object
    simp only [List.forall_mem_cons]
    exact ⟨written_text _, written_text _, written_array written_instructionJson _,
      written_array written_literalJson _, written_array written_text _,
      .array (written_prototypesJson functions), written_array written_captureJson _,
      written_array written_intJson _, written_array written_localJson _,
      written_array written_lineJson _, written_natJson _, .bool _, List.forall_mem_nil _⟩

theorem written_prototypesJson : ∀ ps : List Prototype, ∀ j ∈ prototypesJson ps, Written j
  | [] => List.forall_mem_nil _
  | p :: ps => List.forall_mem_cons.2 ⟨written_prototypeJson p, written_prototypesJson ps⟩

end

end Stored

/-! ## Equality -/

theorem Decimal.beq_self {x : Float} (h : isFinite x = true) : (x == x) = true := by
  rw [isFinite, Bool.not_eq_true', Bool.or_eq_false_iff] at h
  exact Binary.beq_self h.1

theorem Literal.equal_self {l : Literal} (h : ∀ x ∈ l.floats, Decimal.isFinite x = true) :
    l.equal l = true := by
  cases l with
  | float x => exact Decimal.beq_self (h x (by simp [floats]))
  | complex re im =>
    simp [equal, Decimal.beq_self (h re (by simp [floats])),
      Decimal.beq_self (h im (by simp [floats]))]
  | _ => simp [equal]

namespace Prototype

mutual

/-- A function whose floats are finite equals itself. -/
theorem equal_self : ∀ {p : Prototype}, (∀ x ∈ p.floats, Decimal.isFinite x = true) → p.equal p = true
  | { literals, functions, .. }, h => by
    rw [forall_floats] at h
    have hliterals : (literals.toList.zip literals.toList).all
        (fun (x : Literal × Literal) => x.1.equal x.2) = true := by
      have hzip : literals.toList.zip literals.toList = literals.toList.map fun l => (l, l) := by
        simpa using List.zip_map' (f := id) (g := id) (l := literals.toList)
      rw [hzip, List.all_map, List.all_eq_true]
      exact fun l hl => Literal.equal_self (h.1 l hl)
    have hfunctions : equalAll functions functions = true := equalAll_self h.2
    simp [equal, hliterals, hfunctions]

theorem equalAll_self : ∀ {ps : List Prototype},
    (∀ p ∈ ps, ∀ x ∈ p.floats, Decimal.isFinite x = true) → equalAll ps ps = true
  | [], _ => rfl
  | p :: ps, h => by
    rw [List.forall_mem_cons] at h
    rw [equalAll, equal_self h.1, equalAll_self h.2]
    rfl

end

/-! ## Storing and reading -/

theorem read?_store_eq (p : Prototype) :
    read? p.store = Stored.prototype? Stored.levels (Stored.prototypeJson p) := by
  rw [read?, store, Json.parse?_text (Stored.written_prototypeJson p)]
  rfl

/-- A function is read back from its text exactly when all its floats are finite;
when one is not, the text is none of a function. The floats are those that the reader
of decimal numbers gets back from their shortest form. -/
theorem read_store {p : Prototype} (hp : p.InRange)
    (hdepth : (Stored.prototypeJson p).depth < Stored.levels)
    (hfloats : ∀ x ∈ p.floats, Decimal.isFinite x = true →
      Stored.float? (Stored.floatJson x) = some x) :
    read? p.store = if ∀ x ∈ p.floats, Decimal.isFinite x = true then some p else none := by
  rw [read?_store_eq]
  split
  · next hfinite =>
    exact Stored.prototype?_prototypeJson hp hdepth fun x hx => hfloats x hx (hfinite x hx)
  · next hinfinite =>
    rw [Option.eq_none_iff_forall_ne_some]
    intro q hq
    exact hinfinite (Stored.isFinite_of_prototype? hq)

/-- A function with a function inside it, constants of both kinds, and a capture. -/
def halving : Prototype where
  name := "main"
  code := #[⟨.load, 1, 0, 0, 0⟩, ⟨.closure, 2, 0, absent, 0⟩, ⟨.ret, 1, 0, 0, 0⟩]
  literals := #[.float 0.5, .space (.into "R" 2 '+' (.simple "Z" (-1) '\\'))]
  functions := [{ name := "half \"of\"", literals := #[.complex 0.5 (-0.5), .integer Int64.minValue]
                  outers := [⟨"x", .register, 1⟩], defaults := [1] }]
  locals := [⟨"x", 1, 0, 2⟩]
  lines := #[⟨1, 0⟩, ⟨2, 2⟩]
  stackSize := 3

theorem halving_inRange : halving.InRange := by
  have hinner (f : Prototype) (hf : f ∈ halving.functions) : f.InRange := by
    obtain rfl := List.mem_singleton.1 hf
    exact .intro (by decide) (by decide) (by decide) (by decide) (List.forall_mem_nil _)
  exact .intro (by decide) (by decide) (by decide) (by decide) hinner

theorem read_store_halving : read? halving.store = some halving := by
  have h := read_store halving_inRange (by decide +kernel) (by decide +kernel)
  rwa [if_pos (by decide +kernel)] at h

/-- A function with a constant that is no number. -/
def undefined : Prototype := { name := "main", literals := #[.float (0.0 / 0.0)] }

/-- The text of a function that the builder makes need not be one of a function. -/
theorem undefined_unread : undefined.InRange ∧
    (Stored.prototypeJson undefined).depth < Stored.levels ∧ read? undefined.store = none := by
  refine ⟨.intro (by decide) (by decide) (by decide) (by decide) (List.forall_mem_nil _),
    by decide +kernel, ?_⟩
  rw [read?_store_eq, Option.eq_none_iff_forall_ne_some]
  intro q hq
  have hfinite := Stored.isFinite_of_prototype? hq (0.0 / 0.0) (by simp [floats, undefined, Literal.floats])
  exact absurd hfinite (by decide +kernel)

/-- What a text describes is described by its own text, whatever the spelling of the
first one was. -/
theorem read_store_of_read {s : String} {p : Prototype} (h : read? s = some p)
    (hfloats : ∀ x ∈ p.floats, Stored.float? (Stored.floatJson x) = some x) :
    read? p.store = some p ∧ p.equal p = true := by
  obtain ⟨j, -, h⟩ := Option.bind_eq_some_iff.1 h
  obtain ⟨hrange, hfinite, hdepth⟩ := Stored.prototype?_accepts h
  constructor
  · rw [read?_store_eq]
    exact Stored.prototype?_prototypeJson hrange hdepth hfloats
  · exact equal_self hfinite

/-- A function as the array of its fields, with an integer for a float. -/
def terse : String := "[\"f\",\"\",[],[\x7b\"Float\":3\x7d],[],[],[],[],[],[],1,false]"

theorem read_store_terse :
    ∃ p, read? terse = some p ∧ read? p.store = some p ∧ p.equal p = true := by
  obtain ⟨p, hp⟩ := Option.isSome_iff_exists.1 (by decide +kernel : (read? terse).isSome = true)
  have hfloats : (read? terse).all (fun (p : Prototype) => p.floats.all fun (x : Float) =>
      decide (Stored.float? (Stored.floatJson x) = some x)) = true := by
    decide +kernel
  rw [hp, Option.all_some, List.all_eq_true] at hfloats
  exact ⟨p, hp, read_store_of_read hp fun x hx => of_decide_eq_true (hfloats x hx)⟩

end Prototype

end ScriptMachine
