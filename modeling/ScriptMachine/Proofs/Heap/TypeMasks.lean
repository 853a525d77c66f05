import Mathlib.Data.List.Induction
import ScriptMachine.Heap.Native

/-!
# The grammar of type masks

A mask is a sequence of positions, each a letter and any number of further letters with
a bar before each. The scanner accepts these texts and no others, and where it refuses,
it names the first character behind which no mask goes on.
-/

set_option autoImplicit false

namespace ScriptMachine.TypeMask

/-! ## Texts of masks -/

/-- A character that stands for types. -/
structure Letter where
  char : Char
  types : Nat
  known : bits? char = some types

/-- The letters of one position of a mask. -/
structure Position where
  first : Letter
  others : List Letter

namespace Position

def text (p : Position) : List Char :=
  p.first.char :: p.others.flatMap fun (l : Letter) => ['|', l.char]

/-- The union of the types of the letters. -/
def types (p : Position) : Nat :=
  p.others.foldl (fun (types : Nat) (l : Letter) => types ||| l.types) p.first.types

/-- The position with one more letter. -/
def or (p : Position) (l : Letter) : Position := { p with others := p.others ++ [l] }

@[simp] theorem text_or (p : Position) (l : Letter) : (p.or l).text = p.text ++ ['|', l.char] := by
  simp [text, or]

@[simp] theorem types_or (p : Position) (l : Letter) : (p.or l).types = p.types ||| l.types := by
  simp [types, or]

def letters (p : Position) : List Letter := p.first :: p.others

@[simp] theorem letters_or (p : Position) (l : Letter) : (p.or l).letters = p.letters ++ [l] := rfl

/-- A type is accepted in a position when one of the letters stands for it. -/
theorem testBit_types (p : Position) (i : Nat) :
    p.types.testBit i ↔ ∃ l ∈ p.letters, l.types.testBit i := by
  obtain ⟨first, others⟩ := p
  induction others using List.reverseRecOn with
  | nil => simp [types, letters]
  | append_singleton others l ih =>
    change ((Position.mk first others).or l).types.testBit i ↔
      ∃ l' ∈ ((Position.mk first others).or l).letters, l'.types.testBit i
    rw [types_or, letters_or, Nat.testBit_or, Bool.or_eq_true, ih]
    simp [or_and_right, exists_or]

end Position

def text (ps : List Position) : List Char := ps.flatMap Position.text

@[simp] theorem text_append (ps qs : List Position) : text (ps ++ qs) = text ps ++ text qs :=
  List.flatMap_append

@[simp] theorem text_singleton (p : Position) : text [p] = p.text := List.flatMap_singleton ..

/-- The character sequence is the beginning of a mask. -/
def Viable (read : List Char) : Prop := ∃ ps more, text ps = read ++ more

/-- The character is the first one of the sequence that no mask has there, or the bar
after which the sequence ends. -/
def Offends (cs : List Char) (c : Char) : Prop :=
  (∃ read rest, cs = read ++ c :: rest ∧ Viable read ∧ ¬ Viable (read ++ [c])) ∨
    (c = '|' ∧ Viable cs ∧ ∃ read, cs = read ++ ['|'])

/-! ## The scanner part way -/

variable {read rest : List Char} {slots : List Nat} {join : Bool}

/-- What the scanner holds after it has read some characters. -/
inductive Holds : List Char → List Nat → Bool → Prop where
  | whole (ps : List Position) : Holds (text ps) (ps.map Position.types).reverse false
  | bar (ps : List Position) (p : Position) :
      Holds (text (ps ++ [p]) ++ ['|']) ((ps ++ [p]).map Position.types).reverse true

theorem not_bar (l : Letter) : l.char ≠ '|' := by
  intro hbar
  have hknown := l.known
  rw [hbar] at hknown
  cases hknown

theorem scan_letter (l : Letter) :
    scan slots join (l.char :: rest) = scan (addBits slots join l.types) false rest := by
  rw [scan, if_neg (not_bar l), l.known]

theorem scan_bar (hslots : slots ≠ []) :
    scan slots false ('|' :: rest) = scan slots true rest := by
  simp [scan, hslots]

@[simp] theorem addBits_new (bits : Nat) : addBits slots false bits = bits :: slots := by
  cases slots <;> rfl

theorem scan_others (others : List Letter) (bits : Nat) :
    scan (bits :: slots) false ((others.flatMap fun (l : Letter) => ['|', l.char]) ++ rest) =
      scan (others.foldl (fun (types : Nat) (l : Letter) => types ||| l.types) bits :: slots) false
        rest := by
  induction others generalizing bits with
  | nil => rfl
  | cons l others ih =>
    rw [List.flatMap_cons, List.append_assoc, List.cons_append, List.cons_append, List.nil_append,
      scan_bar (List.cons_ne_nil _ _), scan_letter]
    exact ih (bits ||| l.types)

/-- A position is read as a whole. -/
theorem scan_position (p : Position) :
    scan slots false (p.text ++ rest) = scan (p.types :: slots) false rest := by
  rw [Position.text, List.cons_append, scan_letter, addBits_new, scan_others]
  rfl

theorem scan_text (ps : List Position) :
    scan slots false (text ps ++ rest) =
      scan ((ps.map Position.types).reverse ++ slots) false rest := by
  induction ps generalizing slots with
  | nil => rfl
  | cons p ps ih =>
    have hcons : text (p :: ps) = p.text ++ text ps := List.flatMap_cons
    rw [hcons, List.append_assoc, scan_position, ih]
    simp

/-- Every mask is accepted. -/
theorem scan_accepts (ps : List Position) :
    scan [] false (text ps) = .ok (ps.map Position.types) := by
  have htext : scan [] false (text ps ++ []) =
      scan ((ps.map Position.types).reverse ++ []) false [] := scan_text ps
  simpa [scan] using htext

namespace Holds

theorem scan_eq (h : Holds read slots join) (rest : List Char) :
    scan [] false (read ++ rest) = scan slots join rest := by
  cases h with
  | whole ps => rw [scan_text, List.append_nil]
  | bar ps p =>
    rw [List.append_assoc, scan_text, List.append_nil]
    exact scan_bar (by simp)

theorem letter (h : Holds read slots join) (l : Letter) :
    Holds (read ++ [l.char]) (addBits slots join l.types) false := by
  cases h with
  | whole ps =>
    have hnew := whole (ps ++ [⟨l, []⟩])
    rw [text_append, text_singleton, List.map_append, List.reverse_append] at hnew
    rwa [addBits_new]
  | bar ps p => simpa [addBits] using whole (ps ++ [p.or l])

theorem separator (h : Holds read slots false) (hslots : slots ≠ []) :
    Holds (read ++ ['|']) slots true := by
  cases h with
  | whole ps =>
    obtain ⟨init, p, rfl⟩ := List.eq_nil_or_concat ps |>.resolve_left (by simpa using hslots)
    simpa only [List.concat_eq_append] using bar init p

/-- What has been read begins a mask, for a letter may follow a bar. -/
theorem viable (h : Holds read slots join) : Viable read := by
  cases h with
  | whole ps => exact ⟨ps, [], (List.append_nil _).symm⟩
  | bar ps p => exact ⟨ps ++ [p.or ⟨'.', any, rfl⟩], ['.'], by simp⟩

/-- A character that is refused whatever follows it does not stand there in a mask. -/
theorem not_viable {c : Char} (h : Holds read slots join)
    (hc : ∀ rest, scan slots join (c :: rest) = .error c) : ¬ Viable (read ++ [c]) := by
  rintro ⟨ps, more, htext⟩
  have haccepted := scan_accepts ps
  rw [htext, List.append_assoc, h.scan_eq, List.singleton_append, hc] at haccepted
  cases haccepted

end Holds

/-! ## The outcome -/

/-- An outcome of the scanner is right for the characters. -/
def Judges (cs : List Char) : Except Char (List Nat) → Prop
  | .ok masks => ∃ ps, text ps = cs ∧ ps.map Position.types = masks
  | .error c => Offends cs c

theorem Holds.refused {c : Char} (h : Holds read slots join)
    (hc : ∀ rest, scan slots join (c :: rest) = .error c) :
    Judges (read ++ c :: rest) (scan slots join (c :: rest)) := by
  rw [hc]
  exact .inl ⟨read, rest, rfl, h.viable, h.not_viable hc⟩

theorem Holds.judges (h : Holds read slots join) :
    Judges (read ++ rest) (scan slots join rest) := by
  induction rest generalizing read slots join with
  | nil =>
    rw [List.append_nil]
    cases h with
    | whole ps => exact ⟨ps, rfl, by simp⟩
    | bar ps p => exact .inr ⟨rfl, (bar ps p).viable, _, rfl⟩
  | cons c rest ih =>
    by_cases hbar : c = '|'
    · subst hbar
      by_cases hjoin : join = true ∨ slots = []
      · exact h.refused fun rest => by simp [scan, hjoin]
      · obtain ⟨hfalse, hslots⟩ := not_or.1 hjoin
        obtain rfl : join = false := by simpa using hfalse
        rw [scan_bar hslots, List.append_cons]
        exact ih (h.separator hslots)
    · cases hbits : bits? c with
      | none => exact h.refused fun rest => by simp [scan, hbar, hbits]
      | some bits =>
        have hletter := h.letter ⟨c, bits, hbits⟩
        rw [scan_letter ⟨c, bits, hbits⟩, List.append_cons]
        exact ih hletter

/-- A text is parsed exactly when it is a mask, and the result has the types of each
position; the error names the character that offends. -/
theorem parse_iff_text (mask : String) :
    (∀ masks, parse mask = .ok masks ↔
      ∃ ps, text ps = mask.toList ∧ ps.map Position.types = masks) ∧
    (∀ e, parse mask = .error e → ∃ c, e = .invalidTypeMask mask c ∧ Offends mask.toList c) := by
  have hjudges : Judges mask.toList (scan [] false mask.toList) := (Holds.whole []).judges
  refine ⟨fun masks => ⟨fun hparse => ?_, ?_⟩, fun e hparse => ?_⟩
  · cases hscan : scan [] false mask.toList with
    | ok slots =>
      rw [parse, hscan] at hparse
      rw [hscan] at hjudges
      cases hparse
      exact hjudges
    | error c => simp [parse, hscan] at hparse
  · rintro ⟨ps, htext, rfl⟩
    rw [parse, ← htext, scan_accepts]
  · cases hscan : scan [] false mask.toList with
    | ok slots => simp [parse, hscan] at hparse
    | error c =>
      rw [parse, hscan] at hparse
      rw [hscan] at hjudges
      cases hparse
      exact ⟨c, rfl, hjudges⟩

end ScriptMachine.TypeMask
