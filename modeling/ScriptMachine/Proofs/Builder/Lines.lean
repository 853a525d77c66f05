import ScriptMachine.Proofs.Builder.Locals
import ScriptMachine.Proofs.Search

/-!
# Lines of instructions in diagnostics

A line is announced before the instructions that come from it. However these are
combined, an instruction of the finished function has the line that was announced last
when it was appended. What comes before all announcements has the first line.
-/

set_option autoImplicit false

namespace ScriptMachine

/-- The line of an instruction, where the entries up to it come before those behind it. -/
theorem Prototype.lineFor_of_split {p : Prototype} {ip : Nat} {low high : List LineInfo}
    (hlines : p.lines.toList = low ++ high) (hlow : ∀ l ∈ low, l.op ≤ ip)
    (hhigh : ∀ l ∈ high, ip < l.op) :
    p.lineFor ip = ((low.getLast?.or high.head?).map (·.line)).getD 0 := by
  have hget : ∀ i : Nat, p.lines[i]? = (low ++ high)[i]? := fun i => by
    rw [← hlines, Array.getElem?_toList]
  have hsize : p.lines.size = low.length + high.length := by
    rw [← Array.length_toList, hlines, List.length_append]
  have hfound : p.lines[Search.lastNotAbove (lineAbove p.lines ip) p.lines.size]? =
      low.getLast?.or high.head? := by
    by_cases hpos : 0 < p.lines.size
    · have habove : ∀ i < p.lines.size, lineAbove p.lines ip i = decide (low.length ≤ i) := by
        intro i hi
        rw [lineAbove, hget]
        by_cases hil : i < low.length
        · rw [List.getElem?_append_left hil, List.getElem?_eq_getElem hil]
          have hop := hlow _ (List.getElem_mem hil)
          simp only [decide_eq_decide]
          omega
        · have hih : i - low.length < high.length := by omega
          rw [List.getElem?_append_right (Nat.le_of_not_lt hil), List.getElem?_eq_getElem hih]
          have hop := hhigh _ (List.getElem_mem hih)
          simp only [decide_eq_decide]
          omega
      rw [Search.lastNotAbove_of_boundary hpos (by omega) habove, hget]
      cases hl : low with
      | nil => simp [List.head?_eq_getElem?]
      | cons l rest =>
        rw [List.getElem?_append_left (by simp), List.getLast?_eq_getElem?]
        simp
    · obtain ⟨rfl, rfl⟩ : low = [] ∧ high = [] :=
        ⟨List.length_eq_zero_iff.1 (by omega), List.length_eq_zero_iff.1 (by omega)⟩
      rw [hget]
      rfl
  rw [lineFor, hfound]
  cases low.getLast?.or high.head? <;> rfl

namespace Draft

variable {nested : Bool} {d : Draft} {ops : List Op} {o : Op}

/-! ## Announcements -/

/-- The line that an operation announces. -/
def Op.line? : Op → Option Nat
  | .addLine line _ => some line
  | _ => none

/-- The lines that a sequence of operations announces, with their repetitions. -/
def announced (ops : List Op) : List Nat := ops.filterMap Op.line?

theorem announced_snoc : announced (ops ++ [o]) = announced ops ++ o.line?.toList := by
  rw [announced, List.filterMap_append]
  cases ho : o.line? <;> simp [ho, announced]

theorem part_of_line?_eq_none (ho : o.line? = none) : o.part ≠ .lines := by
  cases o with
  | addLine line force => cases ho
  | _ => exact fun h => by cases h

theorem addLine_again {line : Nat} (h : d.lastLine = some line) : d.addLine line false = d := by
  rw [addLine, if_neg (by simp [h])]

theorem addLine_recorded {line : Nat} {force : Bool} (h : d.lastLine ≠ some line ∨ force = true) :
    d.addLine line force = { d with lines := d.lines.push ⟨line, d.code.size⟩, lastLine := some line } :=
  if_pos h

/-- The table begins and ends with the first and the last line that was announced. -/
structure Tells (lines : List Nat) (d : Draft) : Prop where
  latest : d.lastLine = lines.getLast?
  last : d.lines.toList.getLast?.map (·.line) = lines.getLast?
  first : d.lines.toList.head?.map (·.line) = lines.head?

theorem Tells.addLine {lines : List Nat} (h : Tells lines d) (line : Nat) (force : Bool) :
    Tells (lines ++ [line]) (d.addLine line force) := by
  by_cases hnew : d.lastLine ≠ some line ∨ force = true
  · rw [addLine_recorded hnew]
    refine ⟨by simp, by simp, ?_⟩
    rw [Array.toList_push, List.head?_append, List.head?_append, Option.map_or, h.first]
    rfl
  · obtain ⟨hlast, hforce⟩ := not_or.1 hnew
    obtain rfl : force = false := by simpa using hforce
    have hlatest := not_not.1 hlast
    rw [addLine_again hlatest]
    rw [h.latest] at hlatest
    refine ⟨?_, ?_, ?_⟩
    · rw [h.latest, hlatest, List.getLast?_concat]
    · rw [h.last, hlatest, List.getLast?_concat]
    · have hne : lines ≠ [] := fun h0 => by simp [h0] at hlatest
      rw [h.first, List.head?_append_of_ne_nil _ hne]

theorem Tells.step {lines : List Nat} (h : Tells lines d) (nested : Bool) (o : Op) :
    Tells (lines ++ o.line?.toList) (d.step nested o) := by
  cases ho : o.line? with
  | none =>
    obtain ⟨hlines, hlast⟩ := (confined_step nested d o).lines (part_of_line?_eq_none ho)
    rw [Option.toList_none, List.append_nil]
    exact ⟨hlast ▸ h.latest, hlines ▸ h.last, hlines ▸ h.first⟩
  | some line =>
    cases o with
    | addLine line' force =>
      cases ho
      exact h.addLine line force
    | _ => cases ho

theorem tells_run (nested : Bool) (name source : String) (ops : List Op) :
    Tells (announced ops) (({ name, source } : Draft).run nested ops) := by
  induction ops using List.reverseRecOn with
  | nil => exact ⟨rfl, rfl, rfl⟩
  | append_singleton ops o ih =>
    rw [announced_snoc, run_append]
    exact ih.step nested o

/-! ## The table -/

/-- New entries stand at the end of the stream. -/
theorem lines_step (nested : Bool) (d : Draft) (o : Op) :
    ∃ added, (d.step nested o).lines.toList = d.lines.toList ++ added ∧
      ∀ l ∈ added, l.op = d.code.size := by
  cases ho : o.line? with
  | none =>
    rw [((confined_step nested d o).lines (part_of_line?_eq_none ho)).1]
    exact ⟨[], (List.append_nil _).symm, fun l hl => absurd hl List.not_mem_nil⟩
  | some line =>
    cases o with
    | addLine line' force =>
      by_cases hnew : d.lastLine ≠ some line' ∨ force = true
      · refine ⟨[⟨line', d.code.size⟩], ?_, fun l hl => by rw [List.mem_singleton.1 hl]⟩
        show (d.addLine line' force).lines.toList = _
        rw [addLine_recorded hnew, Array.toList_push]
      · refine ⟨[], ?_, fun l hl => absurd hl List.not_mem_nil⟩
        show (d.addLine line' force).lines.toList = _
        rw [addLine, if_neg hnew, List.append_nil]
    | _ => cases ho

theorem lines_run (nested : Bool) (d : Draft) (ops : List Op) :
    ∃ added, (d.run nested ops).lines.toList = d.lines.toList ++ added ∧
      ∀ l ∈ added, d.code.size ≤ l.op := by
  induction ops generalizing d with
  | nil => exact ⟨[], (List.append_nil _).symm, fun l hl => absurd hl List.not_mem_nil⟩
  | cons o ops ih =>
    obtain ⟨added, hstep, hat⟩ := lines_step nested d o
    obtain ⟨more, hrun, hfrom⟩ := ih (d.step nested o)
    refine ⟨added ++ more, by rw [run_cons, hrun, hstep, List.append_assoc], fun l hl => ?_⟩
    rcases List.mem_append.1 hl with hl | hl
    · exact Nat.le_of_eq (hat l hl).symm
    · exact Nat.le_trans (size_step nested d o) (hfrom l hl)

/-- The entries ascend, and none is behind the end of the stream. -/
structure LinesInOrder (d : Draft) : Prop where
  ascending : d.lines.toList.Pairwise fun l l' => l.op ≤ l'.op
  reached : ∀ l ∈ d.lines.toList, l.op ≤ d.code.size

theorem LinesInOrder.step (h : d.LinesInOrder) (nested : Bool) (o : Op) :
    (d.step nested o).LinesInOrder := by
  obtain ⟨added, hlines, hat⟩ := lines_step nested d o
  constructor
  · rw [hlines, List.pairwise_append]
    refine ⟨h.ascending, List.pairwise_of_forall_mem_list fun l hl l' hl' => ?_, fun l hl l' hl' => ?_⟩
    · rw [hat l hl, hat l' hl']
    · rw [hat l' hl']
      exact h.reached l hl
  · intro l hl
    refine Nat.le_trans ?_ (size_step nested d o)
    rw [hlines, List.mem_append] at hl
    rcases hl with hl | hl
    · exact h.reached l hl
    · exact Nat.le_of_eq (hat l hl)

theorem linesInOrder_run (nested : Bool) (name source : String) (ops : List Op) :
    (({ name, source } : Draft).run nested ops).LinesInOrder := by
  induction ops using List.reverseRecOn with
  | nil => exact ⟨List.Pairwise.nil, fun l hl => absurd hl List.not_mem_nil⟩
  | append_singleton ops o ih =>
    rw [run_append]
    exact ih.step nested o

/-! ## Lines of instructions -/

/-- Some operation appends the instruction of an index. -/
theorem exists_appends {ip : Nat} (hstart : d.code.size ≤ ip)
    (hip : ip < (d.run nested ops).code.size) :
    ∃ before o after, ops = before ++ o :: after ∧ Appends nested d before o ip := by
  induction ops using List.reverseRecOn with
  | nil => exact absurd hip (Nat.not_lt.2 hstart)
  | append_singleton ops o ih =>
    by_cases hold : ip < (d.run nested ops).code.size
    · obtain ⟨before, o', after, rfl, happ⟩ := ih hold
      exact ⟨before, o', after ++ [o], by simp, happ⟩
    · have hle := size_step_le nested (d.run nested ops) o
      refine ⟨ops, o, [], rfl, ?_, ?_⟩
      · rw [run_append, run_cons, run_nil] at hip
        omega
      · rw [run_append, run_cons, run_nil] at hip ⊢
        omega

/-- The operation that appends an instruction announces no line. -/
theorem Appends.lines_eq {before : List Op} {ip : Nat} (h : Appends nested d before o ip) :
    (d.run nested (before ++ [o])).lines = (d.run nested before).lines := by
  obtain ⟨hat, happ⟩ := h
  rw [run_append, run_cons, run_nil] at happ ⊢
  refine ((confined_step nested _ o).lines fun hp => ?_).1
  rw [((confined_step nested _ o).stream (by rw [hp]; decide)).code, hat] at happ
  exact absurd happ (Nat.ne_of_lt (Nat.lt_succ_self ip))

/-- However a function is built, its table of lines ascends, and each instruction has the
line announced last when it was appended, the first line of all when none was announced by
then, and 0 when there is none. -/
theorem lines_attributed (nested : Bool) (name source : String) (ops : List Op) {d : Draft}
    (hd : d = ({ name, source } : Draft).run nested ops) :
    d.build.lines.toList.Pairwise (fun l l' => l.op ≤ l'.op) ∧
      ∀ ip < d.code.size, ∃ before o after, ops = before ++ o :: after ∧
        Appends nested { name, source } before o ip ∧
        d.build.lineFor ip = ((announced before).getLast?.or (announced ops).head?).getD 0 := by
  subst hd
  refine ⟨(linesInOrder_run nested name source ops).ascending, fun ip hip => ?_⟩
  obtain ⟨before, o, after, hops, happ⟩ := exists_appends (Nat.zero_le ip) hip
  refine ⟨before, o, after, hops, happ, ?_⟩
  have hwhole : ({ name, source } : Draft).run nested ops =
      (({ name, source } : Draft).run nested (before ++ [o])).run nested after := by
    rw [hops, ← run_append, List.append_assoc, List.singleton_append]
  obtain ⟨later, hlines, hlater⟩ := lines_run nested
    (({ name, source } : Draft).run nested (before ++ [o])) after
  rw [← hwhole, happ.lines_eq] at hlines
  rw [happ.2] at hlater
  have hreached := (linesInOrder_run nested name source before).reached
  rw [happ.1] at hreached
  rw [Prototype.lineFor_of_split (p := Draft.build _) hlines hreached hlater, Option.map_or,
    (tells_run nested name source before).last]
  -- when nothing is recorded by then, what comes later is the whole table
  cases hbefore : (announced before).getLast? with
  | some line => rfl
  | none =>
    have hempty : (({ name, source } : Draft).run nested before).lines.toList = [] := by
      rw [← List.getLast?_eq_none_iff, ← Option.map_eq_none_iff (f := LineInfo.line),
        (tells_run nested name source before).last, hbefore]
    rw [hempty, List.nil_append] at hlines
    rw [Option.none_or, Option.none_or, ← hlines, (tells_run nested name source ops).first]

/-- A load before all announcements, another that is combined with the instruction of the
next line, and a last instruction after two announcements. -/
def combinedLines : List Op :=
  [loadSeven, .addLine 3 false, .emit { opcode := .load, arg0 := 2 }, .addLine 4 false,
    .emit { opcode := .get, arg0 := 3, arg1 := 2, arg2 := 1 }, .addLine 4 false, .addLine 5 false,
    .emit { opcode := .ret, arg0 := 3 }]

theorem lines_attributed_combinedLines :
    let d := ({ name := "f", source := "" } : Draft).run false combinedLines
    d.build.lines.toList = [⟨3, 1⟩, ⟨4, 2⟩, ⟨5, 2⟩] ∧ 2 < d.code.size ∧
      (∃ before o after, combinedLines = before ++ o :: after ∧
        Appends false { name := "f", source := "" } before o 2 ∧
        d.build.lineFor 2 =
          ((announced before).getLast?.or (announced combinedLines).head?).getD 0) ∧
      d.build.lineFor 0 = 3 ∧ d.build.lineFor 1 = 3 ∧ d.build.lineFor 2 = 5 :=
  ⟨by decide, by decide, (lines_attributed false "f" "" combinedLines rfl).2 2 (by decide),
    by decide, by decide, by decide⟩

end Draft

end ScriptMachine
