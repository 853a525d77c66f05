import ScriptMachine.Proofs.Json.Numbers
import ScriptMachine.Proofs.Json.Strings

/-!
# Stored trees read back

The text of a tree of written numbers and strings reads back as that tree, at any
depth and whatever follows, as long as no number goes on there. The reader uses
less of its bound than the text has characters, so the bound of a whole text is
enough.
-/

set_option autoImplicit false

namespace ScriptMachine.Json

/-- The trees that the writer is given: numbers in its grammar, and strings that
denote text. -/
inductive Written : Json → Prop where
  | null : Written .null
  | bool (b : Bool) : Written (.bool b)
  | number {lexeme : String} (h : Numeral lexeme.toList) : Written (.number lexeme)
  | string (s : String) : Written (.string (some s))
  | array {items : List Json} (h : ∀ j ∈ items, Written j) : Written (.array items)
  | object {entries : List (String × Json)} (h : ∀ e ∈ entries, Written e.2) :
      Written (.object (entries.map fun (e : String × Json) => (some e.1, e.2)))

/-! ## Blanks -/

def Blanks (cs : List Char) : Prop := ∀ c ∈ cs, isBlank c = true

theorem blanks_newline (depth : Nat) : Blanks (newline depth).toList := by
  intro c hc
  simp only [newline, String.toList_append, String.toList_ofList, List.mem_append,
    List.mem_replicate] at hc
  rcases hc with hc | ⟨-, rfl⟩
  · have : c = '\n' := by simpa using hc
    subst this
    decide
  · decide

theorem skip_blanks {bs : List Char} (h : Blanks bs) (cs : List Char) :
    skip (bs ++ cs) = skip cs :=
  List.dropWhile_append_of_pos h

theorem skip_cons {c : Char} (h : isBlank c = false) (cs : List Char) :
    skip (c :: cs) = c :: cs := by
  simp [skip, h]

theorem value?_blanks {bs : List Char} (h : Blanks bs) (fuel : Nat) (cs : List Char) :
    value? fuel (bs ++ cs) = value? fuel cs := by
  cases fuel with
  | zero => simp [value?]
  | succ fuel => simp only [value?, skip_blanks h]

theorem items?_blanks {bs : List Char} (h : Blanks bs) (fuel : Nat) (cs : List Char) :
    items? fuel (bs ++ cs) = items? fuel cs := by
  cases fuel with
  | zero => simp [items?]
  | succ fuel => simp only [items?, value?_blanks h]

theorem entries?_blanks {bs : List Char} (h : Blanks bs) (fuel : Nat) (cs : List Char) :
    entries? fuel (bs ++ cs) = entries? fuel cs := by
  cases fuel with
  | zero => simp [entries?]
  | succ fuel => simp only [entries?, skip_blanks h]

theorem ends_newline (depth : Nat) (rest : List Char) : Ends ((newline depth).toList ++ rest) := by
  rintro c more h
  have : c = '\n' := by
    simp only [newline, String.toList_append] at h
    exact ((List.cons_eq_cons.1 h).1).symm
  subst this
  decide

/-! ## The first character -/

/-- A character that begins a value; a closing bracket does not. -/
def Opens (c : Char) : Prop := isBlank c = false ∧ c ≠ ']'

theorem isDigit_opens {d : Char} (h : d.isDigit = true) :
    Opens d ∧ d ≠ 'n' ∧ d ≠ 't' ∧ d ≠ 'f' ∧ d ≠ '"' ∧ d ≠ '[' ∧ d ≠ '\x7b' := by
  have hne (c : Char) (hc : c.isDigit = false) : d ≠ c := by
    rintro rfl
    exact Bool.noConfusion (h.symm.trans hc)
  refine ⟨⟨?_, hne _ rfl⟩, hne _ rfl, hne _ rfl, hne _ rfl, hne _ rfl, hne _ rfl, hne _ rfl⟩
  simp [isBlank, hne ' ' rfl, hne '\n' rfl, hne '\t' rfl, hne '\r' rfl]

theorem Numeral.head {cs : List Char} (h : Numeral cs) :
    ∃ c more, cs = c :: more ∧ Opens c ∧
      c ≠ 'n' ∧ c ≠ 't' ∧ c ≠ 'f' ∧ c ≠ '"' ∧ c ≠ '[' ∧ c ≠ '\x7b' := by
  obtain ⟨sign, whole, fraction, exponent, rfl, hsign, hwhole, -⟩ := h
  rcases hsign with rfl | rfl
  · obtain ⟨d, more, rfl, hd⟩ := hwhole.1.head
    exact ⟨d, more ++ (fraction ++ exponent), rfl, isDigit_opens hd⟩
  · exact ⟨'-', _, rfl, by unfold Opens; decide⟩

theorem toList_block_cons (opening closing : String) (depth : Nat) (item : String)
    (more : List String) :
    (block opening closing depth (item :: more)).toList =
      opening.toList ++ ((newline (depth + 1)).toList ++
        ((String.intercalate ("," ++ newline (depth + 1)) (item :: more)).toList ++
          ((newline depth).toList ++ closing.toList))) := by
  simp [block]

theorem toList_block_head (opening closing : String) (depth : Nat) (items : List String) :
    ∃ more, (block opening closing depth items).toList = opening.toList ++ more := by
  cases items with
  | nil => exact ⟨_, String.toList_append⟩
  | cons item more => exact ⟨_, toList_block_cons ..⟩

/-- The text of a value begins with a character that is no blank and no closing
bracket. -/
theorem render_head {j : Json} (h : Written j) (depth : Nat) :
    ∃ c more, (render depth j).toList = c :: more ∧ Opens c := by
  cases h with
  | null => exact ⟨'n', _, by rw [render]; rfl, by unfold Opens; decide⟩
  | bool b =>
    cases b
    · exact ⟨'f', _, by rw [render]; rfl, by unfold Opens; decide⟩
    · exact ⟨'t', _, by rw [render]; rfl, by unfold Opens; decide⟩
  | number h =>
    obtain ⟨c, more, heq, hopens, -⟩ := h.head
    exact ⟨c, more, by rwa [render], hopens⟩
  | string s => exact ⟨'"', _, by rw [render, quoted, toList_stored]; rfl, by unfold Opens; decide⟩
  | @array items h =>
    obtain ⟨more, heq⟩ := toList_block_head "[" "]" depth (renderItems (depth + 1) items)
    exact ⟨'[', more, by rw [render]; exact heq, by unfold Opens; decide⟩
  | @object entries h =>
    obtain ⟨more, heq⟩ := toList_block_head "\x7b" "\x7d" depth
      (renderEntries (depth + 1) (entries.map fun (e : String × Json) => (some e.1, e.2)))
    exact ⟨'\x7b', more, by rw [render]; exact heq, by unfold Opens; decide⟩

/-! ## Values -/

/-- The text of a tree reads back as the tree under a bound of its length. -/
def ReadsBack (j : Json) : Prop :=
  ∀ depth fuel rest, (render depth j).toList.length ≤ fuel → Ends rest →
    value? fuel ((render depth j).toList ++ rest) = some (j, rest)

/-- The text of one item or more, as it stands between the brackets. -/
def itemsText (depth : Nat) (items : List Json) : List Char :=
  (String.intercalate ("," ++ newline depth) (renderItems depth items)).toList

theorem itemsText_cons (depth : Nat) (j k : Json) (more : List Json) :
    itemsText depth (j :: k :: more) =
      (render depth j).toList ++ ',' :: ((newline depth).toList ++ itemsText depth (k :: more)) := by
  simp [itemsText, renderItems]

theorem items?_itemsText (fuel depth outer : Nat) (rest : List Char) {items : List Json} {j : Json}
    (h : ∀ k ∈ j :: items, ReadsBack k) (hfuel : (itemsText depth (j :: items)).length < fuel) :
    items? fuel (itemsText depth (j :: items) ++ ((newline outer).toList ++ ']' :: rest)) =
      some (j :: items, rest) := by
  induction items generalizing j fuel with
  | nil =>
    obtain ⟨n, rfl⟩ := Nat.exists_eq_succ_of_ne_zero (Nat.ne_zero_of_lt hfuel)
    have hj := h j List.mem_cons_self depth n ((newline outer).toList ++ ']' :: rest)
      (by simpa [itemsText, renderItems, Nat.lt_succ_iff] using hfuel) (ends_newline _ _)
    have hskip : skip ((newline outer).toList ++ ']' :: rest) = ']' :: rest := by
      rw [skip_blanks (blanks_newline outer), skip_cons rfl]
    simp [items?, itemsText, renderItems, hj, hskip]
  | cons k more ih =>
    obtain ⟨n, rfl⟩ := Nat.exists_eq_succ_of_ne_zero (Nat.ne_zero_of_lt hfuel)
    rw [itemsText_cons] at hfuel ⊢
    simp only [List.length_append, List.length_cons] at hfuel
    have hj := h j List.mem_cons_self depth n
      (',' :: ((newline depth).toList ++ (itemsText depth (k :: more) ++
        ((newline outer).toList ++ ']' :: rest)))) (by omega) (ends_cons (by decide))
    have hmore := ih n (fun i hi => h i (List.mem_cons_of_mem _ hi)) (by omega)
    simp [items?, hj, skip_cons (c := ',') rfl, items?_blanks (blanks_newline depth), hmore]

/-- The text of one entry or more, as it stands between the braces. -/
def entriesText (depth : Nat) (entries : List (String × Json)) : List Char :=
  (String.intercalate ("," ++ newline depth)
    (renderEntries depth (entries.map fun (e : String × Json) => (some e.1, e.2)))).toList

theorem entriesText_singleton (depth : Nat) (e : String × Json) :
    entriesText depth [e] = '"' :: ((e.1.toList.flatMap fun (c : Char) =>
      (Quoting.storedChar c).toList) ++ '"' :: ':' :: ' ' :: (render depth e.2).toList) := by
  simp [entriesText, renderEntries, quoted, toList_stored]

theorem entriesText_cons (depth : Nat) (e f : String × Json) (more : List (String × Json)) :
    entriesText depth (e :: f :: more) =
      entriesText depth [e] ++ ',' :: ((newline depth).toList ++ entriesText depth (f :: more)) := by
  simp [entriesText, renderEntries]

theorem length_lt_entriesText (depth : Nat) (e : String × Json) :
    (render depth e.2).toList.length < (entriesText depth [e]).length := by
  rw [entriesText_singleton]
  simp only [List.length_cons, List.length_append]
  omega

/-- The reader takes one entry and looks at what follows it. -/
theorem entries?_entry {depth fuel : Nat} {e : String × Json} {rest : List Char}
    (h : ReadsBack e.2) (hfuel : (render depth e.2).toList.length ≤ fuel) (hrest : Ends rest) :
    entries? (fuel + 1) (entriesText depth [e] ++ rest) =
      match skip rest with
      | ',' :: more =>
        (entries? fuel more).map fun (p : List (Option String × Json) × List Char) =>
          ((some e.1, e.2) :: p.1, p.2)
      | '\x7d' :: more => some ([(some e.1, e.2)], more)
      | _ => none := by
  have hvalue := h depth fuel rest hfuel hrest
  have hspace : value? fuel (' ' :: ((render depth e.2).toList ++ rest)) = some (e.2, rest) := by
    rw [← hvalue]
    have hblank : Blanks [' '] := by simp [Blanks, isBlank]
    exact value?_blanks hblank fuel _
  have hkey := string?_stored e.1 (':' :: ' ' :: ((render depth e.2).toList ++ rest))
  rw [entriesText_singleton]
  simp only [List.cons_append, List.append_assoc, entries?, skip_cons (c := '"') rfl, hkey,
    skip_cons (c := ':') rfl, hspace, Option.bind_eq_bind, Option.bind_some, Option.map_eq_bind]
  rfl

theorem entries?_entriesText (fuel depth outer : Nat) (rest : List Char)
    {entries : List (String × Json)} {e : String × Json} (h : ∀ f ∈ e :: entries, ReadsBack f.2)
    (hfuel : (entriesText depth (e :: entries)).length < fuel) :
    entries? fuel (entriesText depth (e :: entries) ++ ((newline outer).toList ++ '\x7d' :: rest)) =
      some ((e :: entries).map fun (f : String × Json) => (some f.1, f.2), rest) := by
  have hlen := length_lt_entriesText depth e
  induction entries generalizing e fuel with
  | nil =>
    obtain ⟨n, rfl⟩ := Nat.exists_eq_succ_of_ne_zero (Nat.ne_zero_of_lt hfuel)
    have hskip : skip ((newline outer).toList ++ '\x7d' :: rest) = '\x7d' :: rest := by
      rw [skip_blanks (blanks_newline outer), skip_cons rfl]
    rw [entries?_entry (h e List.mem_cons_self) (by omega) (ends_newline _ _), hskip]
    rfl
  | cons f more ih =>
    obtain ⟨n, rfl⟩ := Nat.exists_eq_succ_of_ne_zero (Nat.ne_zero_of_lt hfuel)
    rw [entriesText_cons] at hfuel ⊢
    simp only [List.length_append, List.length_cons] at hfuel
    have hmore := ih n (fun g hg => h g (List.mem_cons_of_mem _ hg)) (by omega)
      (length_lt_entriesText depth f)
    rw [List.append_assoc, List.cons_append,
      entries?_entry (h e List.mem_cons_self) (by omega) (ends_cons (by decide)), skip_cons rfl,
      List.append_assoc]
    simp [entries?_blanks (blanks_newline depth), hmore]

/-! ## Whole trees -/

theorem render_length_pos {j : Json} (h : Written j) (depth : Nat) :
    0 < (render depth j).toList.length := by
  obtain ⟨c, more, heq, -⟩ := render_head h depth
  simp [heq]

theorem itemsText_head {j : Json} (h : Written j) (depth : Nat) (items : List Json)
    (rest : List Char) :
    ∃ c more, itemsText depth (j :: items) ++ rest = c :: more ∧ Opens c := by
  obtain ⟨c, more, heq, hopens⟩ := render_head h depth
  cases items with
  | nil => exact ⟨c, more ++ rest, by simp [itemsText, renderItems, heq], hopens⟩
  | cons k items => exact ⟨c, _, by rw [itemsText_cons, heq]; rfl, hopens⟩

theorem readsBack_array {items : List Json} (hw : ∀ j ∈ items, Written j)
    (h : ∀ j ∈ items, ReadsBack j) : ReadsBack (.array items) := by
  intro depth fuel rest hfuel _
  obtain ⟨n, rfl⟩ := Nat.exists_eq_succ_of_ne_zero
    (Nat.ne_zero_of_lt (Nat.lt_of_lt_of_le (render_length_pos (.array hw) depth) hfuel))
  rw [render] at hfuel ⊢
  cases items with
  | nil => simp [renderItems, block, value?, skip_cons (c := '[') rfl, skip_cons (c := ']') rfl]
  | cons j more =>
    obtain ⟨c, after, hhead, hopens⟩ := itemsText_head (hw j List.mem_cons_self) (depth + 1) more
      ((newline depth).toList ++ ']' :: rest)
    have htext : (block "[" "]" depth (renderItems (depth + 1) (j :: more))).toList =
        '[' :: ((newline (depth + 1)).toList ++
          (itemsText (depth + 1) (j :: more) ++ ((newline depth).toList ++ [']']))) :=
      toList_block_cons ..
    rw [htext] at hfuel ⊢
    simp only [List.length_cons, List.length_append] at hfuel
    have hitems := items?_itemsText n (depth + 1) depth rest h (by omega)
    have hclose : c ≠ ']' := hopens.2
    rw [hhead] at hitems
    simp [value?, skip_cons (c := '[') rfl, skip_blanks (blanks_newline _), hhead, skip_cons hopens.1,
      hclose, hitems]

theorem readsBack_object {entries : List (String × Json)} (h : ∀ e ∈ entries, ReadsBack e.2)
    (hw : ∀ e ∈ entries, Written e.2) :
    ReadsBack (.object (entries.map fun (e : String × Json) => (some e.1, e.2))) := by
  intro depth fuel rest hfuel _
  obtain ⟨n, rfl⟩ := Nat.exists_eq_succ_of_ne_zero
    (Nat.ne_zero_of_lt (Nat.lt_of_lt_of_le (render_length_pos (.object hw) depth) hfuel))
  rw [render] at hfuel ⊢
  cases entries with
  | nil =>
    simp [renderEntries, block, value?, skip_cons (c := '\x7b') rfl, skip_cons (c := '\x7d') rfl]
  | cons e more =>
    have htext : (block "\x7b" "\x7d" depth (renderEntries (depth + 1)
        ((e :: more).map fun (e : String × Json) => (some e.1, e.2)))).toList =
        '\x7b' :: ((newline (depth + 1)).toList ++
          (entriesText (depth + 1) (e :: more) ++ ((newline depth).toList ++ ['\x7d']))) :=
      toList_block_cons ..
    rw [htext] at hfuel ⊢
    simp only [List.length_cons, List.length_append] at hfuel
    have hentries := entries?_entriesText n (depth + 1) depth rest h (by omega)
    have hhead : ∃ after, entriesText (depth + 1) (e :: more) ++
        ((newline depth).toList ++ '\x7d' :: rest) = '"' :: after := by
      cases more with
      | nil => exact ⟨_, by rw [entriesText_singleton]; rfl⟩
      | cons f more => exact ⟨_, by rw [entriesText_cons, entriesText_singleton]; rfl⟩
    obtain ⟨after, hhead⟩ := hhead
    rw [hhead] at hentries
    simp [value?, skip_cons (c := '\x7b') rfl, skip_blanks (blanks_newline _), hhead,
      skip_cons (c := '"') rfl, hentries]

theorem readsBack_number {lexeme : String} (h : Numeral lexeme.toList) :
    ReadsBack (.number lexeme) := by
  intro depth fuel rest hfuel hrest
  obtain ⟨n, rfl⟩ := Nat.exists_eq_succ_of_ne_zero
    (Nat.ne_zero_of_lt (Nat.lt_of_lt_of_le (render_length_pos (.number h) depth) hfuel))
  rw [render]
  have hnumber := number?_append h hrest
  obtain ⟨c, more, heq, hopens, hn, ht, hf, hquote, hbracket, hbrace⟩ := h.head
  rw [heq, List.cons_append] at hnumber ⊢
  simp [value?, skip_cons hopens.1, hn, ht, hf, hquote, hbracket, hbrace, hnumber, ← heq]

theorem readsBack_string (s : String) : ReadsBack (.string (some s)) := by
  intro depth fuel rest hfuel _
  obtain ⟨n, rfl⟩ := Nat.exists_eq_succ_of_ne_zero
    (Nat.ne_zero_of_lt (Nat.lt_of_lt_of_le (render_length_pos (.string s) depth) hfuel))
  have hread := string?_stored s rest
  simp [render, quoted, toList_stored, value?, skip_cons (c := '"') rfl, hread]

/-- Every written tree reads back from its text. -/
theorem Written.readsBack {j : Json} (h : Written j) : ReadsBack j := by
  induction h with
  | null =>
    intro depth fuel rest hfuel _
    cases fuel with
    | zero => simp [render] at hfuel
    | succ n => simp [render, value?, skip_cons (c := 'n') rfl]
  | bool b =>
    intro depth fuel rest hfuel _
    cases fuel with
    | zero => cases b <;> simp [render] at hfuel
    | succ n => cases b <;> simp [render, value?, skip_cons (c := 't') rfl, skip_cons (c := 'f') rfl]
  | number h => exact readsBack_number h
  | string s => exact readsBack_string s
  | array hw ih => exact readsBack_array hw ih
  | object hw ih => exact readsBack_object ih hw

/-- Reading the text of a written tree gives the tree back. -/
theorem parse?_text {j : Json} (h : Written j) : parse? (text j) = some j := by
  have hread := h.readsBack 0 (2 * (text j).toList.length + 2) [] (by rw [text]; omega) ends_nil
  rw [List.append_nil, ← text] at hread
  simp only [parse?, hread]
  rfl

end ScriptMachine.Json
