import ScriptMachine.Proofs.Machine.Refusals

/-!
# Own members and the test for them

The test for a member says of every value and key whether a read finds a member of the
value itself, with one exception: it does not know the keys that count bytes from the end
of a string.
-/

set_option autoImplicit false

namespace ScriptMachine

/-- The key counts from the end of a string. -/
def CountsBack (obj key : Value) : Prop :=
  ∃ s i, obj = .string s ∧ key = .integer i ∧ i < 0

namespace Heap

variable {h : Heap}

theorem position?_cases (i : Int64) (length : Nat) :
    (∃ p < length, position? i length = some p) ∨ position? i length = none := by
  unfold position?
  split
  · rename_i h
    exact .inl ⟨_, h.2, rfl⟩
  · exact .inr rfl

theorem position?_isSome {i : Int64} {length : Nat} :
    (position? i length).isSome = true ↔ 0 ≤ i ∧ i.toInt.toNat < length := by
  unfold position?
  split
  · rename_i h
    exact ⟨fun _ => h, fun _ => rfl⟩
  · rename_i h
    exact ⟨fun hsome => (by cases hsome), fun hin => absurd hin h⟩

/-- A position within an array has an element. -/
theorem itemAt_found {r : Ref} {i : Int64} :
    (∃ v, h.itemAt r i = .ok v) ↔ (position? i (h.items r).size).isSome = true := by
  unfold itemAt
  rcases position?_cases i (h.items r).size with ⟨p, hp, heq⟩ | heq
  · simp [heq, Array.getElem?_eq_getElem hp]
  · simp [heq]

/-- A position within a string has a byte. -/
theorem byteAt?_isSome (s : String) (i : Int64) :
    (byteAt? s i).isSome = (position? i s.utf8ByteSize).isSome := by
  unfold byteAt?
  rcases position?_cases i s.utf8ByteSize with ⟨p, hp, heq⟩ | heq
  · have hbyte : ∃ b, s.toUTF8[p]? = some b := ⟨_, getElem?_pos s.toUTF8 p hp⟩
    obtain ⟨b, hb⟩ := hbyte
    rw [heq, Option.bind_some, hb]
    rfl
  · rw [heq]
    rfl

theorem byteAt_found {s : String} {i : Int64} :
    (∃ v, byteAt s i = .ok v) ↔
      (position? (if i < 0 then i + Int64.ofNat s.utf8ByteSize else i) s.utf8ByteSize).isSome := by
  rw [← byteAt?_isSome]
  unfold byteAt
  dsimp only
  cases byteAt? s (if i < 0 then i + Int64.ofNat s.utf8ByteSize else i) <;> simp

theorem map_some_eq_ok {found : Except SlotError Value} {v : Value} :
    found.map some = .ok (some v) ↔ found = .ok v := by
  cases found <;> simp [Except.map]

theorem position?_of_neg {i : Int64} (hi : i < 0) (length : Nat) : position? i length = none :=
  if_neg fun h => absurd hi (Int64.not_lt.2 h.1)

theorem hasMember_iff {obj key : Value} : h.hasMember obj key = true ↔
    (∃ v, h.member? obj key = .ok (some v)) ∧ ¬ CountsBack obj key := by
  unfold hasMember
  split
  case h_2 r i =>
    simp only [member?, map_some_eq_ok, itemAt_found]
    simp [CountsBack]
  case h_3 s i =>
    have hback : CountsBack (.string s) (.integer i) ↔ i < 0 :=
      ⟨fun ⟨_, _, _, hkey, hi⟩ => by rwa [Value.integer.inj hkey], fun hi => ⟨s, i, rfl, rfl, hi⟩⟩
    simp only [member?, map_some_eq_ok, byteAt_found, hback]
    by_cases hi : i < 0
    · simp [position?_of_neg hi, hi]
    · simp [hi]
  case h_6 hdict harray hstring hinstance hclass =>
    -- the read knows no other kinds of members
    have hnone : h.member? obj key = .ok none := by
      unfold member?
      split
      · exact absurd rfl (hdict _ _ · rfl)
      · exact absurd rfl (harray _ _ · rfl)
      · exact absurd rfl (hstring _ _ · rfl)
      · exact absurd rfl (hinstance _ _ · rfl)
      · exact absurd rfl (hclass _ _ · rfl)
      · rfl
    simp [hnone]
  case h_1 | h_4 | h_5 => simp [member?, CountsBack, Option.isSome_iff_exists]

end Heap

namespace Exec

variable {m : Machine} {obj key : Value}

/-- A read finds a member of the value itself: it gives one and the same value, whatever a
call would come to and whatever methods the types have. -/
def FindsOwn (m : Machine) (obj key : Value) : Prop :=
  ∃ v, ∀ (call : Caller) (methods : List Ref), ∃ m',
    getMember call obj key { m with delegates := methods } = .ok v m'

theorem looksUp {found : Except SlotError (Option Value)} (hfound : m.heap.member? obj key = found) :
    readHeap (fun (h : Heap) => h.member? obj key) m = .ok found m :=
  congrArg (EStateM.Result.ok · m) hfound

/-- Nothing is called for an own member. -/
theorem getMember_own {v : Value} (hv : m.heap.member? obj key = .ok (some v)) (call : Caller) :
    getMember call obj key m = .ok v (m.withHeap (m.heap.retain v)) := by
  unfold getMember
  rw [bind_ok m (looksUp hv)]
  exact bind_ok m (retain_eq m v)

theorem keyDelegate?_none (hmethods : m.delegates = []) (tag : TypeTag) (key : Value) :
    keyDelegate? tag key m = .ok none m := by
  unfold keyDelegate?
  split
  · show EStateM.Result.ok ((m.delegates[tag.index]?).bind _) m = _
    rw [hmethods]
    rfl
  · rfl

/-- Without an own member there is no answer where nothing can be called and types have no
methods. -/
theorem getMember_stuck {v : Value} {m' : Machine} (hmethods : m.delegates = [])
    (h : getMember stuck obj key m = .ok v m') : m.heap.member? obj key = .ok (some v) := by
  unfold getMember at h
  cases hfound : m.heap.member? obj key with
  | error e =>
    rw [bind_ok m (looksUp hfound)] at h
    cases h
  | ok found =>
    rw [bind_ok m (looksUp hfound)] at h
    cases found with
    | some w =>
      have hshared : sharing w m = .ok w (m.withHeap (m.heap.retain w)) := bind_ok m (retain_eq m w)
      dsimp only at h
      rw [hshared] at h
      cases h
      rfl
    | none =>
      dsimp only at h
      have hmeta : readHeap (fun (h : Heap) => h.metaOf? obj .get) m =
          .ok (m.heap.metaOf? obj .get) m := rfl
      rw [bind_ok m hmeta] at h
      cases hm : m.heap.metaOf? obj .get with
      | some g =>
        rw [hm] at h
        obtain ⟨n, hstuck⟩ := callMeta_stuck g [obj, key] [] m
        dsimp only at h
        rw [hstuck] at h
        cases h
      | none =>
        rw [hm] at h
        dsimp only at h
        rw [bind_ok m (keyDelegate?_none hmethods obj.tag key)] at h
        cases h

theorem findsOwn_iff : FindsOwn m obj key ↔ ∃ v, m.heap.member? obj key = .ok (some v) := by
  constructor
  · rintro ⟨v, hreads⟩
    obtain ⟨m', hread⟩ := hreads stuck []
    exact ⟨v, getMember_stuck (m := { m with delegates := [] }) rfl hread⟩
  · rintro ⟨v, hv⟩
    exact ⟨v, fun call methods => ⟨_, getMember_own (m := { m with delegates := methods }) hv call⟩⟩

/-- A key from the end reaches as far back as the string has bytes. -/
theorem findsOwn_back {s : Text} {i : Int64} (hsize : s.chars.utf8ByteSize < 2 ^ 63) (hi : i < 0) :
    FindsOwn m (.string s) (.integer i) ↔ 0 ≤ i.toInt + s.chars.utf8ByteSize := by
  have hneg : i.toInt < 0 := Int64.lt_iff_toInt_lt.1 hi
  have hsum : (i + Int64.ofNat s.chars.utf8ByteSize).toInt = i.toInt + s.chars.utf8ByteSize := by
    have hmin := i.le_toInt
    rw [Int64.toInt_add, Int64.toInt_ofNat_of_lt hsize]
    exact Int.bmod_eq_of_le (by omega) (by omega)
  simp only [findsOwn_iff, Heap.member?, Heap.map_some_eq_ok, Heap.byteAt_found, if_pos hi,
    Heap.position?_isSome, Int64.le_iff_toInt_le, hsum, Int64.toInt_zero]
  omega

/-- Of every value and every key, the test tells whether a read finds an own member, keys
from the end of a string apart. Of those it denies all, and a read finds the ones that do
not reach before the first byte. -/
theorem presence_told (m : Machine) (obj key : Value) :
    (∃ told, hasMember obj key m = .ok told m ∧
      (told = true ↔ FindsOwn m obj key ∧ ¬ CountsBack obj key)) ∧
    ∀ (s : Text) (i : Int64), s.chars.utf8ByteSize < 2 ^ 63 → i < 0 →
      (FindsOwn m (.string s) (.integer i) ↔ 0 ≤ i.toInt + s.chars.utf8ByteSize) :=
  ⟨⟨m.heap.hasMember obj key, rfl, by rw [Heap.hasMember_iff, findsOwn_iff]⟩,
    fun _ _ hsize hi => findsOwn_back hsize hi⟩

/-- A string of two bytes. -/
def twoBytes : Text := ⟨⟨0⟩, "AB"⟩

theorem presence_told_lastByte :
    twoBytes.chars.utf8ByteSize < 2 ^ 63 ∧ (-1 : Int64) < 0 ∧
      (∃ told, hasMember (.string twoBytes) (.integer 1) {} = .ok told {} ∧
        (told = true ↔ FindsOwn {} (.string twoBytes) (.integer 1) ∧
          ¬ CountsBack (.string twoBytes) (.integer 1))) ∧
      (FindsOwn {} (.string twoBytes) (.integer (-1)) ↔
        0 ≤ (-1 : Int64).toInt + twoBytes.chars.utf8ByteSize) ∧
      hasMember (.string twoBytes) (.integer 1) {} = .ok true {} :=
  ⟨by decide, by decide, (presence_told {} (.string twoBytes) (.integer 1)).1,
    (presence_told {} .null .null).2 twoBytes (-1) (by decide) (by decide), rfl⟩

/-- A read finds the last byte counted from the end, and the test denies it. -/
theorem lastByte_denied :
    hasMember (.string twoBytes) (.integer (-1)) {} = .ok false {} ∧
      FindsOwn {} (.string twoBytes) (.integer (-1)) :=
  ⟨rfl, (findsOwn_back (by decide) (by decide)).2 (by decide)⟩

end Exec

end ScriptMachine
