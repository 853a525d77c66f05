import Mathlib.Data.List.Nodup
import Mathlib.Data.List.Perm.Subperm
import ScriptMachine.Heap.Chain

/-!
# The chain as a list

A chain carries a list of nodes with their objects. Insertion puts an entry in
front of that list, unlinking takes one out, and a walk from the head reads it.
-/

set_option autoImplicit false

namespace ScriptMachine.Chain

/-- A path through filled nodes, from a cursor and the node before it to the
cursor and the node before it at the end of the list. -/
def Threads (nodes : Array ChainNode) :
    Option Nat → Option Nat → List (Nat × Ref) → Option Nat → Option Nat → Prop
  | p, c, [], p', c' => p = p' ∧ c = c'
  | p, c, (i, r) :: rest, p', c' =>
    c = some i ∧ ∃ next, nodes[i]? = some ⟨p, next, some r⟩ ∧ Threads nodes (some i) next rest p' c'

theorem threads_append (nodes : Array ChainNode) (p c p' c' : Option Nat)
    (xs ys : List (Nat × Ref)) :
    Threads nodes p c (xs ++ ys) p' c' ↔
      ∃ q d, Threads nodes p c xs q d ∧ Threads nodes q d ys p' c' := by
  induction xs generalizing p c with
  | nil =>
    constructor
    · intro h
      exact ⟨p, c, ⟨rfl, rfl⟩, h⟩
    · rintro ⟨q, d, ⟨rfl, rfl⟩, h⟩
      exact h
  | cons e xs ih =>
    obtain ⟨i, r⟩ := e
    simp only [List.cons_append, Threads, ih]
    constructor
    · rintro ⟨hc, next, hn, q, d, hx, hy⟩
      exact ⟨q, d, ⟨hc, next, hn, hx⟩, hy⟩
    · rintro ⟨q, d, ⟨hc, next, hn, hx⟩, hy⟩
      exact ⟨hc, next, hn, q, d, hx, hy⟩

/-- A path sees no other nodes than its own. -/
theorem threads_frame {nodes nodes' : Array ChainNode} {p c p' c' : Option Nat}
    {xs : List (Nat × Ref)} (hf : ∀ e ∈ xs, nodes'[e.1]? = nodes[e.1]?)
    (h : Threads nodes p c xs p' c') : Threads nodes' p c xs p' c' := by
  induction xs generalizing p c with
  | nil => exact h
  | cons e xs ih =>
    obtain ⟨i, r⟩ := e
    obtain ⟨hc, next, hn, hr⟩ := h
    refine ⟨hc, next, ?_, ih (fun e he => hf e (List.mem_cons_of_mem _ he)) hr⟩
    rw [hf (i, r) List.mem_cons_self]
    exact hn

theorem threads_filled {nodes : Array ChainNode} {p c p' c' : Option Nat}
    {xs : List (Nat × Ref)} (h : Threads nodes p c xs p' c') {i : Nat} {r : Ref}
    (hi : (i, r) ∈ xs) : ∃ prev next, nodes[i]? = some ⟨prev, next, some r⟩ := by
  induction xs generalizing p c with
  | nil => cases hi
  | cons e xs ih =>
    obtain ⟨j, s⟩ := e
    obtain ⟨_, next, hn, hr⟩ := h
    rcases List.mem_cons.1 hi with heq | hi
    · cases heq
      exact ⟨p, next, hn⟩
    · exact ih hr hi

/-- The cursor of a path to the end of the list is at its first node. -/
theorem cursor_mem {nodes : Array ChainNode} {p p' : Option Nat} {xs : List (Nat × Ref)} {i : Nat}
    (h : Threads nodes p (some i) xs p' none) : i ∈ xs.map (·.1) := by
  cases xs with
  | nil => cases h.2
  | cons e xs =>
    obtain ⟨hi, -⟩ := h
    rw [Option.some.inj hi]
    exact List.mem_cons_self

/-- A path from the start of the list has come to its last node. -/
theorem last_mem {nodes : Array ChainNode} {c c' : Option Nat} {xs : List (Nat × Ref)} {i : Nat}
    (h : Threads nodes none c xs (some i) c') : i ∈ xs.map (·.1) := by
  rcases List.eq_nil_or_concat xs with rfl | ⟨ys, ⟨j, r⟩, rfl⟩
  · cases h.1
  · rw [List.concat_eq_append, threads_append] at *
    obtain ⟨-, -, -, -, -, -, hj, -⟩ := h
    rw [List.map_append, ← Option.some.inj hj]
    exact List.mem_append_right _ List.mem_cons_self

/-! ## Changing the ends of a path -/

theorem getElem?_setPrev (nodes : Array ChainNode) (i j : Nat) (prev : Option Nat) :
    (setPrev nodes i prev)[j]? =
      if i = j then (nodes[j]?).map fun (n : ChainNode) => { n with prev } else nodes[j]? := by
  simp [setPrev, Array.getElem?_modify]

theorem getElem?_setNext (nodes : Array ChainNode) (i j : Nat) (next : Option Nat) :
    (setNext nodes i next)[j]? =
      if i = j then (nodes[j]?).map fun (n : ChainNode) => { n with next } else nodes[j]? := by
  simp [setNext, Array.getElem?_modify]

/-- Gives the first node of a path another predecessor. -/
def relinkPrev (nodes : Array ChainNode) (c p : Option Nat) : Array ChainNode :=
  match c with
  | some i => setPrev nodes i p
  | none => nodes

/-- Gives the last node of a path another successor. -/
def relinkNext (nodes : Array ChainNode) (p c : Option Nat) : Array ChainNode :=
  match p with
  | some i => setNext nodes i c
  | none => nodes

theorem relinkPrev_of_ne {nodes : Array ChainNode} {c p : Option Nat} {j : Nat}
    (h : c ≠ some j) : (relinkPrev nodes c p)[j]? = nodes[j]? := by
  cases c with
  | none => rfl
  | some i => simp only [relinkPrev, getElem?_setPrev]; split <;> simp_all

theorem relinkNext_of_ne {nodes : Array ChainNode} {c p : Option Nat} {j : Nat}
    (h : p ≠ some j) : (relinkNext nodes p c)[j]? = nodes[j]? := by
  cases p with
  | none => rfl
  | some i => simp only [relinkNext, getElem?_setNext]; split <;> simp_all

@[simp] theorem size_relinkPrev (nodes : Array ChainNode) (c p : Option Nat) :
    (relinkPrev nodes c p).size = nodes.size := by
  cases c <;> simp [relinkPrev, setPrev]

@[simp] theorem size_relinkNext (nodes : Array ChainNode) (p c : Option Nat) :
    (relinkNext nodes p c).size = nodes.size := by
  cases p <;> simp [relinkNext, setNext]

theorem threads_relinkPrev {nodes : Array ChainNode} {p c q p' : Option Nat}
    {xs : List (Nat × Ref)} (hd : (xs.map (·.1)).Nodup) (h : Threads nodes p c xs p' none) :
    ∃ p'', Threads (relinkPrev nodes c q) q c xs p'' none := by
  cases xs with
  | nil =>
    obtain ⟨_, rfl⟩ := h
    exact ⟨q, rfl, rfl⟩
  | cons e xs =>
    obtain ⟨i, r⟩ := e
    obtain ⟨rfl, next, hn, hr⟩ := h
    refine ⟨p', rfl, next, ?_, threads_frame ?_ hr⟩
    · simp [relinkPrev, getElem?_setPrev, hn]
    · intro e he
      apply relinkPrev_of_ne
      intro heq
      have hi : i ∉ xs.map (·.1) := (List.nodup_cons.1 hd).1
      exact hi (List.mem_map.2 ⟨e, he, (Option.some.inj heq).symm⟩)

/-- The successor of an empty path is its cursor. -/
def cursorAfter (q c d : Option Nat) : Option Nat :=
  match q with
  | some _ => c
  | none => d

theorem threads_relinkNext {nodes : Array ChainNode} {c q d d' : Option Nat}
    {xs : List (Nat × Ref)} (hd : (xs.map (·.1)).Nodup) (h : Threads nodes none c xs q d') :
    Threads (relinkNext nodes q d) none (cursorAfter q c d) xs q d := by
  rcases List.eq_nil_or_concat xs with rfl | ⟨ys, ⟨i, r⟩, rfl⟩
  · obtain ⟨rfl, rfl⟩ := h
    exact ⟨rfl, rfl⟩
  · rw [List.concat_eq_append] at *
    rw [threads_append] at h
    obtain ⟨p, m, hy, rfl, next, hn, rfl, rfl⟩ := h
    rw [List.map_append, List.nodup_append] at hd
    rw [threads_append]
    refine ⟨p, some i, threads_frame ?_ hy, rfl, d, ?_, rfl, rfl⟩
    · intro e he
      apply relinkNext_of_ne
      intro heq
      exact hd.2.2 e.1 (List.mem_map_of_mem he) i (by simp) (Option.some.inj heq).symm
    · simp [relinkNext, getElem?_setNext, hn]

/-- When a node between two paths is emptied, they are joined to one. -/
theorem threads_joined {nodes : Array ChainNode} {c q next last : Option Nat} {i : Nat}
    {ys zs : List (Nat × Ref)} (hi : i ∉ (ys ++ zs).map (·.1)) (hd : ((ys ++ zs).map (·.1)).Nodup)
    (hy : Threads nodes none c ys q (some i)) (hz : Threads nodes (some i) next zs last none) :
    ∃ last', Threads (relinkPrev (relinkNext (nodes.setIfInBounds i {}) q next) next q) none
      (cursorAfter q c next) (ys ++ zs) last' none := by
  have hset : ∀ e ∈ ys ++ zs, (nodes.setIfInBounds i {})[e.1]? = nodes[e.1]? := by
    intro e he
    apply Array.getElem?_setIfInBounds_ne
    rintro rfl
    exact hi (List.mem_map_of_mem he)
  rw [List.map_append] at hd
  have hapart := List.disjoint_of_nodup_append hd
  have hy' := threads_relinkNext (d := next) (List.nodup_append.1 hd).1
    (threads_frame (fun e he => hset e (List.mem_append_left _ he)) hy)
  -- the ends that are rewritten belong to the entries before and after
  have hz' : Threads (relinkNext (nodes.setIfInBounds i {}) q next) (some i) next zs last none := by
    refine threads_frame (fun e he => ?_) hz
    rw [relinkNext_of_ne, hset e (List.mem_append_right _ he)]
    rintro rfl
    exact hapart (last_mem hy) (List.mem_map_of_mem he)
  obtain ⟨last', hz''⟩ := threads_relinkPrev (q := q) (List.nodup_append.1 hd).2.1 hz'
  refine ⟨last', (threads_append ..).2 ⟨q, next, threads_frame (fun e he => ?_) hy', hz''⟩⟩
  apply relinkPrev_of_ne
  rintro rfl
  exact hapart (List.mem_map_of_mem he) (cursor_mem hz)

/-! ## The list of a chain -/

/-- The entries of a chain in list order, and the empty nodes that wait for
reuse. Every node is one or the other. -/
structure Lists (c : Chain) (xs : List (Nat × Ref)) : Prop where
  path : ∃ last, Threads c.nodes none c.head xs last none
  distinct : (xs.map (·.1)).Nodup
  free_distinct : c.free.Nodup
  free_empty : ∀ i ∈ c.free, c.nodes[i]? = some {}
  covered : ∀ i < c.nodes.size, i ∈ c.free ∨ i ∈ xs.map (·.1)

namespace Lists

variable {c : Chain} {xs : List (Nat × Ref)}

theorem empty (config : CollectConfig) : Lists { config } [] where
  path := ⟨none, rfl, rfl⟩
  distinct := List.nodup_nil
  free_distinct := List.nodup_nil
  free_empty := by intro i hi; cases hi
  covered := by intro i hi; cases hi

theorem filled (h : Lists c xs) {i : Nat} {r : Ref} (hi : (i, r) ∈ xs) :
    ∃ prev next, c.nodes[i]? = some ⟨prev, next, some r⟩ :=
  h.path.elim fun _ hp => threads_filled hp hi

theorem lt_size (h : Lists c xs) {i : Nat} {r : Ref} (hi : (i, r) ∈ xs) : i < c.nodes.size := by
  obtain ⟨p, n, hn⟩ := h.filled hi
  exact (Array.getElem?_eq_some_iff.1 hn).1

theorem object_iff (h : Lists c xs) (i : Nat) (r : Ref) :
    (i, r) ∈ xs ↔ (c.nodes[i]?).bind (·.object) = some r := by
  constructor
  · intro hi
    obtain ⟨p, n, hn⟩ := h.filled hi
    simp [hn]
  · intro hi
    cases hn : c.nodes[i]? with
    | none => simp [hn] at hi
    | some node =>
      rcases h.covered i (Array.getElem?_eq_some_iff.1 hn).1 with hf | hx
      · simp [h.free_empty i hf] at hi
      · obtain ⟨⟨j, s⟩, he, rfl⟩ := List.mem_map.1 hx
        obtain ⟨p, n, hs⟩ := h.filled he
        simp [hs] at hi
        exact hi ▸ he

theorem not_free (h : Lists c xs) {i : Nat} {r : Ref} (hi : (i, r) ∈ xs) : i ∉ c.free := by
  intro hf
  obtain ⟨p, n, hn⟩ := h.filled hi
  simp [h.free_empty i hf] at hn

theorem not_free_of_mem (h : Lists c xs) {i : Nat} (hi : i ∈ xs.map (·.1)) : i ∉ c.free := by
  obtain ⟨⟨j, r⟩, he, rfl⟩ := List.mem_map.1 hi
  exact h.not_free he

theorem length_le (h : Lists c xs) : xs.length ≤ c.nodes.size := by
  have hsub : xs.map (·.1) ⊆ List.range c.nodes.size := by
    intro i hi
    obtain ⟨e, he, rfl⟩ := List.mem_map.1 hi
    exact List.mem_range.2 (h.lt_size he)
  simpa using (h.distinct.subperm hsub).length_le

/-! ### Walking -/

theorem walk_threads {nodes : Array ChainNode} {p cur p' : Option Nat} (fuel : Nat)
    (hl : xs.length ≤ fuel) (h : Threads nodes p cur xs p' none) : walk nodes fuel cur = xs := by
  induction xs generalizing p cur fuel with
  | nil =>
    obtain ⟨_, rfl⟩ := h
    cases fuel <;> rfl
  | cons e xs ih =>
    obtain ⟨i, r⟩ := e
    obtain ⟨rfl, next, hn, hr⟩ := h
    cases fuel with
    | zero => simp at hl
    | succ fuel => simp [walk, hn, ih fuel (by simpa using hl) hr]

theorem toList_eq (h : Lists c xs) : c.toList = xs := by
  obtain ⟨last, hp⟩ := h.path
  exact walk_threads _ h.length_le hp

theorem snapshot_eq (h : Lists c xs) (alive : Ref → Bool) (ha : ∀ e ∈ xs, alive e.2 = true) :
    c.snapshot alive = (xs, c) := by
  have hall : xs.filter (fun (e : Nat × Ref) => alive e.2) = xs := List.filter_eq_self.2 ha
  have hdead : xs.filter (fun (e : Nat × Ref) => !alive e.2) = [] :=
    List.filter_eq_nil_iff.2 fun e he => by simp [ha e he]
  simp [snapshot, h.toList_eq, hall, hdead]

/-! ### Inserting -/

/-- A node that is free or new takes its place in front of the list. -/
theorem insert_at (h : Lists c xs) (r : Ref) {i : Nat} {nodes : Array ChainNode} {free : List Nat}
    (hi : nodes[i]? = some { next := c.head, object := some r })
    (hf : ∀ j, j ≠ i → nodes[j]? = c.nodes[j]?) (hx : i ∉ xs.map (·.1)) (hn : free.Nodup)
    (hfree : ∀ j ∈ free, j ∈ c.free ∧ j ≠ i)
    (hcov : ∀ j < nodes.size, j = i ∨ j ∈ free ∨ j ∈ xs.map (·.1)) :
    Lists ({ c with nodes, free }.linkFront i) ((i, r) :: xs) := by
  obtain ⟨last, hp⟩ := h.path
  have hnodes : ({ c with nodes, free }.linkFront i).nodes = relinkPrev nodes c.head (some i) := by
    unfold linkFront relinkPrev
    cases c.head <;> rfl
  have hhead : ∀ j, j ∉ xs.map (·.1) → c.head ≠ some j := fun j hj hc => hj (cursor_mem (hc ▸ hp))
  have hpath : Threads nodes none c.head xs last none := by
    refine threads_frame (fun e he => hf e.1 ?_) hp
    rintro rfl
    exact hx (List.mem_map_of_mem he)
  constructor
  case path =>
    obtain ⟨last', hp'⟩ := threads_relinkPrev (q := some i) h.distinct hpath
    refine ⟨last', rfl, c.head, ?_, ?_⟩
    · rw [hnodes, relinkPrev_of_ne (hhead i hx), hi]
    · rw [hnodes]
      exact hp'
  case distinct => exact List.nodup_cons.2 ⟨hx, h.distinct⟩
  case free_distinct => exact hn
  case free_empty =>
    intro j hj
    obtain ⟨hjf, hji⟩ := hfree j hj
    rw [hnodes, relinkPrev_of_ne (hhead j fun hx => h.not_free_of_mem hx hjf), hf j hji]
    exact h.free_empty j hjf
  case covered =>
    intro j hj
    rw [hnodes, size_relinkPrev] at hj
    rcases hcov j hj with rfl | hjf | hjx
    · exact .inr (by simp)
    · exact .inl hjf
    · exact .inr (List.mem_cons_of_mem _ hjx)

theorem insert (h : Lists c xs) (r : Ref) :
    Lists (c.insert r).2 (((c.insert r).1, r) :: xs) ∧ (c.insert r).1 ∉ xs.map (·.1) := by
  unfold Chain.insert
  cases hfree : c.free with
  | nil =>
    have hx : c.nodes.size ∉ xs.map (·.1) := by
      intro hm
      obtain ⟨e, he, hs⟩ := List.mem_map.1 hm
      have := h.lt_size he
      omega
    refine ⟨insert_at h r (by simp) ?_ hx List.nodup_nil (by simp) ?_, hx⟩
    · intro j hj
      rw [Array.getElem?_push]
      simp [hj]
    · intro j hj
      by_cases hs : j = c.nodes.size
      · exact .inl hs
      · have := h.covered j (by simp at hj; omega)
        simp only [hfree, List.not_mem_nil, false_or] at this
        exact .inr (.inr this)
  | cons i rest =>
    have hif : i ∈ c.free := by rw [hfree]; exact List.mem_cons_self
    have hlt : i < c.nodes.size := (Array.getElem?_eq_some_iff.1 (h.free_empty i hif)).1
    have hx : i ∉ xs.map (·.1) := fun hm => h.not_free_of_mem hm hif
    have hd := h.free_distinct
    rw [hfree, List.nodup_cons] at hd
    refine ⟨insert_at h r ?_ ?_ hx hd.2 ?_ ?_, hx⟩
    · rw [Array.getElem?_setIfInBounds]
      simp [hlt]
    · intro j hj
      rw [Array.getElem?_setIfInBounds_ne (Ne.symm hj)]
    · intro j hj
      refine ⟨by rw [hfree]; exact List.mem_cons_of_mem _ hj, ?_⟩
      rintro rfl
      exact hd.1 hj
    · intro j hj
      have := h.covered j (by simpa using hj)
      rw [hfree, List.mem_cons, or_assoc] at this
      exact this

/-! ### Unlinking -/

/-- What unlinking a filled node leaves. -/
theorem unlink_eq {i : Nat} {r : Ref} {prev next : Option Nat}
    (hn : c.nodes[i]? = some ⟨prev, next, some r⟩) :
    c.unlink i = some { c with
      nodes := relinkPrev (relinkNext (c.nodes.setIfInBounds i {}) prev next) next prev
      head := cursorAfter prev c.head next
      free := i :: c.free } := by
  simp only [Chain.unlink, hn]
  cases prev <;> cases next <;> rfl

theorem unlink {ys zs : List (Nat × Ref)} {i : Nat} {r : Ref}
    (h : Lists c (ys ++ (i, r) :: zs)) :
    ∃ c', c.unlink i = some c' ∧ Lists c' (ys ++ zs) ∧ c'.stats = c.stats ∧
      c'.config = c.config ∧ c'.since = c.since := by
  obtain ⟨last, hp⟩ := h.path
  rw [threads_append] at hp
  obtain ⟨q, _, hy, rfl, next, hn, hz⟩ := hp
  refine ⟨_, unlink_eq hn, ?_, rfl, rfl, rfl⟩
  have hin : (i, r) ∈ ys ++ (i, r) :: zs := List.mem_append_right _ List.mem_cons_self
  obtain ⟨hi, hd⟩ : i ∉ (ys ++ zs).map (·.1) ∧ ((ys ++ zs).map (·.1)).Nodup := by
    simpa only [List.map_append, List.map_cons, List.nodup_middle, List.nodup_cons] using h.distinct
  refine ⟨threads_joined hi hd hy hz, hd,
    List.nodup_cons.2 ⟨h.not_free hin, h.free_distinct⟩, fun j hj => ?_, fun j hj => ?_⟩
  · -- a node that is free now is at neither end that was rewritten
    have hjx : j ∉ (ys ++ zs).map (·.1) := by
      rcases List.mem_cons.1 hj with rfl | hf
      · exact hi
      · refine fun hx => h.not_free_of_mem ?_ hf
        exact ((List.sublist_cons_self (i, r) zs).append_left ys |>.map (·.1)).subset hx
    rw [List.map_append, List.mem_append, not_or] at hjx
    rw [relinkPrev_of_ne, relinkNext_of_ne]
    · rcases List.mem_cons.1 hj with rfl | hf
      · simp [h.lt_size hin]
      · rw [Array.getElem?_setIfInBounds_ne, h.free_empty j hf]
        rintro rfl
        exact h.not_free hin hf
    · rintro rfl
      exact hjx.1 (last_mem hy)
    · rintro rfl
      exact hjx.2 (cursor_mem hz)
  · simp only [size_relinkPrev, size_relinkNext, Array.size_setIfInBounds] at hj
    rcases h.covered j hj with hf | hx
    · exact .inl (List.mem_cons_of_mem _ hf)
    · simp only [List.map_append, List.map_cons, List.mem_append, List.mem_cons] at hx ⊢
      rcases hx with hx | rfl | hx
      · exact .inr (.inl hx)
      · exact .inl (.inl rfl)
      · exact .inr (.inr hx)

/-- A node carries one object. -/
theorem node_unique {i : Nat} {r s : Ref} (h : Lists c xs) (hr : (i, r) ∈ xs) (hs : (i, s) ∈ xs) :
    r = s := by
  have h1 := (h.object_iff i r).1 hr
  rw [(h.object_iff i s).1 hs] at h1
  exact (Option.some.inj h1).symm

/-- What is left when one entry is taken out. -/
theorem mem_without {ys zs : List (Nat × Ref)} {i j : Nat} {r s : Ref}
    (h : Lists c (ys ++ (i, r) :: zs)) :
    (j, s) ∈ ys ++ zs ↔ (j, s) ∈ ys ++ (i, r) :: zs ∧ j ≠ i := by
  have hd := h.distinct
  simp only [List.map_append, List.map_cons, List.nodup_append, List.nodup_cons] at hd
  obtain ⟨-, ⟨hiz, -⟩, hyi⟩ := hd
  constructor
  · intro hj
    rcases List.mem_append.1 hj with hy | hz
    · refine ⟨List.mem_append_left _ hy, ?_⟩
      exact hyi j (List.mem_map_of_mem hy) i List.mem_cons_self
    · refine ⟨List.mem_append_right _ (List.mem_cons_of_mem _ hz), ?_⟩
      rintro rfl
      exact hiz (List.mem_map_of_mem hz)
  · rintro ⟨hj, hne⟩
    rcases List.mem_append.1 hj with hy | hz
    · exact List.mem_append_left _ hy
    · rcases List.mem_cons.1 hz with heq | hz
      · cases heq
        exact absurd rfl hne
      · exact List.mem_append_right _ hz

theorem release {ys zs : List (Nat × Ref)} {i : Nat} {r : Ref}
    (h : Lists c (ys ++ (i, r) :: zs)) :
    Lists (c.release i) (ys ++ zs) ∧
      (c.release i).stats = { c.stats with live := c.stats.live - 1, freed := c.stats.freed + 1 } := by
  obtain ⟨c', hc, hl, hs, -, -⟩ := h.unlink
  simp only [Chain.release, hc, hs]
  exact ⟨⟨hl.path, hl.distinct, hl.free_distinct, hl.free_empty, hl.covered⟩, trivial⟩

end Lists

end ScriptMachine.Chain
