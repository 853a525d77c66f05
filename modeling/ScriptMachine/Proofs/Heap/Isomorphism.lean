import ScriptMachine.Proofs.Heap.Layout
import ScriptMachine.Proofs.Heap.Reaching

/-!
# Copies of graphs

A deep copy takes every array and dict that a value leads to onto one of its own. Copies
are known before they are filled, so a copy in the making is met again through cycles;
what is finished stays as it is while more copies are made, since an object that has a
copy keeps it.
-/

set_option autoImplicit false

namespace ScriptMachine

/-- The same keys, in the same order, with other values. -/
def Entries.map (es : Entries) (f : Value → Value) : Entries where
  list := es.list.map fun e => (e.1, f e.2)
  ascending := by
    rw [Ascending, List.pairwise_map]
    exact es.ascending

theorem Entries.ext_list {es fs : Entries} (h : es.list = fs.list) : es = fs := by
  cases es
  cases fs
  cases h
  rfl

namespace Heap

variable {l : Law} {own : Multiset Value} {h₀ h h' h'' : Heap} {v w : Value} {r s x y into : Ref}
variable {copies copies' made : Copies}

/-! ## Images -/

/-- What stands for a value in a copy. -/
def image (copies : Copies) : Value → Value
  | .array r => .array ((copies.lookup r).getD r)
  | .dict r => .dict ((copies.lookup r).getD r)
  | v => v

/-- An array or dict with what stands for its contents. -/
def imageBody (copies : Copies) : Body → Body
  | .array xs => .array (xs.map (image copies))
  | .dict es => .dict (es.map (image copies))
  | b => b

/-- The value is no array and no dict, or one that has a copy. -/
def Covers (copies : Copies) (v : Value) : Prop :=
  ∀ y, v.container? = some y → y ∈ copies.map Prod.fst

theorem Covers.append (hc : Covers copies v) : Covers (made ++ copies) v := by
  intro y hy
  rw [List.map_append, List.mem_append]
  exact .inr (hc y hy)

theorem Covers.of_lookup (hv : v.container? = some r) (hl : copies.lookup r = some s) :
    Covers copies v := by
  rintro _ hy
  cases hv.symm.trans hy
  exact List.mem_map_of_mem (mem_of_lookup hl)

theorem lookup_later (hd : ((made ++ copies).map Prod.fst).Nodup) (hr : r ∈ copies.map Prod.fst) :
    (made ++ copies).lookup r = copies.lookup r := by
  rw [List.map_append, List.nodup_append] at hd
  have hnone : made.lookup r = none := by
    rw [List.lookup_eq_none_iff]
    intro e he
    have hne := hd.2.2 e.1 (List.mem_map_of_mem he) r hr
    simpa using Ne.symm hne
  rw [List.lookup_append, hnone, Option.none_or]

/-- An object that has a copy keeps it. -/
theorem image_later (hd : ((made ++ copies).map Prod.fst).Nodup) (hv : Covers copies v) :
    image (made ++ copies) v = image copies v := by
  cases v with
  | array r => rw [image, image, lookup_later hd (hv r rfl)]
  | dict r => rw [image, image, lookup_later hd (hv r rfl)]
  | _ => rfl

theorem imageBody_later {b : Body} (hd : ((made ++ copies).map Prod.fst).Nodup)
    (hb : ∀ v ∈ b.contents, Covers copies v) :
    imageBody (made ++ copies) b = imageBody copies b := by
  cases b with
  | array xs =>
    have hmap : xs.map (image (made ++ copies)) = xs.map (image copies) :=
      Array.map_congr_left fun v hv => image_later hd (hb v (Array.mem_toList_iff.2 hv))
    rw [imageBody, imageBody, hmap]
  | dict es =>
    have hmap : es.map (image (made ++ copies)) = es.map (image copies) := by
      unfold Entries.map
      congr 1
      refine List.map_congr_left fun e he => ?_
      rw [image_later hd (hb e.2 (List.mem_map.2 ⟨e, he, rfl⟩))]
    rw [imageBody, imageBody, hmap]
  | _ => rfl

/-! ## New objects of the chain -/

theorem cell?_allocateLinked (h : Heap) (b : Body) (s : Ref) :
    (h.allocateLinked b).2.cell? s = if s = (h.allocateLinked b).1 then
      some { strong := 1, link := .linked (h.chain.insert ⟨h.cells.size⟩).1, handle := none, body := b }
      else h.cell? s := by
  have hnew : (h.allocate b).2.cell? ⟨h.cells.size⟩ =
      some { strong := 1, link := .fresh, handle := none, body := b } := by simp
  simp only [allocateLinked, register, allocate_fst, hnew, cell?_modifyCell]
  split
  · rename_i hs
    subst hs
    exact congrArg (Option.map _) hnew
  · rename_i hs
    exact (cell?_allocate h b s).trans (if_neg hs)

theorem node?_allocateLinked (h : Heap) (b : Body) (s : Ref) :
    (h.allocateLinked b).2.node? s = if s = (h.allocateLinked b).1 then
      some (h.chain.insert ⟨h.cells.size⟩).1 else h.node? s := by
  refine Option.ext fun i => ?_
  rw [node?_eq_some, cell?_allocateLinked]
  by_cases hs : s = (h.allocateLinked b).1
  · simp [if_pos hs]
  · rw [if_neg hs, if_neg hs, node?_eq_some]

theorem stats_allocateLinked (h : Heap) (b : Body) :
    (h.allocateLinked b).2.chain.stats = { h.chain.stats with
      live := h.chain.stats.live + 1, allocated := h.chain.stats.allocated + 1 } := by
  have hnew : (h.allocate b).2.cell? ⟨h.cells.size⟩ =
      some { strong := 1, link := .fresh, handle := none, body := b } := by simp
  simp only [allocateLinked, register, allocate_fst, hnew]
  show (h.chain.insert _).2.stats = _
  unfold Chain.insert
  split <;> rfl

theorem node?_modifyCell {f : Cell → Cell} (hf : ∀ c, (f c).link = c.link) (s : Ref) :
    (h.modifyCell r f).node? s = h.node? s := by
  refine Option.ext fun i => ?_
  rw [node?_eq_some, node?_eq_some, cell?_modifyCell]
  by_cases hs : s = r
  · subst hs
    cases h.cell? s <;> simp [hf]
  · rw [if_neg hs]

/-! ## A copy in the making -/

/-- The new objects are the copies, in the order in which they were made, and the old
ones are as they were. -/
structure Underway (h₀ : Heap) (copies : Copies) (h : Heap) : Prop where
  known : Known h₀ copies
  fresh : (copies.map (·.2.id)).reverse = List.range' h₀.cells.size copies.length
  size : h.cells.size = h₀.cells.size + copies.length
  bodies : ∀ r, r.id < h₀.cells.size → h.body? r = h₀.body? r
  nodes : ∀ r, r.id < h₀.cells.size → h.node? r = h₀.node? r
  registered : ∀ e ∈ copies, h.Registered e.2
  stats : h.chain.stats = { h₀.chain.stats with
    live := h₀.chain.stats.live + copies.length
    allocated := h₀.chain.stats.allocated + copies.length }

/-- The copy of an array or dict holds what stands for the contents of that array or
dict, all of which have copies. -/
def Completed (h₀ : Heap) (copies : Copies) (h : Heap) (e : Ref × Ref) : Prop :=
  ∃ b, h₀.body? e.1 = some b ∧ (b.kind = .array ∨ b.kind = .dict) ∧
    (∀ v ∈ b.contents, Covers copies v) ∧ h.body? e.2 = some (imageBody copies b)

/-- What is copied between two moments: what was there is as it was, apart from one
object, and the copies made since are filled. -/
structure Continues (h₀ : Heap) (except : Option Ref) (reach : Ref → Prop) (copies : Copies)
    (h : Heap) (copies' : Copies) (h' : Heap) : Prop where
  underway : Underway h₀ copies' h'
  made : ∃ made, copies' = made ++ copies ∧
    ∀ e ∈ made, reach e.1 ∧ h.cells.size ≤ e.2.id ∧ Completed h₀ copies' h' e
  keeps : ∀ s, s.id < h.cells.size → some s ≠ except → h'.body? s = h.body? s

namespace Underway

theorem start (h : Heap) : Underway h [] h where
  known := ⟨List.nodup_nil, fun e he => by cases he⟩
  fresh := rfl
  size := rfl
  bodies := fun _ _ => rfl
  nodes := fun _ _ => rfl
  registered := fun e he => by cases he
  stats := rfl

theorem lt_size (hu : Underway h₀ copies h) {e : Ref × Ref} (he : e ∈ copies) :
    e.2.id < h.cells.size := by
  have hmem : e.2.id ∈ (copies.map (·.2.id)).reverse :=
    List.mem_reverse.2 (List.mem_map.2 ⟨e, he, rfl⟩)
  rw [hu.fresh, List.mem_range'_1] at hmem
  rw [hu.size]
  exact hmem.2

/-- Only new objects were changed. -/
theorem update (hu : Underway h₀ copies h) (hsize : h'.cells.size = h.cells.size)
    (hbody : ∀ r, r.id < h₀.cells.size → h'.body? r = h.body? r)
    (hnode : ∀ r, h'.node? r = h.node? r) (hchain : h'.chain = h.chain) :
    Underway h₀ copies h' where
  known := hu.known
  fresh := hu.fresh
  size := hsize.trans hu.size
  bodies := fun r hr => (hbody r hr).trans (hu.bodies r hr)
  nodes := fun r hr => (hnode r).trans (hu.nodes r hr)
  registered := fun e he => (hu.registered e he).imp fun _ hi => (hnode e.2).trans hi
  stats := hchain ▸ hu.stats

theorem retainRef (hu : Underway h₀ copies h) (r : Ref) : Underway h₀ copies (h.retainRef r) :=
  hu.update (size_modifyCell ..) (fun s _ => body?_retainRef h r s)
    (node?_modifyCell fun _ => rfl) rfl

theorem retain (hu : Underway h₀ copies h) (v : Value) : Underway h₀ copies (h.retain v) := by
  unfold Heap.retain
  split
  · exact hu.retainRef _
  · exact hu

theorem setBody {b b' : Body} (hu : Underway h₀ copies h) (hr : h.body? r = some b)
    (hnew : h₀.cells.size ≤ r.id) : Underway h₀ copies (h.setBody r b') := by
  refine hu.update (size_modifyCell ..) (fun s hs => ?_) (node?_modifyCell fun _ => rfl) rfl
  rw [body?_setBody hr, if_neg]
  rintro rfl
  omega

/-- An array or dict that has no copy gets one. -/
theorem enter (hu : Underway h₀ copies h) (hlookup : copies.lookup r = none)
    (hr : r.id < h₀.cells.size) (b : Body) :
    Underway h₀ ((r, (h.allocateLinked b).1) :: copies) (h.allocateLinked b).2 where
  known := hu.known.cons hlookup hr (by
    show h₀.cells.size ≤ h.cells.size
    rw [hu.size]
    omega)
  fresh := by
    have hid : (h.allocateLinked b).1.id = h₀.cells.size + copies.length := hu.size
    simp only [List.map_cons, List.reverse_cons, hu.fresh, hid, List.length_cons]
    exact (List.range'_1_concat ..).symm
  size := by
    rw [(grows_allocateLinked h b).size, hu.size, List.length_cons, Nat.add_assoc]
  bodies := fun s hs => by
    rw [body?_allocateLinked, if_neg, hu.bodies s hs]
    rintro rfl
    have : h.cells.size < h₀.cells.size := hs
    have := hu.size
    omega
  nodes := fun s hs => by
    rw [node?_allocateLinked, if_neg, hu.nodes s hs]
    rintro rfl
    have : h.cells.size < h₀.cells.size := hs
    have := hu.size
    omega
  registered := fun e he => by
    rcases List.mem_cons.1 he with rfl | he
    · exact ⟨_, by rw [node?_allocateLinked, if_pos rfl]⟩
    · obtain ⟨i, hi⟩ := hu.registered e he
      have hne : e.2 ≠ (h.allocateLinked b).1 := fun heq => by
        have hlt := hu.lt_size he
        rw [heq] at hlt
        exact Nat.lt_irrefl _ hlt
      exact ⟨i, by rw [node?_allocateLinked, if_neg hne, hi]⟩
  stats := by
    rw [stats_allocateLinked, hu.stats]
    simp only [List.length_cons, Nat.add_assoc]

end Underway

theorem Completed.later {e : Ref × Ref} (hf : Completed h₀ copies h e)
    (hd : ((made ++ copies).map Prod.fst).Nodup) (hb : h'.body? e.2 = h.body? e.2) :
    Completed h₀ (made ++ copies) h' e := by
  obtain ⟨b, hbody, hkind, hcovers, himage⟩ := hf
  refine ⟨b, hbody, hkind, fun v hv => (hcovers v hv).append, ?_⟩
  rw [hb, himage, imageBody_later hd hcovers]

namespace Continues

variable {except : Option Ref} {reach reach' : Ref → Prop} {copies'' : Copies}

theorem mono (he : Continues h₀ except reach copies h copies' h') (hr : ∀ x, reach x → reach' x) :
    Continues h₀ except reach' copies h copies' h' where
  underway := he.underway
  made := he.made.imp fun _ hm => ⟨hm.1, fun e hmem => ⟨hr _ (hm.2 e hmem).1, (hm.2 e hmem).2⟩⟩
  keeps := he.keeps

/-- An object that was there was changed. -/
theorem update (he : Continues h₀ none reach copies h copies' h') (hu : Underway h₀ copies' h'')
    (hlt : into.id < h.cells.size) (hb : ∀ s, s ≠ into → h''.body? s = h'.body? s) :
    Continues h₀ (some into) reach copies h copies' h'' where
  underway := hu
  made := by
    obtain ⟨made, hm, hall⟩ := he.made
    refine ⟨made, hm, fun e hmem => ?_⟩
    obtain ⟨hr, hlow, b, hold, hkind, hcovers, himage⟩ := hall e hmem
    refine ⟨hr, hlow, b, hold, hkind, hcovers, (hb e.2 ?_).trans himage⟩
    rintro rfl
    omega
  keeps := fun s hs hne => by
    rw [hb s fun heq => hne (by rw [heq]), he.keeps s hs (fun hn => by cases hn)]

/-- Nothing was copied. -/
theorem of_same (hu : Underway h₀ copies h')
    (hb : ∀ s, s.id < h.cells.size → some s ≠ except → h'.body? s = h.body? s) :
    Continues h₀ except reach copies h copies h' :=
  ⟨hu, ⟨[], rfl, fun e he => by cases he⟩, hb⟩

theorem covers (he : Continues h₀ except reach copies h copies' h') (hv : Covers copies v) :
    Covers copies' v := by
  obtain ⟨made, rfl, -⟩ := he.made
  exact hv.append

theorem image_eq (he : Continues h₀ except reach copies h copies' h') (hv : Covers copies v) :
    image copies' v = image copies v := by
  obtain ⟨made, rfl, -⟩ := he.made
  exact image_later he.underway.known.once hv

theorem map_image_eq {vs : List Value} (he : Continues h₀ except reach copies h copies' h')
    (hvs : ∀ v ∈ vs, Covers copies v) : vs.map (image copies') = vs.map (image copies) :=
  List.map_congr_left fun v hv => he.image_eq (hvs v hv)

theorem length_le (he : Continues h₀ except reach copies h copies' h') :
    copies.length ≤ copies'.length := by
  obtain ⟨made, rfl, -⟩ := he.made
  simp

theorem size_le (hu : Underway h₀ copies h) (he : Continues h₀ except reach copies h copies' h') :
    h.cells.size ≤ h'.cells.size := by
  rw [hu.size, he.underway.size]
  exact Nat.add_le_add_left he.length_le _

theorem body_eq {b : Body} (he : Continues h₀ none reach copies h copies' h')
    (hr : h.body? r = some b) : h'.body? r = some b :=
  (he.keeps r (body?_lt hr) (fun hn => by cases hn)).trans hr

theorem retainRef (he : Continues h₀ none reach copies h copies' h') (r : Ref) :
    Continues h₀ none reach copies h copies' (h'.retainRef r) where
  underway := he.underway.retainRef r
  made := by
    obtain ⟨made, hm, hall⟩ := he.made
    refine ⟨made, hm, fun e hmem => ?_⟩
    obtain ⟨hr, hlow, b, hold, hkind, hcovers, himage⟩ := hall e hmem
    exact ⟨hr, hlow, b, hold, hkind, hcovers, (body?_retainRef h' r e.2).trans himage⟩
  keeps := fun s hs hne => (body?_retainRef h' r s).trans (he.keeps s hs hne)

/-- What was copied is put into an object that was there. -/
theorem stored {b : Body} (he : Continues h₀ none reach copies h copies' h')
    (hinto : h.body? into = some b) (hnew : h₀.cells.size ≤ into.id) (b' : Body) :
    Continues h₀ (some into) reach copies h copies' (h'.setBody into b') :=
  he.update (he.underway.setBody (he.body_eq hinto) hnew) (body?_lt hinto) fun s hs => by
    rw [body?_setBody (he.body_eq hinto), if_neg hs]

theorem trans (hu : Underway h₀ copies h) (h1 : Continues h₀ except reach copies h copies' h')
    (h2 : Continues h₀ except reach copies' h' copies'' h'')
    (hexcept : ∀ s, except = some s → s.id < h.cells.size) :
    Continues h₀ except reach copies h copies'' h'' where
  underway := h2.underway
  made := by
    obtain ⟨m1, rfl, hm1⟩ := h1.made
    obtain ⟨m2, rfl, hm2⟩ := h2.made
    refine ⟨m2 ++ m1, (List.append_assoc ..).symm, fun e he => ?_⟩
    rcases List.mem_append.1 he with he | he
    · obtain ⟨hr, hlow, hfilled⟩ := hm2 e he
      exact ⟨hr, Nat.le_trans (h1.size_le hu) hlow, hfilled⟩
    · obtain ⟨hr, hlow, hfilled⟩ := hm1 e he
      refine ⟨hr, hlow, hfilled.later h2.underway.known.once ?_⟩
      refine h2.keeps _ (h1.underway.lt_size (List.mem_append_left _ he)) fun heq => ?_
      have := hexcept _ heq.symm
      omega
  keeps := fun s hs hne => by
    rw [h2.keeps s (Nat.lt_of_lt_of_le hs (h1.size_le hu)) hne, h1.keeps s hs hne]

end Continues

/-! ## Copying -/

/-- A copier that copies all that a value leads to, as long as there are more steps than
objects still to enter. -/
def Copier.Duplicates (h₀ : Heap) (steps : Nat) (copy : Copier) : Prop :=
  ∀ v copies h, Underway h₀ copies h → h₀.Has v → h₀.cells.size < steps + copies.length →
    Continues h₀ none (h₀.Reaches v) copies h (copy v copies h).2.1 (copy v copies h).2.2 ∧
      Covers (copy v copies h).2.1 v ∧ (copy v copies h).1 = image (copy v copies h).2.1 v

section

variable {copy : Copier} {steps : Nat}

/-- An array that is filled holds the images of what was copied so far. -/
theorem copyItems_duplicates (hcopy : copy.Duplicates h₀ steps) (hnew : h₀.cells.size ≤ into.id)
    (vs done : List Value) (hu : Underway h₀ copies h) (hvs : ∀ v ∈ vs, h₀.Has v)
    (hdone : ∀ v ∈ done, Covers copies v)
    (hinto : h.body? into = some (.array (done.map (image copies)).toArray))
    (hsteps : h₀.cells.size < steps + copies.length) :
    Continues h₀ (some into) (fun x => ∃ v ∈ vs, h₀.Reaches v x) copies h
        (copyItems copy into vs copies h).1 (copyItems copy into vs copies h).2 ∧
      (∀ v ∈ done ++ vs, Covers (copyItems copy into vs copies h).1 v) ∧
      (copyItems copy into vs copies h).2.body? into =
        some (.array ((done ++ vs).map (image (copyItems copy into vs copies h).1)).toArray) := by
  induction vs generalizing copies h done with
  | nil =>
    refine ⟨.of_same hu fun _ _ _ => rfl, ?_, ?_⟩
    · simpa [copyItems] using hdone
    · simpa [copyItems] using hinto
  | cons v vs ih =>
    obtain ⟨hv, hcovers, himage⟩ := hcopy v copies h hu (hvs v List.mem_cons_self) hsteps
    have hinto1 := hv.body_eq hinto
    have hpush : (copy v copies h).2.2.pushItem into (copy v copies h).1 =
        (copy v copies h).2.2.setBody into
          (.array ((done ++ [v]).map (image (copy v copies h).2.1)).toArray) := by
      rw [pushItem_eq hinto1, himage, List.map_append, hv.map_image_eq hdone]
      simp
    have hstored := hv.stored hinto hnew
      (.array ((done ++ [v]).map (image (copy v copies h).2.1)).toArray)
    rw [← hpush] at hstored
    obtain ⟨hrest, hall, hbody⟩ := ih (done ++ [v]) hstored.underway
      (fun w hw => hvs w (List.mem_cons_of_mem _ hw))
      (List.forall_mem_append.2 ⟨fun w hw => hv.covers (hdone w hw), by simpa using hcovers⟩)
      (by rw [hpush, body?_setBody hinto1, if_pos rfl]) (by have := hv.length_le; omega)
    rw [List.append_assoc] at hall hbody
    refine ⟨.trans hu (hstored.mono fun x hx => ?_) (hrest.mono fun x hx => ?_) ?_, hall, hbody⟩
    · exact ⟨v, List.mem_cons_self, hx⟩
    · exact hx.imp fun w hw => ⟨List.mem_cons_of_mem _ hw.1, hw.2⟩
    · rintro _ ⟨⟩
      exact body?_lt hinto

theorem entries_map_snoc (done : List Entry) (k : Text) (v : Value) :
    (done ++ [(k, v)]).map (fun e : Entry => (e.1, image copies e.2)) =
      done.map (fun e : Entry => (e.1, image copies e.2)) ++ [(k, image copies v)] := by
  rw [List.map_append, List.map_singleton]

/-- A dict that is filled holds, under the keys so far, the images of what was copied. -/
theorem copyEntries_duplicates (hcopy : copy.Duplicates h₀ steps) (hnew : h₀.cells.size ≤ into.id)
    (rest done : List Entry) {es : Entries} (hu : Underway h₀ copies h)
    (hrest : ∀ e ∈ rest, h₀.Has e.2) (hdone : ∀ e ∈ done, Covers copies e.2)
    (hasc : Ascending (done ++ rest)) (hinto : h.body? into = some (.dict es))
    (hes : es.list = done.map fun e => (e.1, image copies e.2))
    (hsteps : h₀.cells.size < steps + copies.length) :
    Continues h₀ (some into) (fun x => ∃ e ∈ rest, h₀.Reaches e.2 x) copies h
        (copyEntries copy into rest copies h).1 (copyEntries copy into rest copies h).2 ∧
      (∀ e ∈ done ++ rest, Covers (copyEntries copy into rest copies h).1 e.2) ∧
      ∃ es', (copyEntries copy into rest copies h).2.body? into = some (.dict es') ∧
        es'.list = (done ++ rest).map fun e =>
          (e.1, image (copyEntries copy into rest copies h).1 e.2) := by
  induction rest generalizing copies h done es with
  | nil =>
    refine ⟨.of_same hu fun _ _ _ => rfl, ?_, es, hinto, ?_⟩
    · simpa [copyEntries] using hdone
    · simpa [copyEntries] using hes
  | cons e rest ih =>
    obtain ⟨k, v⟩ := e
    obtain ⟨hv, hcovers, himage⟩ := hcopy v copies h hu (hrest (k, v) List.mem_cons_self) hsteps
    have hkept := hv.retainRef k.ref
    have hinto1 := hkept.body_eq hinto
    have hsame : done.map (fun e : Entry => (e.1, image (copy v copies h).2.1 e.2)) = es.list := by
      rw [hes]
      exact List.map_congr_left fun e he => by rw [hv.image_eq (hdone e he)]
    -- the keys come in ascending order, so none is there already
    have habove : ∀ e ∈ es.list, e.1.chars < k.chars := by
      intro e he
      rw [hes] at he
      obtain ⟨d, hd, rfl⟩ := List.mem_map.1 he
      exact (List.pairwise_append.1 hasc).2.2 d hd (k, v) List.mem_cons_self
    have hinsert := dictInsert_of_above hinto1 habove (copy v copies h).1
    have hlist : (es.insert k (copy v copies h).1).list =
        (done ++ [(k, v)]).map fun e => (e.1, image (copy v copies h).2.1 e.2) := by
      rw [entries_map_snoc, hsame, ← himage]
      exact Entry.insert_of_above habove
    have hstored := hkept.stored hinto hnew (.dict (es.insert k (copy v copies h).1))
    rw [← hinsert] at hstored
    obtain ⟨hmore, hall, hbody⟩ := ih (done ++ [(k, v)]) hstored.underway
      (fun e he => hrest e (List.mem_cons_of_mem _ he))
      (List.forall_mem_append.2 ⟨fun e he => hv.covers (hdone e he), by simpa using hcovers⟩)
      (by rwa [List.append_assoc]) (by rw [hinsert, body?_setBody hinto1, if_pos rfl])
      hlist (by have := hv.length_le; omega)
    rw [List.append_assoc] at hall hbody
    refine ⟨.trans hu (hstored.mono fun x hx => ?_) (hmore.mono fun x hx => ?_) ?_, hall, hbody⟩
    · exact ⟨(k, v), List.mem_cons_self, hx⟩
    · exact hx.imp fun e he => ⟨List.mem_cons_of_mem _ he.1, he.2⟩
    · rintro _ ⟨⟩
      exact body?_lt hinto

end

theorem Reaches.of_content {b : Body} (hr : v.container? = some r) (hb : h.body? r = some b)
    (hw : w ∈ b.contents) (hx : h.Reaches w x) : h.Reaches v x := by
  obtain ⟨y, hy, hpath⟩ := hx
  exact ⟨r, hr, .head ⟨b, w, hb, hw, hy⟩ hpath⟩

theorem lookup_of_mem {c : Ref} (hd : (copies.map Prod.fst).Nodup) (hmem : (r, c) ∈ copies) :
    copies.lookup r = some c := by
  induction copies with
  | nil => cases hmem
  | cons e rest ih =>
    obtain ⟨s, d⟩ := e
    rw [List.map_cons, List.nodup_cons] at hd
    rw [List.lookup_cons]
    rcases List.mem_cons.1 hmem with heq | hin
    · cases heq
      simp
    · have hne : r ≠ s := by
        rintro rfl
        exact hd.1 (List.mem_map.2 ⟨_, hin, rfl⟩)
      rw [beq_false_of_ne hne]
      exact ih hd.2 hin

theorem image_of_lookup {c : Ref} (hlookup : copies.lookup r = some c) :
    image copies (.array r) = .array c ∧ image copies (.dict r) = .dict c := by
  rw [image, image, hlookup]
  exact ⟨rfl, rfl⟩

theorem Continues.mem {except : Option Ref} {reach : Ref → Prop} {e : Ref × Ref}
    (he : Continues h₀ except reach copies h copies' h') (hmem : e ∈ copies) : e ∈ copies' := by
  obtain ⟨made, rfl, -⟩ := he.made
  exact List.mem_append_right _ hmem

/-- An object that had no copy got one, which was then filled. -/
theorem Continues.entered {reach : Ref → Prop} {b : Body}
    (he : Continues h₀ (some (h.allocateLinked b).1) reach ((r, (h.allocateLinked b).1) :: copies)
      (h.allocateLinked b).2 copies' h') (hf : Completed h₀ copies' h' (r, (h.allocateLinked b).1)) :
    Continues h₀ none (fun x => x = r ∨ reach x) copies h copies' h' ∧
      copies'.lookup r = some (h.allocateLinked b).1 := by
  refine ⟨⟨he.underway, ?_, fun s hs _ => ?_⟩,
    lookup_of_mem he.underway.known.once (he.mem List.mem_cons_self)⟩
  · obtain ⟨made, rfl, hm⟩ := he.made
    refine ⟨made ++ [(r, (h.allocateLinked b).1)], by simp, fun e hmem => ?_⟩
    rcases List.mem_append.1 hmem with hmem | hmem
    · obtain ⟨hr, hlow, hfilled⟩ := hm e hmem
      rw [(grows_allocateLinked h b).size] at hlow
      exact ⟨.inr hr, Nat.le_of_succ_le hlow, hfilled⟩
    · rw [List.mem_singleton.1 hmem]
      exact ⟨.inl rfl, Nat.le_refl _, hf⟩
  · have hne : s ≠ (h.allocateLinked b).1 := by
      rintro rfl
      exact Nat.lt_irrefl _ hs
    have hlt : s.id < (h.allocateLinked b).2.cells.size := by
      rw [(grows_allocateLinked h b).size]
      exact Nat.lt_succ_of_lt hs
    rw [he.keeps s hlt fun heq => hne (Option.some.inj heq), body?_allocateLinked, if_neg hne]

/-- An array or dict had no copy, and all that it leads to was copied for its own. -/
theorem Continues.copied {reach : Ref → Prop} {b b₀ : Body} (hv : v.container? = some r)
    (he : Continues h₀ (some (h.allocateLinked b₀).1) reach ((r, (h.allocateLinked b₀).1) :: copies)
      (h.allocateLinked b₀).2 copies' h')
    (hb : h₀.body? r = some b) (hkind : b.kind = .array ∨ b.kind = .dict)
    (hcovers : ∀ w ∈ b.contents, Covers copies' w)
    (hbody : h'.body? (h.allocateLinked b₀).1 = some (imageBody copies' b))
    (hreach : ∀ x, reach x → ∃ w ∈ b.contents, h₀.Reaches w x) :
    Continues h₀ none (h₀.Reaches v) copies h copies' h' ∧ Covers copies' v ∧
      copies'.lookup r = some (h.allocateLinked b₀).1 := by
  obtain ⟨he', hc⟩ := he.entered ⟨b, hb, hkind, hcovers, hbody⟩
  refine ⟨he'.mono ?_, .of_lookup hv hc, hc⟩
  rintro x (rfl | hx)
  · exact .self hv
  · obtain ⟨w, hw, hreach⟩ := hreach x hx
    exact .of_content hv hb hw hreach

theorem copyWithin_duplicates
    (hkinds : ∀ x b v, h₀.body? x = some b → v ∈ b.contents → h₀.Has v) (steps : Nat) :
    Copier.Duplicates h₀ steps (copyWithin steps) := by
  induction steps with
  | zero =>
    intro v copies h hu _ hsteps
    have := hu.known.length_le
    omega
  | succ steps ih =>
    intro v copies h hu hv hsteps
    have hnew : h₀.cells.size ≤ h.cells.size := hu.size ▸ Nat.le_add_right ..
    have hmore : ∀ e, h₀.cells.size < steps + (e :: copies).length := fun _ => by
      simp only [List.length_cons]
      omega
    cases v with
    | array r =>
      obtain ⟨xs, hx⟩ := hv.array
      have hr : r.id < h₀.cells.size := body?_lt hx
      simp only [copyWithin]
      cases hlookup : copies.lookup r with
      | some c =>
        exact ⟨.of_same (hu.retainRef c) fun s _ _ => body?_retainRef h c s, .of_lookup rfl hlookup,
          (image_of_lookup hlookup).1.symm⟩
      | none =>
        have hitems : (h.items r).toList = xs.toList := by rw [items, hu.bodies r hr, hx]
        rw [hitems]
        obtain ⟨he, hall, hbody⟩ := copyItems_duplicates ih
          (show h₀.cells.size ≤ (h.allocateLinked (.array #[])).1.id from hnew)
          xs.toList [] (hu.enter hlookup hr (.array #[])) (fun w hw => hkinds r _ w hx hw)
          (fun _ hw => by cases hw) (body?_allocateLinked_self h _) (hmore _)
        obtain ⟨he', hcovers, hc⟩ := he.copied (v := .array r) rfl hx (.inl rfl) hall (by
          rw [hbody, imageBody, List.nil_append, ← List.map_toArray, Array.toArray_toList])
          fun x hreach => hreach
        exact ⟨he', hcovers, (image_of_lookup hc).1.symm⟩
    | dict r =>
      obtain ⟨es, hx⟩ := hv.dict
      have hr : r.id < h₀.cells.size := body?_lt hx
      simp only [copyWithin]
      cases hlookup : copies.lookup r with
      | some c =>
        exact ⟨.of_same (hu.retainRef c) fun s _ _ => body?_retainRef h c s, .of_lookup rfl hlookup,
          (image_of_lookup hlookup).2.symm⟩
      | none =>
        have hentries : h.entries r = es := by rw [entries, hu.bodies r hr, hx]
        have hcontent : ∀ e ∈ es.list, e.2 ∈ (Body.dict es).contents :=
          fun e he => List.mem_map.2 ⟨e, he, rfl⟩
        rw [hentries]
        obtain ⟨he, hall, es', hbody, hlist⟩ := copyEntries_duplicates ih
          (show h₀.cells.size ≤ (h.allocateLinked (.dict .empty)).1.id from hnew)
          es.list [] (hu.enter hlookup hr (.dict .empty))
          (fun e he => hkinds r _ e.2 hx (hcontent e he)) (fun _ he => by cases he) es.ascending
          (body?_allocateLinked_self h _) rfl (hmore _)
        have himage : es' = es.map (image _) := Entries.ext_list hlist
        obtain ⟨he', hcovers, hc⟩ := he.copied (v := .dict r) rfl hx (.inr rfl)
          (List.forall_mem_map.2 hall) (by rw [hbody, imageBody, himage]) (by
            rintro x ⟨e, he, hreach⟩
            exact ⟨e.2, hcontent e he, hreach⟩)
        exact ⟨he', hcovers, (image_of_lookup hc).2.symm⟩
    | _ =>
      simp only [copyWithin]
      refine ⟨.of_same (hu.retain _) fun s _ _ => body?_retain h _ s, ?_, rfl⟩
      rintro _ ⟨⟩

/-! ## Deep copies -/

/-- The second heap has a copy of what a value leads to in the first, and nothing else
that is new. Each array and dict that is reached is paired with a copy of its own, the
copies being the new objects in the order in which they were made; the copy has the same
length, or keys in the same order, and holds the copies of what the original holds. -/
structure Duplicated (h : Heap) (v : Value) (h' : Heap) (w : Value) (copies : Copies) : Prop where
  once : (copies.map Prod.fst).Nodup
  domain : ∀ x, x ∈ copies.map Prod.fst ↔ h.Reaches v x
  containers : ∀ e ∈ copies, ∃ b, h.body? e.1 = some b ∧ (b.kind = .array ∨ b.kind = .dict) ∧
    h'.body? e.2 = some (imageBody copies b)
  root : w = image copies v
  fresh : (copies.map (·.2.id)).reverse = List.range' h.cells.size copies.length
  size : h'.cells.size = h.cells.size + copies.length
  registered : ∀ e ∈ copies, h'.Registered e.2
  stats : h'.chain.stats = { h.chain.stats with
    live := h.chain.stats.live + copies.length
    allocated := h.chain.stats.allocated + copies.length }
  unchanged : ∀ r, r.id < h.cells.size → h'.body? r = h.body? r ∧ h'.node? r = h.node? r

/-- An array or a dict is reached from both values. -/
def Shares (h : Heap) (v w : Value) : Prop := ∃ x, h.Reaches v x ∧ h.Reaches w x

theorem Calm.reaches_older (hc : Calm h h') (hb : h.Backs l own) (hv : h.Has v)
    (hx : h'.Reaches v x) : h.Reaches v x := by
  obtain ⟨y, hy, hpath⟩ := hx
  induction hpath with
  | refl => exact .self hy
  | tail _ hxy ih => exact ih.held (hc.holds_older (hb.reaches_lt hv ih) hxy)

namespace Backs

theorem duplicated (hb : h.Backs l own) (hv : h.Has v) :
    ∃ copies, h.Duplicated v (h.deepCopy v).2 (h.deepCopy v).1 copies := by
  obtain ⟨he, hcovers, himage⟩ := copyWithin_duplicates (fun _ _ _ => hb.has_contents)
    (h.cells.size + 1) v [] h (.start h) hv (by simp)
  obtain ⟨made, hmade, hall⟩ := he.made
  rw [List.append_nil] at hmade
  have hu := he.underway
  have hcontainers := fun e (hmem : e ∈ (copyWithin (h.cells.size + 1) v [] h).2.1) =>
    hall e (hmade ▸ hmem)
  refine ⟨(copyWithin (h.cells.size + 1) v [] h).2.1, hu.known.once, fun x => ⟨?_, ?_⟩,
    fun e hmem => ?_, himage, hu.fresh, hu.size, hu.registered, hu.stats,
    fun r hr => ⟨hu.bodies r hr, hu.nodes r hr⟩⟩
  · intro hx
    obtain ⟨e, hmem, rfl⟩ := List.mem_map.1 hx
    exact (hcontainers e hmem).1
  · -- what an object holds has copies when the object has one
    rintro ⟨y, hy, hpath⟩
    induction hpath with
    | refl => exact hcovers y hy
    | @tail a c _ hac ih =>
      obtain ⟨e, hmem, rfl⟩ := List.mem_map.1 ih
      obtain ⟨-, -, b, hbody, -, hcov, -⟩ := hcontainers e hmem
      obtain ⟨b', w, hbody', hw, hc⟩ := hac
      cases hbody.symm.trans hbody'
      exact hcov w hw c hc
  · obtain ⟨-, -, b, hbody, hkind, -, hcopy⟩ := hcontainers e hmem
    exact ⟨b, hbody, hkind, hcopy⟩

/-- Arrays and dicts that were made since are reached from no older value. -/
theorem not_shares (hb : h.Backs l own) (ha : Adds h h') (hw : ∀ y, w.container? = some y →
    h.cells.size ≤ y.id) (hv : h.Has v) : ¬ h'.Shares w v := by
  rintro ⟨x, hwx, hvx⟩
  have hnew := ha.reaches_new hw hwx
  have hold := hb.reaches_lt hv (ha.calm.reaches_older hb hv hvx)
  omega

theorem newInstance_apart {cls : Ref} {c : ClassObject} (hb : h.Backs l own)
    (hc : h.class? cls = some c) :
    ∃ values, (h.newInstance cls).2.instance? (h.newInstance cls).1 = some (cls, values) ∧
      values.length = c.fields.length ∧ ∀ w ∈ values,
        (∀ d e, (h.newInstance cls).2.class? d = some e →
          ∀ f ∈ e.fields, ¬ (h.newInstance cls).2.Shares w f.value) ∧
        ∀ i cls' us, i ≠ (h.newInstance cls).1 →
          (h.newInstance cls).2.instance? i = some (cls', us) →
            ∀ u ∈ us, ¬ (h.newInstance cls).2.Shares w u := by
  have hm := (hb.lockFrom (cls.id + 1) cls).1
  obtain ⟨d, hd, hfields⟩ : ∃ d, (h.lock cls).class? cls = some d ∧ d.fields = c.fields := by
    rcases class?_lockFrom (cls.id + 1) cls hc with hd | hd <;> exact ⟨_, hd, rfl⟩
  have hdefaults : ∀ w ∈ d.fields.map (·.value), (h.lock cls).Has w := by
    intro w hw
    obtain ⟨e, he, rfl⟩ := List.mem_map.1 hw
    exact hm.backs.has_field hd he
  obtain ⟨ha, hnew⟩ := hm.backs.adds_deepCopyAll hdefaults
  have hsame := SameLayouts.deepCopyAll (h.lock cls) (d.fields.map (·.value))
  simp only [Heap.newInstance, hd]
  set made := (h.lock cls).deepCopyAll (d.fields.map (·.value)) with hmade
  have ha' := (ha.retainRef cls).allocateLinked (b := .instanceObject cls made.1) Kind.noConfusion rfl
  have hsame' := hsame.trans (.retainRef _ cls)
  refine ⟨made.1, instance?_eq_some.2 (body?_allocateLinked_self _ _), ?_,
    fun w hw => ⟨?_, ?_⟩⟩
  · rw [hmade, length_deepCopyAll, List.length_map, hfields]
  · intro d' e he f hf
    rw [class?_eq_some, body?_allocateLinked] at he
    split at he
    · cases he
    · exact hm.backs.not_shares ha' (hnew w hw)
        (hm.backs.has_field (hsame'.class? (class?_eq_some.2 he)) hf)
  · intro i cls' us hi hus u hu
    rw [instance?_eq_some, body?_allocateLinked, if_neg hi, ← instance?_eq_some] at hus
    refine hm.backs.not_shares ha' (hnew w hw)
      (hm.backs.has_of_body (instance?_eq_some.1 (hsame'.instance? hus)) ?_)
    simp [Body.values, hu]

end Backs

/-- A deep copy is a one-to-one copy of all that the value leads to, made of objects of
its own; a new instance has such copies of the default values, which it shares with no
class and no other instance. -/
theorem deepCopy_isomorphic (hb : h.Backs l own) :
    (∀ v, h.Has v → ∃ copies, h.Duplicated v (h.deepCopy v).2 (h.deepCopy v).1 copies) ∧
    ∀ cls c, h.class? cls = some c →
      ∃ values, (h.newInstance cls).2.instance? (h.newInstance cls).1 = some (cls, values) ∧
        values.length = c.fields.length ∧ ∀ w ∈ values,
          (∀ d e, (h.newInstance cls).2.class? d = some e →
            ∀ f ∈ e.fields, ¬ (h.newInstance cls).2.Shares w f.value) ∧
          ∀ i cls' us, i ≠ (h.newInstance cls).1 →
            (h.newInstance cls).2.instance? i = some (cls', us) →
              ∀ u ∈ us, ¬ (h.newInstance cls).2.Shares w u :=
  ⟨fun _ hv => hb.duplicated hv, fun _ _ hc => hb.newInstance_apart hc⟩

/-- An array that contains itself twice. -/
def knot : Heap :=
  ((((({} : Heap).newArray #[]).2.retainRef ⟨0⟩).pushItem ⟨0⟩ (.array ⟨0⟩)).retainRef ⟨0⟩).pushItem
    ⟨0⟩ (.array ⟨0⟩)

theorem knot_backs (l : Law) : knot.Backs l {.array ⟨0⟩} := by
  have hm : (({} : Heap).newArray #[]).2.Backs l {.array ⟨0⟩} :=
    Moves.backs (Backs.newArray ((Backs.empty l {}).mono (by simp)))
  have hpush : ∀ k : Heap, k.Backs l {.array ⟨0⟩} →
      ((k.retainRef ⟨0⟩).pushItem ⟨0⟩ (.array ⟨0⟩)).Backs l {.array ⟨0⟩} := fun k hk =>
    (hk.retainRef (hk.has (Multiset.mem_singleton_self _)) rfl).backs.pushItem.backs
  exact hpush _ (hpush _ hm)

theorem deepCopy_isomorphic_knot :
    knot.Backs ⟨fun _ _ => True, fun _ => True⟩ {.array ⟨0⟩} ∧ knot.Has (.array ⟨0⟩) ∧
    ∃ copies, knot.Duplicated (.array ⟨0⟩) (knot.deepCopy (.array ⟨0⟩)).2
      (knot.deepCopy (.array ⟨0⟩)).1 copies := by
  have hb := knot_backs ⟨fun _ _ => True, fun _ => True⟩
  have hv := hb.has (Multiset.mem_singleton_self _)
  exact ⟨hb, hv, (deepCopy_isomorphic hb).1 _ hv⟩

end Heap

end ScriptMachine
