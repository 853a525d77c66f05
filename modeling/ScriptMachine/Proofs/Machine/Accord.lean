import ScriptMachine.Proofs.Machine.Construction
import ScriptMachine.Proofs.Machine.Twins

/-!
# Members and operators at two machines

Two machines at the same point that are both in order. What is lent by an object that
lives in both lives in both, so members and operators go the same way, if calls do.
-/

set_option autoImplicit false

namespace ScriptMachine

variable {P : NativeObject → Prop} {φ : Fault} {t : Terms} {s s' : Scope}

namespace Machine

/-- Both machines are in order, each within its scope, while someone owns the same values
of both. -/
structure Level (P : NativeObject → Prop) (t : Terms) (s s' : Scope) (own : List Value)
    (m m' : Machine) : Prop where
  twin : m.Twin P m'
  left : m.Within t s own
  right : m'.Within t s' own

/-- The value names nothing, or an object that lives in both machines. -/
abbrev Shared (m m' : Machine) (v : Value) : Prop := m.heap.Shared m'.heap v

namespace Level

variable {own own' vs : List Value} {m m' : Machine} {v : Value}

theorem abreast (hl : Level P t s s' own m m') : m.heap.Abreast P t.law m'.heap :=
  ⟨hl.twin.mirrors, ⟨_, hl.left.backs⟩, ⟨_, hl.right.backs⟩⟩

theorem shared (hl : Level P t s s' own m m') (hv : v ∈ own) : Shared m m' v :=
  ⟨hl.left.has hv, hl.right.has hv⟩

theorem shared_globals (hl : Level P t s s' own m m') : Shared m m' (.dict m.root) := by
  refine ⟨hl.left.has_root globals_mem_roots, hl.right.has_root ?_⟩
  rw [← hl.twin.root_eq]
  exact globals_mem_roots

theorem shared_table (hl : Level P t s s' own m m') {d : Ref} (hd : d ∈ m.delegates) :
    Shared m m' (.dict d) := by
  refine ⟨hl.left.has_root (table_mem_roots hd), hl.right.has_root (table_mem_roots ?_)⟩
  rwa [hl.twin.delegates_eq]

theorem mono (hl : Level P t s s' own m m') (hle : (own' : Multiset Value) ≤ own) :
    Level P t s s' own' m m' := ⟨hl.twin, hl.left.mono hle, hl.right.mono hle⟩

theorem perm (hl : Level P t s s' own m m') (hp : own'.Perm own) : Level P t s s' own' m m' :=
  ⟨hl.twin, hl.left.perm hp, hl.right.perm hp⟩

theorem own_plain (hl : Level P t s s' own m m') (hv : v.ref? = none) :
    Level P t s s' (v :: own) m m' := ⟨hl.twin, hl.left.own_plain hv, hl.right.own_plain hv⟩

theorem retain (hl : Level P t s s' own m m') (hv : Shared m m' v) :
    Level P t s s' (v :: own) (m.withHeap (m.heap.retain v)) (m'.withHeap (m'.heap.retain v)) :=
  ⟨hl.twin.retain v, hl.left.retain hv.1, hl.right.retain hv.2⟩

theorem retainAll (hl : Level P t s s' own m m') (hv : ∀ v ∈ vs, Shared m m' v) :
    Level P t s s' (vs ++ own) (m.withHeap (m.heap.retainAll vs))
      (m'.withHeap (m'.heap.retainAll vs)) :=
  ⟨hl.twin.withHeap (hl.twin.mirrors.retainAll vs), hl.left.retainAll fun v hm => (hv v hm).1,
    hl.right.retainAll fun v hm => (hv v hm).2⟩

theorem release (hl : Level P t s s' (v :: own) m m') :
    Level P t s s' own (m.withHeap (m.heap.release v)) (m'.withHeap (m'.heap.release v)) :=
  ⟨hl.twin.release v, hl.left.release, hl.right.release⟩

end Level

/-- Sharing lets nothing go. -/
theorem Shared.retainAll {m m' : Machine} {w : Value} (hw : Shared m m' w) (vs : List Value) :
    Shared (m.withHeap (m.heap.retainAll vs)) (m'.withHeap (m'.heap.retainAll vs)) w :=
  ⟨(Heap.spares_retainAll _ vs).has hw.1, (Heap.spares_retainAll _ vs).has hw.2⟩

theorem Shared.retain {m m' : Machine} {w : Value} (hw : Shared m m' w) (v : Value) :
    Shared (m.withHeap (m.heap.retain v)) (m'.withHeap (m'.heap.retain v)) w :=
  ⟨Heap.Backs.has_retain hw.1, Heap.Backs.has_retain hw.2⟩

end Machine

namespace Exec

open ScriptMachine.Machine (Level Shared)

variable {α β : Type} {m m' : Machine} {act act' x x' : Exec α} {f f' : α → Exec β}
variable {own own' vs : List Value} {call call' : Caller}

namespace EchoAt

/-- The first part keeps both machines in order. -/
theorem keeping {gives : α → List Value} (h : EchoAt P φ act act' m m')
    (hk : Keeps t s own act x gives m) (hk' : Keeps t s' own act' x' gives m')
    (hf : ∀ a n n', Level P t s s' (gives a ++ own) n n' → EchoAt P φ (f a) (f' a) n n') :
    EchoAt P φ (act >>= f) (act' >>= f') m m' :=
  h.bind fun a n n' heq heq' ht => hf a n n' ⟨ht, hk.done heq, hk'.done heq'⟩

theorem retaining {v : Value} {f f' : Unit → Exec β} (hl : Level P t s s' own m m')
    (hv : Shared m m' v)
    (hf : ∀ n n', Level P t s s' (v :: own) n n' → (∀ w, Shared m m' w → Shared n n' w) →
      EchoAt P φ (f ()) (f' ()) n n') :
    EchoAt P φ (Exec.retain v >>= f) (Exec.retain v >>= f') m m' :=
  next (retain_eq m v) (retain_eq m' v) (hf _ _ (hl.retain hv) fun _ hw => hw.retain v)

theorem retainingAll {f f' : Unit → Exec β} (hl : Level P t s s' own m m')
    (hv : ∀ v ∈ vs, Shared m m' v)
    (hf : ∀ n n', Level P t s s' (vs ++ own) n n' → (∀ w, Shared m m' w → Shared n n' w) →
      EchoAt P φ (f ()) (f' ()) n n') :
    EchoAt P φ (Exec.retainAll vs >>= f) (Exec.retainAll vs >>= f') m m' :=
  next (retainAll_eq m vs) (retainAll_eq m' vs)
    (hf _ _ (hl.retainAll hv) fun _ hw => hw.retainAll vs)

theorem holding (hl : Level P t s s' own m m') (hv : ∀ v ∈ vs, Shared m m' v)
    (hact : ∀ n n', Level P t s s' (vs ++ own) n n' → (∀ w, Shared m m' w → Shared n n' w) →
      EchoAt P φ act act' n n') :
    EchoAt P φ (Exec.holding vs act) (Exec.holding vs act') m m' :=
  .retainingAll hl hv fun n n' hn hw => .owning (hact n n' hn hw)

/-- An operation that keeps both heaps in order and does the same to them. -/
theorem operating {g : Heap → α × Heap} (hl : Level P t s s' own m m')
    (hg : Heap.Mirrored P g m.heap m'.heap) (hk : (m.withHeap (g m.heap).2).Within t s own')
    (hk' : (m'.withHeap (g m'.heap).2).Within t s' own')
    (hf : Level P t s s' own' (m.withHeap (g m.heap).2) (m'.withHeap (g m'.heap).2) →
      EchoAt P φ (f (g m.heap).1) (f' (g m.heap).1) (m.withHeap (g m.heap).2)
        (m'.withHeap (g m'.heap).2)) :
    EchoAt P φ (Exec.heap g >>= f) (Exec.heap g >>= f') m m' :=
  next (heap_eq m g) (by rw [heap_eq, hg.1]) (hf ⟨hl.twin.withHeap hg.2, hk, hk'⟩)

/-- The caller goes on as owner of one value less. -/
theorem releasing {v : Value} {f f' : Unit → Exec β} (hl : Level P t s s' (v :: own) m m')
    (hf : ∀ n n', Level P t s s' own n n' → EchoAt P φ (f ()) (f' ()) n n') :
    EchoAt P φ (Exec.release v >>= f) (Exec.release v >>= f') m m' :=
  next (release_eq m v) (release_eq m' v) (hf _ _ hl.release)

end EchoAt

/-- Calls come to the same at two machines that are in order. -/
structure Accord (P : NativeObject → Prop) (φ : Fault) (t : Terms) (call call' : Caller) : Prop where
  left : Faithful t call call
  right : Faithful t call' call'
  echo : ∀ {s s' : Scope} {callee : Value} {args own : List Value} {m m' : Machine},
    Level P t s s' (args ++ own) m m' → Shared m m' callee →
      EchoAt P φ (call callee args) (call' callee args) m m'

/-! ## Calls -/

theorem callMeta_echo (hc : Accord P φ t call call') {g : Value} {lent : List Value}
    (owned : List Value) (hl : Level P t s s' (owned ++ own) m m') (hg : Shared m m' g)
    (hlent : ∀ v ∈ lent, Shared m m' v) :
    EchoAt P φ (callMeta call g lent owned) (callMeta call' g lent owned) m m' := by
  unfold callMeta
  refine .holding hl (by simpa using hg) fun n n' hn hw => ?_
  refine .retainingAll hn (fun v hv => hw v (hlent v hv)) fun n1 n1' hn1 hw1 => ?_
  have hn2 : Level P t s s' (lent ++ owned ++ ([g] ++ own)) n1 n1' := by
    refine hn1.mono (le_of_eq ?_)
    simp only [← Multiset.coe_add]
    ac_rfl
  exact hc.echo hn2 (hw1 g (hw g hg))

/-! ## Reading -/

theorem keyDelegate?_eq (hl : Level P t s s' own m m') (tag : TypeTag) (key : Value) :
    ∃ o, keyDelegate? tag key m = .ok o m ∧ keyDelegate? tag key m' = .ok o m' := by
  cases key with
  | string k =>
    refine ⟨_, rfl, ?_⟩
    show EStateM.Result.ok _ m' = EStateM.Result.ok _ m'
    rw [hl.twin.delegates_eq]
    cases hd : m.delegates[tag.index]? with
    | none => rfl
    | some d =>
      simp only [Option.bind_some,
        hl.abreast.dictGet?_eq (hl.shared_table (List.mem_of_getElem? hd))]
  | _ => exact ⟨none, rfl, rfl⟩

theorem missingIndex_echo (hl : Level P t s s' own m m') {key : Value} (hk : Shared m m' key) :
    EchoAt P φ (do fail (← readHeap fun (h : Heap) => missingIndex h key) : Exec α)
      (do fail (← readHeap fun (h : Heap) => missingIndex h key)) m m' :=
  .readHeap (by rw [missingIndex, missingIndex, hl.abreast.display_eq hk]) (.fail hl.twin _)

theorem getMember_echo (hc : Accord P φ t call call') {obj key : Value}
    (hl : Level P t s s' own m m') (ho : Shared m m' obj) (hk : Shared m m' key) :
    EchoAt P φ (getMember call obj key) (getMember call' obj key) m m' := by
  unfold getMember
  refine .readHeap (hl.abreast.member?_eq ho key) ?_
  split
  · exact .fail hl.twin _
  · exact sharing_echo hl.twin _
  · refine .readHeap (hl.abreast.metaOf?_eq ho .get) ?_
    split
    · rename_i g hg
      exact callMeta_echo hc [] hl (hl.abreast.metaOf?_shared ho hg) (by simp [ho, hk])
    · obtain ⟨o, heq, heq'⟩ := keyDelegate?_eq hl obj.tag key
      refine .next heq heq' ?_
      split
      · exact sharing_echo hl.twin _
      · exact missingIndex_echo hl hk

theorem hasMember_echo (hl : Level P t s s' own m m') {obj : Value} (ho : Shared m m' obj)
    (key : Value) : EchoAt P φ (hasMember obj key) (hasMember obj key) m m' := by
  refine .of_ok (a := m.heap.hasMember obj key) rfl ?_ hl.twin
  rw [← hl.abreast.hasMember_eq ho key]
  rfl

/-! ## Writing -/

theorem storingKey_echo (ht : m.Twin P m') (key : Value) (stored : List Value) :
    EchoAt P φ (storingKey key stored) (storingKey key stored) m m' := by
  unfold storingKey
  split
  · exact .pure ht _
  · exact (releaseAll_echo ht stored).seq fun _ _ _ hn => .fail hn _

/-- A key that is no string is an error; otherwise both machines stay as they are. -/
theorem EchoAt.storingKey {key : Value} {f f' : Text → Exec β} (stored : List Value)
    (ht : m.Twin P m') (hf : ∀ k, key = .string k → EchoAt P φ (f k) (f' k) m m') :
    EchoAt P φ (Exec.storingKey key stored >>= f) (Exec.storingKey key stored >>= f') m m' := by
  cases key with
  | string k => exact hf k rfl
  | _ =>
    refine (storingKey_echo ht _ stored).bind fun k n n' heq _ _ => ?_
    exact absurd heq (by
      unfold Exec.storingKey
      simp only [Value.keyText]
      rw [bind_ok m (releaseAll_eq m stored)]
      exact fun h => by cases h)

theorem requireFound_echo (ht : m.Twin P m') (name : String) (found : Bool) :
    EchoAt P φ (requireFound name found) (requireFound name found) m m' := by
  unfold requireFound
  split
  · exact .pure ht ()
  · exact .fail ht _

theorem assignThrough_echo (hc : Accord P φ t call call') {obj key v : Value}
    (hl : Level P t s s' (v :: own) m m') (ho : obj ∈ own) (hk : key ∈ own) :
    EchoAt P φ (assignThrough call obj key v) (assignThrough call' obj key v) m m' := by
  have hobj := hl.shared (List.mem_cons_of_mem v ho)
  have hkey := hl.shared (List.mem_cons_of_mem v hk)
  unfold assignThrough
  refine .readHeap (hl.abreast.metaOf?_eq hobj .assign) ?_
  split
  · rename_i g hg
    refine (callMeta_echo hc [v] hl (hl.abreast.metaOf?_shared hobj hg) (by simp [hobj, hkey])).seq
      fun w _ _ hn => release_echo hn w
  · exact .releasing hl fun n n' hn => missingIndex_echo hn (hn.shared hk)

/-- Overwriting comes to the same; the object and the key must be held. -/
theorem setMember_echo (hc : Accord P φ t call call') {obj key v : Value}
    (hl : Level P t s s' (v :: own) m m') (ho : obj ∈ own) (hk : key ∈ own) :
    EchoAt P φ (setMember call obj key v) (setMember call' obj key v) m m' := by
  have hobj := hl.shared (List.mem_cons_of_mem v ho)
  have hend : ∀ (stored : Bool) (n n' : Machine), Level P t s s' (v :: own) n n' →
      EchoAt P φ (if stored then release v else assignThrough call obj key v)
        (if stored then release v else assignThrough call' obj key v) n n' := by
    intro stored n n' hn
    split
    · exact release_echo hn.twin v
    · exact assignThrough_echo hc hn ho hk
  unfold setMember
  split
  · refine .storingKey [v] hl.twin fun k _ => ?_
    exact (heap_echo hl.twin (hl.abreast.dictSet hobj _ _)).seq fun found _ _ hn =>
      requireFound_echo hn _ found
  · refine .storingKey [v] hl.twin fun k _ => ?_
    exact (heap_echo hl.twin (hl.abreast.classSet hobj _ _)).seq fun found _ _ hn =>
      requireFound_echo hn _ found
  · split
    · exact slotHeap_echo hl.twin (hl.abreast.setItem hobj _ _)
    · exact (release_echo hl.twin v).seq fun _ _ _ hn => .fail hn _
  · refine .retaining hl (hl.shared List.mem_cons_self) fun n n' hn hw => ?_
    dsimp only
    split
    · exact .operating hn (hn.abreast.instanceSet (hw _ hobj) _ v)
        (hn.left.heap hn.left.backs_cons.instanceSet) (hn.right.heap hn.right.backs_cons.instanceSet)
        fun hn1 => hend _ _ _ hn1
    · exact .releasing hn fun n1 n1' hn1 => hend false n1 n1' hn1
  · exact (release_echo hl.twin v).seq fun _ _ _ hn => .fail hn _

theorem newClassMember_echo (hc : Accord P φ t call call') {cls : Ref} {key v attributes : Value}
    {isStatic : Bool} (hl : Level P t s s' (v :: attributes :: own) m m')
    (ho : .classObject cls ∈ own) (hk : key ∈ own) :
    EchoAt P φ (newClassMember call cls key v attributes isStatic)
      (newClassMember call' cls key v attributes isStatic) m m' := by
  have hlive : ∀ w ∈ own, Shared m m' w := fun w hw =>
    hl.shared (List.mem_cons_of_mem _ (List.mem_cons_of_mem _ hw))
  unfold newClassMember
  refine .readHeap (hl.abreast.classMeta?_eq (hlive _ ho) .newMember) ?_
  split
  · rename_i g hg
    have hl0 : Level P t s s' (v :: attributes :: .bool isStatic :: own) m m' :=
      (hl.own_plain (v := .bool isStatic) rfl).perm
        (((List.Perm.swap _ _ _).cons _).trans (List.Perm.swap _ _ _))
    refine (callMeta_echo hc [v, attributes, .bool isStatic] hl0
      (hl.abreast.classMeta?_shared (hlive _ ho) hg) ?_).seq fun w _ _ hn => release_echo hn w
    simp [hlive _ ho, hlive _ hk]
  · refine .storingKey [v, attributes] hl.twin fun k hkey => ?_
    subst hkey
    have ho' : .classObject cls ∈ attributes :: own := List.mem_cons_of_mem _ ho
    have hk' : .string k ∈ attributes :: own := List.mem_cons_of_mem _ hk
    refine .keeping (.handing ?_) (.handing (addMember_keeps hl.left ho' hk'))
      (.handing (addMember_keeps hl.right ho' hk')) fun _ n n' hn => ?_
    · refine .retaining hl (hlive _ hk) fun n n' hn hw => ?_
      exact slotHeap_echo hn.twin (hn.abreast.classNewSlot (hw _ (hlive _ ho)) k
        (hw v (hl.shared List.mem_cons_self)) isStatic)
    · split
      · exact .pure hn.twin ()
      · exact slotHeap_echo hn.twin
          (hn.abreast.setMemberAttributes (hn.shared (by simp [ho])) k.chars attributes)

theorem newSlot_echo (hc : Accord P φ t call call') {obj key v : Value}
    (hl : Level P t s s' (v :: own) m m') (ho : obj ∈ own) (hk : key ∈ own) :
    EchoAt P φ (newSlot call obj key v) (newSlot call' obj key v) m m' := by
  have hobj := hl.shared (List.mem_cons_of_mem v ho)
  have hkey := hl.shared (List.mem_cons_of_mem v hk)
  unfold newSlot
  split
  · refine .storingKey [v] hl.twin fun k hkey' => ?_
    subst hkey'
    refine .retaining hl hkey fun n n' hn hw => ?_
    exact updateHeap_echo hn.twin (hn.abreast.dictInsert (hw _ hobj) k v)
  · have hl0 : Level P t s s' (v :: .null :: own) m m' :=
      (hl.own_plain (v := .null) rfl).perm (.swap _ _ _)
    exact newClassMember_echo hc hl0 ho hk
  · refine .readHeap (hl.abreast.metaOf?_eq hobj .newSlot) ?_
    split
    · rename_i g hg
      exact (callMeta_echo hc [v] hl (hl.abreast.metaOf?_shared hobj hg) (by simp [hobj, hkey])).seq
        fun w _ _ hn => release_echo hn w
    · exact (release_echo hl.twin v).seq fun _ _ _ hn => .fail hn _
  · exact (release_echo hl.twin v).seq fun _ _ _ hn => .fail hn _

theorem deleteSlot_echo (hc : Accord P φ t call call') {obj key : Value}
    (hl : Level P t s s' own m m') (ho : Shared m m' obj) (hk : Shared m m' key) :
    EchoAt P φ (deleteSlot call obj key) (deleteSlot call' obj key) m m' := by
  unfold deleteSlot
  split
  · cases key.keyText with
    | error e => exact .fail hl.twin _
    | ok k =>
      have hkey : ∀ n, ofSlot (.ok k) n = .ok k n := fun _ => rfl
      refine .next (hkey m) (hkey m') ?_
      refine (heap_echo hl.twin (hl.abreast.dictRemove ho _)).seq fun removed _ _ hn => ?_
      cases removed with
      | some v => exact .pure hn v
      | none => exact .fail hn _
  · split
    · exact slotHeap_echo hl.twin (hl.abreast.removeItem ho _)
    · exact .fail hl.twin _
  · refine .readHeap (hl.abreast.metaOf?_eq ho .removeSlot) ?_
    split
    · rename_i g hg
      exact callMeta_echo hc [] hl (hl.abreast.metaOf?_shared ho hg) (by simp [ho, hk])
    · exact .fail hl.twin _
  · exact .fail hl.twin _

/-! ## Operators -/

theorem display_echo (hl : Level P t s s' own m m') {v : Value} (hv : Shared m m' v) :
    EchoAt P φ (readHeap fun (h : Heap) => h.display v) (readHeap fun (h : Heap) => h.display v)
      m m' := by
  refine .of_ok (a := m.heap.display v) rfl ?_ hl.twin
  rw [← hl.abreast.display_eq hv]
  rfl

theorem displayText_echo (hc : Accord P φ t call call') {v : Value} (hl : Level P t s s' own m m')
    (hv : Shared m m' v) : EchoAt P φ (displayText call v) (displayText call' v) m m' := by
  unfold displayText
  refine .readHeap (hl.abreast.metaOf?_eq hv .string) ?_
  split
  · exact display_echo hl hv
  · rename_i g hg
    have hshared := hl.abreast.metaOf?_shared hv hg
    refine .keeping (callMeta_echo hc [] hl hshared (by simpa using hv))
      (callMeta_keeps hc.left [] hl.left hshared.1 (by simpa using hv.1))
      (callMeta_keeps hc.right [] hl.right hshared.2 (by simpa using hv.2)) fun w n n' hn => ?_
    exact .owning (display_echo hn (hn.shared (by simp)))

theorem arithOp_echo (hc : Accord P φ t call call') {op : ArithOp} {a b : Value}
    (hl : Level P t s s' own m m') (ha : Shared m m' a) (hb : Shared m m' b) :
    EchoAt P φ (arithOp call op a b) (arithOp call' op a b) m m' := by
  unfold arithOp
  refine .readHeap (hl.abreast.metaOf?_eq ha _) ?_
  split
  · rename_i g hg
    exact callMeta_echo hc [] hl (hl.abreast.metaOf?_shared ha hg) (by simp [ha, hb])
  · split
    · exact (displayText_echo hc hl hb).seq fun _ _ _ hn => newString_echo hn _
    · exact (displayText_echo hc hl ha).seq fun _ _ _ hn => newString_echo hn _
    · exact (heap_echo hl.twin (hl.abreast.arith _ ha hb)).seq fun r _ _ hn => ofExcept_echo hn r

theorem negateOp_echo (hc : Accord P φ t call call') {v : Value} (hl : Level P t s s' own m m')
    (hv : Shared m m' v) : EchoAt P φ (negateOp call v) (negateOp call' v) m m' := by
  unfold negateOp
  refine .readHeap (hl.abreast.metaOf?_eq hv .neg) ?_
  split
  · rename_i g hg
    exact callMeta_echo hc [] hl (hl.abreast.metaOf?_shared hv hg) (by simpa using hv)
  · exact ofExcept_echo hl.twin _

theorem compareOp_echo (hc : Accord P φ t call call') {a b : Value} (hl : Level P t s s' own m m')
    (ha : Shared m m' a) (hb : Shared m m' b) :
    EchoAt P φ (compareOp call a b) (compareOp call' a b) m m' := by
  unfold compareOp
  refine .readHeap (hl.abreast.metaOf?_eq ha .compare) ?_
  split
  · rename_i g hg
    refine (callMeta_echo hc [] hl (hl.abreast.metaOf?_shared ha hg) (by simp [ha, hb])).seq ?_
    exact fun w _ _ hn => .owning (ofExcept_echo hn (statedOrder w))
  · exact ofExcept_echo hl.twin _

theorem typeOf_echo (hc : Accord P φ t call call') {v : Value} (hl : Level P t s s' own m m')
    (hv : Shared m m' v) : EchoAt P φ (typeOf call v) (typeOf call' v) m m' := by
  unfold typeOf
  refine .readHeap (hl.abreast.metaOf?_eq hv .typeOf) ?_
  split
  · rename_i g hg
    exact callMeta_echo hc [] hl (hl.abreast.metaOf?_shared hv hg) (by simpa using hv)
  · exact newString_echo hl.twin _

theorem instanceOf_echo (hl : Level P t s s' own m m') (cls : Value) {obj : Value}
    (ho : Shared m m' obj) : EchoAt P φ (instanceOf cls obj) (instanceOf cls obj) m m' := by
  unfold instanceOf
  split
  · rename_i c
    split
    · rename_i r
      refine .of_ok (a := m.heap.isInstanceOf r c) rfl ?_ hl.twin
      rw [← hl.abreast.isInstanceOf_eq ho c]
      rfl
    · exact .pure hl.twin false
  · exact .fail hl.twin _

end Exec

end ScriptMachine
