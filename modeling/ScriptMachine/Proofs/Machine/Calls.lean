import ScriptMachine.Machine.Run
import ScriptMachine.Proofs.Machine.Natives

/-!
# Calls of values that are no script functions

A class makes an instance, and an instance is called through its metamethod. In
both cases the receiver takes the place of the one that was passed.
-/

set_option autoImplicit false

namespace ScriptMachine.Exec

variable {t : Terms} {s : Scope} {own : List Value} {m : Machine} {call call' : Caller}

theorem withReceiver_keeps {this : Value} {args : List Value} (hm : m.Within t s (args ++ own))
    (ht : m.heap.Has this) :
    Keeps t s own (withReceiver this args) (withReceiver this args) id m := by
  unfold withReceiver
  refine .retain hm ht fun m1 hm1 _ => ?_
  split
  · exact .pure hm1
  · rename_i old rest
    exact .release (hm1.perm (List.Perm.swap this old _)) fun m2 hm2 => .pure hm2

theorem construct_keeps (hc : Faithful t call call') {cls : Ref} {args : List Value}
    (hm : m.Within t s (args ++ own)) (hcls : m.heap.Has (.classObject cls)) :
    Keeps t s own (construct call cls args) (construct call' cls args) (fun (v : Value) => [v])
      m := by
  unfold construct
  refine .next (heap_eq m _) ?_
  have hnew : (m.withHeap (m.heap.newInstance cls).2).Within t s
      (.instanceObject (m.heap.newInstance cls).1 :: (args ++ own)) :=
    hm.heap_cons (hm.backs.newInstance hcls)
  have hm1 := hnew.perm (List.perm_middle :
    (args ++ .instanceObject (m.heap.newInstance cls).1 :: own).Perm _)
  dsimp only
  refine .readHeap ?_
  split
  · exact .releaseAll hm1 fun m2 hm2 => .pure hm2
  · rename_i f hf
    have hlive := hm1.backs.has_constructor hf
    refine .handed (.holding hm1 (by simpa using hlive) fun m2 hm2 hw2 => ?_)
      fun m2 hm2 => .pure hm2
    have hargs := hm2.perm (List.perm_middle : (args ++ f :: _).Perm _)
    refine .bind (withReceiver_keeps hargs (hm2.has (by simp))) fun vs m3 hm3 => ?_
    exact .bind (hc s f vs _ m3 hm3 (hm3.has (by simp))) fun v m4 hm4 => .released hm4

theorem callInstance_keeps (hc : Faithful t call call') {this : Value} {args : List Value}
    (hm : m.Within t s (args ++ own)) (ht : m.heap.Has this) :
    Keeps t s own (callInstance call this args) (callInstance call' this args)
      (fun (v : Value) => [v]) m := by
  unfold callInstance
  refine .readHeap ?_
  split
  · exact .releaseAll hm fun m1 hm1 => .fail hm1 ErrorKind.noConfusion
  · rename_i f hf
    have hlive := hm.backs.has_metaOf hf
    refine .holding hm (by simpa using hlive) fun m1 hm1 hw1 => ?_
    have hargs := hm1.perm (List.perm_middle : (args ++ f :: own).Perm _)
    refine .bind (withReceiver_keeps hargs (hw1 _ ht)) fun vs m2 hm2 => ?_
    exact hc s f vs _ m2 hm2 (hm2.has (by simp))

end ScriptMachine.Exec
