import ScriptMachine.Heap.Equality

/-!
# Classes and instances

A class has two tables: methods for functions and static members, fields for
what each instance gets a copy of. A class that has an instance, also through a
class derived from it, takes no more fields.
-/

set_option autoImplicit false

namespace ScriptMachine

namespace ClassObject

def maxMembers : Nat := 0x00FFFFFF

def member? (c : ClassObject) (name : String) : Option Member :=
  (c.members.find? fun (e : Text × Member) => e.1.chars == name).map (·.2)

def entry? (c : ClassObject) : Member → Option ClassMember
  | .field i => c.fields[i]?
  | .method i => c.methods[i]?

def get? (c : ClassObject) (name : String) : Option Value :=
  ((c.member? name).bind c.entry?).map (·.value)

/-- The method of a name; a field is none. -/
def method? (c : ClassObject) (name : String) : Option Value :=
  match c.member? name with
  | some (.method i) => (c.methods[i]?).map (·.value)
  | _ => none

def constructor? (c : ClassObject) : Option Value :=
  (c.constructorIndex.bind fun (i : Nat) => c.methods[i]?).map (·.value)

def meta? (c : ClassObject) (m : MetaMethod) : Option Value :=
  match c.metas[m.index]? with
  | some v => if v.isNull then none else some v
  | none => none

def attributesOf? (c : ClassObject) (name : String) : Option Value :=
  ((c.member? name).bind c.entry?).map (·.attributes)

/-- The names of the fields, then those of the methods. -/
def memberNames (c : ClassObject) : List String :=
  c.fields.map (·.key.chars) ++ c.methods.map (·.key.chars)

def modifyEntry (c : ClassObject) (m : Member) (f : ClassMember → ClassMember) : ClassObject :=
  match m with
  | .field i => { c with fields := c.fields.modify i f }
  | .method i => { c with methods := c.methods.modify i f }

/-- Directs a name to a place; a name that is there keeps its key object. -/
def direct (members : List (Text × Member)) (key : Text) (m : Member) : List (Text × Member) :=
  match members with
  | [] => [(key, m)]
  | (k, old) :: rest =>
    if k.chars = key.chars then (k, m) :: rest else (k, old) :: direct rest key m

def addField (c : ClassObject) (key : Text) (v : Value) : ClassObject :=
  { c with
    members := direct c.members key (.field c.fields.length)
    fields := c.fields ++ [⟨key, v, .null⟩] }

/-- The first method of the constructor's name becomes the constructor. -/
def addMethod (c : ClassObject) (key : Text) (v : Value) : ClassObject :=
  { c with
    members := direct c.members key (.method c.methods.length)
    methods := c.methods ++ [⟨key, v, .null⟩]
    constructorIndex :=
      if key.chars = c.constructorName ∧ c.constructorIndex = none then some c.methods.length
      else c.constructorIndex }

def setMeta (c : ClassObject) (m : MetaMethod) (v : Value) : ClassObject :=
  { c with metas := c.metas.set m.index v }

/-- A class without base and members. -/
def empty (constructorName : String) : ClassObject where
  base := none
  constructorName := constructorName
  members := []
  methods := []
  fields := []
  metas := List.replicate MetaMethod.count .null
  attributes := .null
  locked := false
  constructorIndex := none

/-- A derived class starts with the tables of its base as they are now. -/
def derived (base : Ref) (b : ClassObject) (constructorName : String) : ClassObject :=
  { b with base := some base, constructorName, attributes := .null, locked := false }

end ClassObject

namespace Heap

def class? (h : Heap) (r : Ref) : Option ClassObject :=
  match h.body? r with
  | some (.classObject c) => some c
  | _ => none

def modifyClass (h : Heap) (r : Ref) (f : ClassObject → ClassObject) : Heap :=
  h.modifyBody r fun (b : Body) =>
    match b with
    | .classObject c => .classObject (f c)
    | b => b

def newClass (h : Heap) (base : Option Ref) (constructorName : String) : Ref × Heap :=
  let c := match base with
    | none => ClassObject.empty constructorName
    | some b =>
      match h.class? b with
      | some bc => ClassObject.derived b bc constructorName
      | none => ClassObject.empty constructorName
  let body := Body.classObject c
  (h.retainRefs body.refs).allocateLinked body

/-- Locks a class and its ancestors. A base is older than what derives from it,
so its identity bounds the way up. -/
def lockFrom (h : Heap) : Nat → Ref → Heap
  | 0, _ => h
  | fuel + 1, r =>
    match h.class? r with
    | none => h
    | some c =>
      let h := h.modifyClass r fun (c : ClassObject) => { c with locked := true }
      match c.base with
      | none => h
      | some b => lockFrom h fuel b

def lock (h : Heap) (r : Ref) : Heap := h.lockFrom (r.id + 1) r

def isSubclassWithin (h : Heap) (other : Ref) : Nat → Ref → Bool
  | 0, _ => false
  | fuel + 1, r =>
    if r = other then true
    else
      match (h.class? r).bind (·.base) with
      | none => false
      | some b => isSubclassWithin h other fuel b

/-- A class counts as a subclass of itself. -/
def isSubclass (h : Heap) (r other : Ref) : Bool := h.isSubclassWithin other (r.id + 1) r

/-! ## Closures as methods -/

def closure? (h : Heap) (r : Ref) : Option ClosureObject :=
  match h.body? r with
  | some (.closure c) => some c
  | _ => none

/-- A closure over cells and default values whose references are taken over. -/
def newClosure (h : Heap) (p : Prototype) (outers : List Ref) (defaults : List Value) :
    Ref × Heap :=
  h.allocateLinked (.closure { prototype := p, outers, defaults, owner := none })

/-- A copy of a closure that belongs to a class and shares the captured cells. -/
def bindTo (h : Heap) (c : ClosureObject) (owner : Ref) : Ref × Heap :=
  let body := Body.closure { c with owner := some owner }
  (h.retainRefs body.refs).allocateLinked body

/-- The value is the method that the base has under the name. -/
def isInherited (h : Heap) (c : ClassObject) (name : String) (v : Value) : Bool :=
  match ((c.base.bind h.class?).bind fun (b : ClassObject) => b.method? name) with
  | some m => m.sameObject v
  | none => false

/-- A script function becomes a method of the class: as it is when inherited or
bound here already, and as a bound copy otherwise. -/
def asMethod (h : Heap) (r : Ref) (c : ClassObject) (name : String) (v : Value) : Value × Heap :=
  match v with
  | .closure f =>
    match h.closure? f with
    | some fc =>
      if h.isInherited c name v || fc.owner == some r then (v, h)
      else
        let (bound, h) := h.bindTo fc r
        (.closure bound, h.release v)
    | none => (v, h)
  | _ => (v, h)

/-! ## Members -/

/-- Replaces the value of an entry, whose old value is let go. -/
def replaceEntry (h : Heap) (r : Ref) (c : ClassObject) (m : Member) (v : Value) : Heap :=
  let old := match c.entry? m with
    | some e => e.value
    | none => .null
  (h.modifyClass r fun (c : ClassObject) =>
    c.modifyEntry m fun (e : ClassMember) => { e with value := v }).release old

/-- Adds a member or overwrites one: a field that exists keeps its place, values
that are neither functions nor static become fields, functions with the name of
a metamethod define it, and all else are methods. References are taken over. -/
def classNewSlot (h : Heap) (r : Ref) (key : Text) (v : Value) (isStatic : Bool) :
    Except SlotError Unit × Heap :=
  match h.class? r with
  | none => (.ok (), (h.release v).releaseRef key.ref)
  | some c =>
    let shared := v.isFunction || isStatic
    let existing := c.member? key.chars
    if c.locked && !shared then
      (.error (.locked key.chars), (h.release v).releaseRef key.ref)
    else
      match existing with
      | some (.field i) => (.ok (), (h.replaceEntry r c (.field i) v).releaseRef key.ref)
      | _ =>
        if ClassObject.maxMembers ≤ c.members.length then
          (.error .tooManyMembers, (h.release v).releaseRef key.ref)
        else if !shared then
          let h := if existing.isSome then h else h.retainRef key.ref
          (.ok (), h.modifyClass r fun (c : ClassObject) => c.addField key v)
        else
          match (if v.isFunction then MetaMethod.ofName? key.chars else none) with
          | some m =>
            let old := (c.metas[m.index]?).getD .null
            (.ok (), ((h.modifyClass r fun (c : ClassObject) => c.setMeta m v).release old).releaseRef
              key.ref)
          | none =>
            let (v, h) := h.asMethod r c key.chars v
            match existing with
            | some (.method i) => (.ok (), (h.replaceEntry r c (.method i) v).releaseRef key.ref)
            | _ =>
              (.ok (), (h.retainRef key.ref).modifyClass r fun (c : ClassObject) => c.addMethod key v)

/-- Overwrites a member that exists; the reference is taken over, or let go. -/
def classSet (h : Heap) (r : Ref) (name : String) (v : Value) : Bool × Heap :=
  match h.class? r with
  | none => (false, h.release v)
  | some c =>
    match c.member? name with
    | some m => (true, h.replaceEntry r c m v)
    | none => (false, h.release v)

def setMemberAttributes (h : Heap) (r : Ref) (name : String) (v : Value) :
    Except SlotError Unit × Heap :=
  match h.class? r with
  | none => (.error (.missing name), h.release v)
  | some c =>
    match c.member? name with
    | some m =>
      let old := match c.entry? m with
        | some e => e.attributes
        | none => .null
      (.ok (), (h.modifyClass r fun (c : ClassObject) =>
        c.modifyEntry m fun (e : ClassMember) => { e with attributes := v }).release old)
    | none => (.error (.missing name), h.release v)

def setClassAttributes (h : Heap) (r : Ref) (v : Value) : Heap :=
  match h.class? r with
  | none => h.release v
  | some c =>
    (h.modifyClass r fun (c : ClassObject) => { c with attributes := v }).release c.attributes

/-! ## Instances -/

/-- An instance with copies of the default values; its class is locked. -/
def newInstance (h : Heap) (cls : Ref) : Ref × Heap :=
  let h := h.lock cls
  let defaults := match h.class? cls with
    | some c => c.fields.map (·.value)
    | none => []
  let (values, h) := h.deepCopyAll defaults
  (h.retainRef cls).allocateLinked (.instanceObject cls values)

def instance? (h : Heap) (r : Ref) : Option (Ref × List Value) :=
  match h.body? r with
  | some (.instanceObject cls values) => some (cls, values)
  | _ => none

def classOf? (h : Heap) (r : Ref) : Option ClassObject :=
  (h.instance? r).bind fun (i : Ref × List Value) => h.class? i.1

def instanceGet? (h : Heap) (r : Ref) (name : String) : Option Value :=
  match h.instance? r with
  | none => none
  | some (cls, values) =>
    match h.class? cls with
    | none => none
    | some c =>
      match c.member? name with
      | some (.field i) => values[i]?
      | some (.method _) => c.method? name
      | none => none

/-- Overwrites a field of an instance; methods cannot be overwritten there. The
reference is taken over, or let go. -/
def instanceSet (h : Heap) (r : Ref) (name : String) (v : Value) : Bool × Heap :=
  match h.instance? r with
  | none => (false, h.release v)
  | some (cls, values) =>
    match (h.class? cls).bind fun (c : ClassObject) => c.member? name with
    | some (.field i) =>
      match values[i]? with
      | some old => (true, (h.setBody r (.instanceObject cls (values.set i v))).release old)
      | none => (false, h.release v)
    | _ => (false, h.release v)

def instanceMeta? (h : Heap) (r : Ref) (m : MetaMethod) : Option Value :=
  (h.classOf? r).bind fun (c : ClassObject) => c.meta? m

def isInstanceOf (h : Heap) (r cls : Ref) : Bool :=
  match h.instance? r with
  | some (own, _) => h.isSubclass own cls
  | none => false

end Heap

end ScriptMachine
