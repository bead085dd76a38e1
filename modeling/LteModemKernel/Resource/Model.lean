import LteModemKernel.Lib.Runs

/-!
# The resource tree

A `struct resource` is a range of addresses.  Registered resources form a tree: the
member `child` points to the first child, `sibling` to the next child of the same
parent, and `parent` back to the parent.  A chain of siblings with everything below
them is a `Forest`; it is `nil` where the pointer is `NULL`.  The back
pointers are stored in the resources, as the functions set them.

A call names the resources it is about.  A new resource is not registered and has no
children.

Main definitions:

- `requestResource`, `insertResource`, `expandToFit`, `findResource`,
  `Forest.release`, `Forest.adjust`: the functions of `kernel/resource.c`.
- `Tree.exec`: the tree and the return value after a call.
-/

namespace LteModemKernel.Resource

open Lib

/-- The address that names a `struct resource`. -/
abbrev Id := Nat

/-- A resource: both ends of the range belong to it. -/
structure Res where
  id : Id
  start : UInt32
  stop : UInt32
  parent : Option Id
  deriving DecidableEq, Repr

/-- A chain of siblings, each with the chain of its children. -/
inductive Forest where
  | nil
  | cons (res : Res) (child sibling : Forest)
  deriving DecidableEq, Repr

namespace Forest

/-- The resources of the chain itself. -/
def row : Forest → List Res
  | nil => []
  | cons res _ sibling => res :: sibling.row

/-- The resources of the chain and all below, each with the chain of its children. -/
def nodes : Forest → List (Res × Forest)
  | nil => []
  | cons res child sibling => (res, child) :: (child.nodes ++ sibling.nodes)

/-- The names of all resources. -/
def ids (f : Forest) : List Id :=
  f.nodes.map fun n => n.1.id

/-- The resource of a name with the chain of its children. -/
def find (id : Id) (f : Forest) : Option (Res × Forest) :=
  f.nodes.find? fun n => n.1.id == id

/-- Replace the chain of children of the resource `p`, if `g` gives a new one. -/
def update (p : Id) (g : Res → Forest → Option Forest) : Forest → Option Forest
  | nil => none
  | cons res child sibling =>
    if res.id = p then
      (g res child).map fun child' => cons res child' sibling
    else
      match update p g child with
      | some child' => some (cons res child' sibling)
      | none => (update p g sibling).map fun sibling' => cons res child sibling'

end Forest

/-! ## Requesting and releasing -/

/-- The range is turned around, or not inside the one of `root`. -/
def Res.outside (root new : Res) : Bool :=
  new.stop < new.start || new.start < root.start || root.stop < new.stop

/-- Put `new` in front of the first resource that starts behind its end; a resource
that ends before it is passed, any other one is the conflict. -/
def link (root new : Res) : Forest → Except Res Forest
  | .nil => .ok (.cons { new with parent := some root.id } .nil .nil)
  | .cons tmp child sibling =>
    if new.stop < tmp.start then
      .ok (.cons { new with parent := some root.id } .nil (.cons tmp child sibling))
    else if tmp.stop < new.start then
      (link root new sibling).map fun sibling' => .cons tmp child sibling'
    else
      .error tmp

/-- `__request_resource`: the children of `root` afterwards, or the conflict. -/
def requestResource (root : Res) (children : Forest) (new : Res) : Except Res Forest :=
  if root.outside new then .error root else link root new children

/-- The loop of `__release_resource` over the children of the parent. -/
def Forest.release (old : Id) : Forest → Option Forest
  | nil => none
  | cons tmp child sibling =>
    if tmp.id = old then some sibling
    else (release old sibling).map fun sibling' => cons tmp child sibling'

/-! ## Allocating -/

/-- `ALIGN(x, a)` -/
def align (x a : UInt32) : UInt32 :=
  (x + a - 1) &&& ~~~(a - 1)

/-- The arguments of `allocate_resource`; `alignf` may move both ends of the new
resource. -/
structure Request where
  size : UInt32
  min : UInt32
  max : UInt32
  align : UInt32
  alignf : Option (UInt32 × UInt32 → UInt32 → UInt32 → UInt32 × UInt32)

/-- The range taken from the gap between `start` and `stop`, if it is big enough. -/
def Request.fit (q : Request) (start stop : UInt32) : Option (UInt32 × UInt32) :=
  let start := if start < q.min then q.min else start
  let stop := if q.max < stop then q.max else stop
  let start := Resource.align start q.align
  let (start, stop) := match q.alignf with
    | some alignf => alignf (start, stop) q.size q.align
    | none => (start, stop)
  if start < stop && q.size - 1 ≤ stop - start then some (start, start + q.size - 1) else none

/-- The loop of `find_resource` over the gaps before, between and behind the children. -/
def Request.search (q : Request) (root : Res) (start : UInt32) : Forest → Option (UInt32 × UInt32)
  | .nil => q.fit start root.stop
  | .cons this _ sibling =>
    match q.fit start (this.start - 1) with
    | some range => some range
    | none => q.search root (this.stop + 1) sibling

/-- `find_resource`; a child that starts at 0 is skipped. -/
def findResource (q : Request) (root : Res) : Forest → Option (UInt32 × UInt32)
  | .nil => q.search root root.start .nil
  | .cons this child sibling =>
    if this.start = 0 then q.search root (this.stop + 1) sibling
    else q.search root root.start (.cons this child sibling)

/-- `allocate_resource` -/
def allocateResource (q : Request) (root : Res) (children : Forest) (new : Id) : Option Forest :=
  match findResource q root children with
  | none => none
  | some (start, stop) => (requestResource root children ⟨new, start, stop, none⟩).toOption

/-! ## Inserting -/

/-- The second loop of `__insert_resource`: the run of siblings that become children of
`new`, and the siblings behind them; a sibling that sticks out of `new` is the
conflict. -/
def swallow (new : Res) : Forest → Except Res (Forest × Forest)
  | .nil => .ok (.nil, .nil)
  | .cons next child sibling =>
    if next.start < new.start || new.stop < next.stop then
      .error next
    else
      let next' := { next with parent := some new.id }
      match sibling with
      | .nil => .ok (.cons next' child .nil, .nil)
      | .cons second _ _ =>
        if new.stop < second.start then
          .ok (.cons next' child .nil, sibling)
        else
          (swallow new sibling).map fun parts => (.cons next' child parts.1, parts.2)

/-- `new` takes the place of the run of siblings. -/
def adopt (parent new : Res) (siblings : Forest) : Except Res Forest :=
  (swallow new siblings).map fun parts =>
    .cons { new with parent := some parent.id } parts.1 parts.2

/-- The first loop of `__insert_resource` over the children of `parent`.  Where
`__request_resource` finds a conflict that is larger than `new`, it goes on with
the children of the conflict. -/
def descend (new parent : Res) : Forest → Except Res Forest
  | .nil => .ok (.cons { new with parent := some parent.id } .nil .nil)
  | .cons first child sibling =>
    if new.stop < first.start then
      .ok (.cons { new with parent := some parent.id } .nil (.cons first child sibling))
    else if first.stop < new.start then
      (descend new parent sibling).map fun sibling' => .cons first child sibling'
    else if new.start < first.start || first.stop < new.stop ||
        (first.start == new.start && first.stop == new.stop) then
      adopt parent new (.cons first child sibling)
    else if first.outside new then
      .error first
    else
      (descend new first child).map fun child' => .cons first child' sibling

/-- `__insert_resource` -/
def insertResource (parent : Res) (children : Forest) (new : Res) : Except Res Forest :=
  if parent.outside new then .error parent else descend new parent children

/-- The range of `new` with the one of the conflict. -/
def Res.expand (new conflict : Res) : Res :=
  { new with
    start := if conflict.start < new.start then conflict.start else new.start
    stop := if new.stop < conflict.stop then conflict.stop else new.stop }

/-- The loop of `insert_resource_expand_to_fit`; `none` if it takes more rounds
than `fuel`. -/
def expandToFit (root : Res) (children : Forest) : Nat → Res → Option Forest
  | 0, _ => none
  | fuel + 1, new =>
    match insertResource root children new with
    | .ok children' => some children'
    | .error conflict =>
      if conflict.id = root.id then some children
      else expandToFit root children fuel (new.expand conflict)

/-! ## Adjusting -/

/-- `adjust_resource` over the children of the parent; `prev` is the child before. -/
def Forest.adjust (parent : Res) (id : Id) (start stop : UInt32) : Option Res → Forest →
    Option Forest
  | _, nil => none
  | prev, cons res child sibling =>
    if res.id = id then
      if start < parent.start || parent.stop < stop then none
      else if child.row.any fun tmp => tmp.start < start || stop < tmp.stop then none
      else if sibling.row.head?.any fun next => next.start ≤ stop then none
      else if prev.any fun tmp => start ≤ tmp.stop then none
      else some (cons { res with start := start, stop := stop } child sibling)
    else
      (adjust parent id start stop (some res) sibling).map fun sibling' =>
        cons res child sibling'

/-! ## The tree under one root -/

/-- A root with everything registered below it. -/
structure Tree where
  root : Res
  children : Forest
  deriving DecidableEq, Repr

namespace Tree

/-- All resources, each with the chain of its children. -/
def nodes (t : Tree) : List (Res × Forest) :=
  (t.root, t.children) :: t.children.nodes

/-- The names of all resources. -/
def ids (t : Tree) : List Id :=
  t.root.id :: t.children.ids

/-- Replace the chain of children of the resource `p`, if `g` gives a new one. -/
def update (t : Tree) (p : Id) (g : Res → Forest → Option Forest) : Option Tree :=
  if t.root.id = p then
    (g t.root t.children).map fun children => { t with children }
  else
    (t.children.update p g).map fun children => { t with children }

/-- The tree and the return value: `errno` where there is no new tree. -/
def answer (t : Tree) (errno : Int) : Option Tree → Tree × Int
  | some t' => (t', 0)
  | none => (t, errno)

/-- The result of a function that is about a child of another resource: the one of its back
pointer. -/
def updateParent (t : Tree) (res : Res) (g : Res → Forest → Option Forest) : Option Tree :=
  res.parent.bind fun p => t.update p g

end Tree

/-- The calls. -/
inductive Call where
  | request (parent new : Id) (start stop : UInt32)
  | release (old : Id)
  | insert (parent new : Id) (start stop : UInt32)
  | insertExpandToFit (parent new : Id) (start stop : UInt32)
  | adjust (res : Id) (start size : UInt32)
  | allocate (parent new : Id) (request : Request)

/-- `EBUSY` -/
def ebusy : Int := 16

/-- `EINVAL` -/
def einval : Int := 22

/-- A call that registers `new` below `parent` names a registered resource and a new
one. -/
def Tree.placeable (t : Tree) (parent new : Id) : Bool :=
  t.ids.contains parent && !t.ids.contains new

/-- The tree and the return value after a call; `none` for a call that is not made:
on a resource that is not registered, of a new resource that is, or a release of a resource
with children. -/
def Tree.exec (t : Tree) : Call → Option (Tree × Int)
  | .request parent new start stop =>
    if t.placeable parent new then
      some (t.answer (-ebusy) (t.update parent fun root children =>
        (requestResource root children ⟨new, start, stop, none⟩).toOption))
    else none
  | .release old =>
    match t.children.find old with
    | some (res, .nil) =>
      some (t.answer (-einval) (t.updateParent res fun _ children => children.release old))
    | _ => none
  | .insert parent new start stop =>
    if t.placeable parent new then
      some (t.answer (-ebusy) (t.update parent fun root children =>
        (insertResource root children ⟨new, start, stop, none⟩).toOption))
    else none
  | .insertExpandToFit parent new start stop =>
    if t.children.ids.contains new then
      some (t, 0)
    else if t.placeable parent new then
      (t.update parent fun root children =>
        expandToFit root children (children.nodes.length + 1) ⟨new, start, stop, none⟩).map
          fun t' => (t', 0)
    else none
  | .adjust id start size =>
    match t.children.find id with
    | some (res, _) =>
      some (t.answer (-ebusy) (t.updateParent res fun parent children =>
        children.adjust parent id start (start + size - 1) none))
    | none => none
  | .allocate parent new q =>
    if t.placeable parent new then
      some (t.answer (-ebusy) (t.update parent fun root children =>
        allocateResource q root children new))
    else none

/-- Calls under one root with any range. -/
def system : TransitionSystem Tree Call where
  init t := t.root.parent = none ∧ t.children = .nil
  step t call t' := ∃ code, t.exec call = some (t', code)

end LteModemKernel.Resource
