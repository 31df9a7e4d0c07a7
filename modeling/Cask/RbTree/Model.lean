import Cask.Lib.ColorTree
import Cask.Lib.Fuel

/-! # The intrusive red-black tree

`rbtree.c` on an explicit heap.  A node is a `struct rbnode` embedded at the start of a
larger object; the rest of the object is its payload, which `rbtree_delete` copies from
one node to another.  `RBNIL` is one static sentinel node whose parent field is written
during deletion, and the parent of the root is `NULL`, not the sentinel.

Following `NULL` or a node whose object is not allocated stops the program.  Both
rotations, and the two branches of each fix-up loop, are mirror images in the source; each
pair is one definition with the side as a parameter.
-/

namespace Cask.RbTree

open ColorTree Fuel

variable {α π : Type} [DecidableEq α]

/-! ## Pointers and nodes -/

/-- `struct rbnode *`. -/
inductive Ptr (α : Type) where
  | null
  | rbnil
  | node (addr : α)
  deriving DecidableEq, Repr

/-- `struct rbnode`. -/
structure Rbnode (α : Type) where
  color : Color
  left : Ptr α
  right : Ptr α
  parent : Ptr α
  deriving DecidableEq, Repr

def Rbnode.child (n : Rbnode α) : Dir → Ptr α
  | .left => n.left
  | .right => n.right

def Rbnode.setChild (n : Rbnode α) (d : Dir) (p : Ptr α) : Rbnode α :=
  match d with
  | .left => { n with left := p }
  | .right => { n with right := p }

inductive Fault where
  | nullDeref
  | notAllocated
  | fuel
  deriving DecidableEq, Repr

/-- The tree and the memory it lives in: `t->root`, the sentinel, the nodes by address
(`none` where no object is allocated) and the payload that follows each node. -/
structure St (α π : Type) where
  root : Ptr α
  sentinel : Rbnode α
  node : α → Option (Rbnode α)
  payload : α → π

namespace St

def read (st : St α π) : Ptr α → Except Fault (Rbnode α)
  | .null => .error .nullDeref
  | .rbnil => .ok st.sentinel
  | .node a =>
    match st.node a with
    | none => .error .notAllocated
    | some n => .ok n

def write (st : St α π) (p : Ptr α) (n : Rbnode α) : St α π :=
  match p with
  | .null => st
  | .rbnil => { st with sentinel := n }
  | .node a => { st with node := Function.update st.node a (some n) }

def color (st : St α π) (p : Ptr α) : Except Fault Color := do
  return (← st.read p).color

def child (st : St α π) (d : Dir) (p : Ptr α) : Except Fault (Ptr α) := do
  return (← st.read p).child d

def parent (st : St α π) (p : Ptr α) : Except Fault (Ptr α) := do
  return (← st.read p).parent

def setColor (st : St α π) (p : Ptr α) (c : Color) : Except Fault (St α π) := do
  return st.write p { ← st.read p with color := c }

def setChild (st : St α π) (d : Dir) (p q : Ptr α) : Except Fault (St α π) := do
  return st.write p ((← st.read p).setChild d q)

def setParent (st : St α π) (p q : Ptr α) : Except Fault (St α π) := do
  return st.write p { ← st.read p with parent := q }

end St

/-- `if (x->parent) { ... } else { t->root = y; }`: let `y` take the place of `x`.  The child
compared first is the one on side `d`. -/
def replaceChild (d : Dir) (st : St α π) (x y : Ptr α) : Except Fault (St α π) := do
  let p ← st.parent x
  if p ≠ .null then
    if x = (← st.child d p) then st.setChild d p y else st.setChild d.other p y
  else return { st with root := y }

/-! ## Rotations -/

/-- `if (x != RBNIL) x->parent = p;` -/
def setParentUnlessNil (st : St α π) (x p : Ptr α) : Except Fault (St α π) :=
  if x ≠ .rbnil then st.setParent x p else .ok st

/-- The test order is the one of `rotate_left` for `d = left` and of `rotate_right` for `right`. -/
def rotate (d : Dir) (st : St α π) (x : Ptr α) : Except Fault (St α π) := do
  let y ← st.child d.other x
  -- the inner subtree of `y` changes sides
  let inner ← st.child d y
  let st ← st.setChild d.other x inner
  let st ← setParentUnlessNil st inner x
  -- `y` moves up, and `x` below it
  let st ← setParentUnlessNil st y (← st.parent x)
  let st ← replaceChild d st x y
  let st ← st.setChild d y x
  setParentUnlessNil st x y

def rotateLeft (st : St α π) (x : Ptr α) : Except Fault (St α π) := rotate .left st x

def rotateRight (st : St α π) (x : Ptr α) : Except Fault (St α π) := rotate .right st x

/-- `rotate_left` or `rotate_right`, by the side the node moves to. -/
def rotateTo (d : Dir) (st : St α π) (x : Ptr α) : Except Fault (St α π) :=
  match d with
  | .left => rotateLeft st x
  | .right => rotateRight st x

/-! ## Insertion -/

/-- The end of `insert_fixup`'s loop body when the uncle is black. -/
def insertFixupRotate (d : Dir) (st : St α π) (x : Ptr α) : Except Fault (Ptr α × St α π) := do
  let p ← st.parent x
  let st ← st.setColor p .black
  let g ← st.parent p
  let st ← st.setColor g .red
  let st ← rotateTo d.other st g
  return (x, st)

/-- The body of `insert_fixup`'s loop for a parent that is the child `d` of the grandparent. -/
def insertFixupBranch (d : Dir) (st : St α π) (x p g : Ptr α) : Except Fault (Ptr α × St α π) := do
  let y ← st.child d.other g
  if (← st.color y) = .red then
    -- red uncle: recolour and go on from the grandparent
    let st ← st.setColor p .black
    let st ← st.setColor y .black
    let st ← st.setColor g .red
    return (g, st)
  else if x = (← st.child d.other p) then
    -- inner child: turn it outwards first, which makes the old parent `x`
    let st ← rotateTo d st p
    insertFixupRotate d st p
  else insertFixupRotate d st x

def insertFixupStep : Ptr α × St α π → Except Fault (Next (Ptr α × St α π) (St α π))
  | (x, st) => do
    -- `while (x != t->root && x->parent->color == RBRED)`
    if x = st.root then return .done st
    let p ← st.parent x
    if (← st.color p) ≠ .red then return .done st
    let g ← st.parent p
    let d := if p = (← st.child .left g) then Dir.left else Dir.right
    return .again (← insertFixupBranch d st x p g)

def insertFixup (fuel : Nat) (st : St α π) (x : Ptr α) : Except Fault (St α π) := do
  let st ← loop .fuel insertFixupStep fuel (x, st)
  st.setColor st.root .black

/-- One step of the descent of `rbtree_insert`; the state is `(cur, parent, cmp)`. -/
def descendStep (cmp : π → π → Int) (st : St α π) (x : α) :
    Ptr α × Ptr α × Int → Except Fault (Next (Ptr α × Ptr α × Int) (Ptr α × Int))
  | (cur, parent, last) =>
    match cur with
    | .rbnil => .ok (.done (parent, last))
    | .null => .error .nullDeref
    | .node a => do
      let order := cmp (st.payload x) (st.payload a)
      -- equal keys go to the left
      let next ← st.child (if order ≤ 0 then .left else .right) cur
      return .again (next, cur, order)

/-- `if (parent) { parent->left/right = x; } else { t->root = x; }` -/
def linkChild (st : St α π) (parent : Ptr α) (order : Int) (x : Ptr α) : Except Fault (St α π) :=
  if parent ≠ .null then st.setChild (if order ≤ 0 then .left else .right) parent x
  else .ok { st with root := x }

/-- Initialise the new node `x` and hang it below `parent`. -/
def linkNode (st : St α π) (x : α) (parent : Ptr α) (order : Int) : Except Fault (St α π) := do
  let st ← st.setColor (.node x) .red
  let st ← st.setChild .right (.node x) .rbnil
  let st ← st.setChild .left (.node x) .rbnil
  let st ← st.setParent (.node x) parent
  linkChild st parent order (.node x)

/-- `rbtree_insert(t, x)`. -/
def rbtreeInsert (cmp : π → π → Int) (fuel : Nat) (st : St α π) (x : α) : Except Fault (St α π) :=
  do
  let (parent, order) ← loop .fuel (descendStep cmp st x) fuel (st.root, .null, 0)
  let st ← linkNode st x parent order
  insertFixup fuel st (.node x)

/-! ## Deletion -/

/-- `delete_fixup` with a red sibling `w`: the new sibling is black. -/
def deleteFixupRed (d : Dir) (st : St α π) (x w : Ptr α) : Except Fault (Ptr α × St α π) := do
  let st ← st.setColor w .black
  let st ← st.setColor (← st.parent x) .red
  let st ← rotateTo d st (← st.parent x)
  return (← st.child d.other (← st.parent x), st)

/-- `delete_fixup` with a red child of `w` on the near side only: move it to the far side. -/
def deleteFixupNear (d : Dir) (st : St α π) (x w : Ptr α) : Except Fault (Ptr α × St α π) := do
  let st ← st.setColor (← st.child d w) .black
  let st ← st.setColor w .red
  let st ← rotateTo d.other st w
  return (← st.child d.other (← st.parent x), st)

/-- `delete_fixup` with a red child of `w` on the far side: the loop ends at the root. -/
def deleteFixupFar (d : Dir) (st : St α π) (x w : Ptr α) : Except Fault (Ptr α × St α π) := do
  let st ← st.setColor w (← st.color (← st.parent x))
  let st ← st.setColor (← st.parent x) .black
  let st ← st.setColor (← st.child d.other w) .black
  let st ← rotateTo d st (← st.parent x)
  return (st.root, st)

/-- The part of `delete_fixup`'s loop body that starts with a black sibling `w`. -/
def deleteFixupBlack (d : Dir) (st : St α π) (x w : Ptr α) : Except Fault (Ptr α × St α π) := do
  let near ← st.color (← st.child d w)
  let far ← st.color (← st.child d.other w)
  if near = .black ∧ far = .black then
    -- no red child: the missing black moves up to the parent
    let st ← st.setColor w .red
    return (← st.parent x, st)
  else if far = .black then
    let (w, st) ← deleteFixupNear d st x w
    deleteFixupFar d st x w
  else deleteFixupFar d st x w

/-- The body of `delete_fixup`'s loop for `x` the child `d` of its parent. -/
def deleteFixupBranch (d : Dir) (st : St α π) (x : Ptr α) : Except Fault (Ptr α × St α π) := do
  let w ← st.child d.other (← st.parent x)
  if (← st.color w) = .red then
    let (w, st) ← deleteFixupRed d st x w
    deleteFixupBlack d st x w
  else deleteFixupBlack d st x w

def deleteFixupStep : Ptr α × St α π → Except Fault (Next (Ptr α × St α π) (Ptr α × St α π))
  | (x, st) => do
    -- `while (x != t->root && x->color == RBBLK)`
    if x = st.root then return .done (x, st)
    if (← st.color x) ≠ .black then return .done (x, st)
    let d := if x = (← st.child .left (← st.parent x)) then Dir.left else Dir.right
    return .again (← deleteFixupBranch d st x)

def deleteFixup (fuel : Nat) (st : St α π) (x : Ptr α) : Except Fault (St α π) := do
  let (x, st) ← loop .fuel deleteFixupStep fuel (x, st)
  st.setColor x .black

/-- `while (y->left != RBNIL) y = y->left;` -/
def leftmostStep (st : St α π) (y : Ptr α) : Except Fault (Next (Ptr α) (Ptr α)) := do
  let l ← st.child .left y
  if l ≠ .rbnil then return .again l else return .done y

/-- The node that is unlinked when `z` is deleted: `z` itself or its successor. -/
def spliceNode (fuel : Nat) (st : St α π) (z : Ptr α) : Except Fault (Ptr α) := do
  if (← st.child .left z) = .rbnil then return z
  if (← st.child .right z) = .rbnil then return z
  loop .fuel (leftmostStep st) fuel (← st.child .right z)

/-- `x`, the only child of `y` if it has one, takes the place of `y`. -/
def unlinkNode (st : St α π) (y : Ptr α) : Except Fault (Ptr α × St α π) := do
  let left ← st.child .left y
  let right ← st.child .right y
  let x := if left ≠ .rbnil then left else right
  -- written without a test: `x` may be the sentinel, and `delete_fixup` starts from it
  let st ← st.setParent x (← st.parent y)
  let st ← replaceChild .left st y x
  return (x, st)

/-- `if (y != z) memcpy(z+1, y+1, t->nodesz-sizeof(struct rbnode));` -/
def copyPayload (st : St α π) (z : α) (y : Ptr α) : Except Fault (St α π) :=
  if y = .node z then .ok st
  else
    match y with
    | .node y => .ok { st with payload := Function.update st.payload z (st.payload y) }
    | _ => .error .nullDeref

/-- `rbtree_delete` once the node `y` to unlink is known. -/
def spliceOut (fuel : Nat) (st : St α π) (z : α) (y : Ptr α) : Except Fault (St α π) := do
  let (x, st) ← unlinkNode st y
  let st ← copyPayload st z y
  if (← st.color y) = .black then deleteFixup fuel st x else return st

/-- `rbtree_delete(t, z)`. -/
def rbtreeDelete (fuel : Nat) (st : St α π) (z : α) : Except Fault (St α π) := do
  let y ← spliceNode fuel st (.node z)
  spliceOut fuel st z y

/-- The state after `rbtree_init`, on a memory of unlinked objects. -/
def rbtreeInit (node : α → Option (Rbnode α)) (payload : α → π) : St α π where
  root := .rbnil
  sentinel := ⟨.black, .rbnil, .rbnil, .null⟩
  node := node
  payload := payload

end Cask.RbTree
