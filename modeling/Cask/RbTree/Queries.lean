import Cask.RbTree.Sequence

/-! # Queries

`rbtree_leftmost` and `rbtree_rightmost` are the same walk along the children of one side, so
they are one definition with the side as a parameter.  They find the first and the last node
of the sequence, and `rbtree_upper_bound` the first one that is strictly above a probe.  None
of them reads a parent pointer or a colour, so the sequence that the child pointers spell out
is all that these results need.
-/

namespace Cask.RbTree

open ColorTree Fuel

variable {α π : Type} [DecidableEq α] {st : St α π}

/-- One iteration of the walk to the outermost node; the state is `(x, next)`. -/
def outermostStep (d : Dir) (st : St α π) :
    Ptr α × Ptr α → Except Fault (Next (Ptr α × Ptr α) (Ptr α))
  | (x, next) => do
    if next ≠ .rbnil then return .again (next, ← st.child d next)
    else return .done x

/-- The walk of `rbtree_leftmost` and `rbtree_rightmost`. -/
def outermost (d : Dir) (fuel : Nat) (st : St α π) (x : Ptr α) : Except Fault (Ptr α) :=
  if x = .rbnil then .ok .null
  else loop .fuel (outermostStep d st) fuel (x, x)

def rbtreeLeftmost (fuel : Nat) (st : St α π) (x : Ptr α) : Except Fault (Ptr α) :=
  outermost .left fuel st x

def rbtreeRightmost (fuel : Nat) (st : St α π) (x : Ptr α) : Except Fault (Ptr α) :=
  outermost .right fuel st x

/-- One iteration of the descent of `rbtree_upper_bound`; the state is `(best, cur)`. -/
def upperBoundStep (cmp : π → π → Int) (st : St α π) (x : α) :
    Ptr α × Ptr α → Except Fault (Next (Ptr α × Ptr α) (Ptr α))
  | (best, cur) =>
    match cur with
    | .rbnil => .ok (.done best)
    | .null => .error .nullDeref
    | .node a => do
      if cmp (st.payload a) (st.payload x) > 0 then return .again (cur, ← st.child .left cur)
      else return .again (best, ← st.child .right cur)

/-- `rbtree_upper_bound(t, x)`.  The probe `x` need not be linked. -/
def rbtreeUpperBound (cmp : π → π → Int) (fuel : Nat) (st : St α π) (x : α) :
    Except Fault (Ptr α) :=
  loop .fuel (upperBoundStep cmp st x) fuel (.null, st.root)

/-! ## The ends of the sequence -/

/-- The first or the last element of a list. -/
def atEnd : Dir → List α → Option α
  | .left, addrs => addrs.head?
  | .right, addrs => addrs.getLast?

section Ends

variable {p : Ptr α} {addrs : List α}

theorem outermost_loop (d : Dir) (walk : InOrder st p addrs) (x : Ptr α) :
    Returns (loop .fuel (outermostStep d st) · (x, p)) ((atEnd d addrs).elim x .node) := by
  induction walk generalizing x with
  | leaf =>
    have empty : atEnd d ([] : List α) = none := by cases d <;> rfl
    rw [empty]
    exact .loop_done rfl
  | @node a n lower upper found _ _ ihl ihr =>
    -- the walk goes on from the child of the same side, with `a` as its answer so far
    have step : outermostStep d st (x, .node a) = .ok (.again (.node a, n.child d)) := by
      rw [outermostStep, if_pos (by simp), child_node found, ok_bind, pure_ok]
    refine .loop_again step ?_
    cases d with
    | left =>
      have first : (atEnd .left (lower ++ a :: upper)).elim x Ptr.node =
          (atEnd .left lower).elim (.node a) .node := by
        cases lower <;> simp [atEnd]
      rw [first]
      exact ihl (.node a)
    | right =>
      have last : (atEnd .right (lower ++ a :: upper)).elim x Ptr.node =
          (atEnd .right upper).elim (.node a) .node := by
        cases found : upper.getLast? <;> simp [atEnd, List.getLast?_cons, found]
      rw [last]
      exact ihr (.node a)

/-- The walk ends at the outermost node of the tree, and gives `NULL` for an empty one. -/
theorem outermost_returns (d : Dir) (walk : InOrder st p addrs) :
    Returns (outermost d · st p) ((atEnd d addrs).elim .null .node) := by
  cases walk with
  | leaf =>
    have empty : atEnd d ([] : List α) = none := by cases d <;> rfl
    rw [empty]
    exact .const _
  | @node a n lower upper found left right =>
    have nonempty : atEnd d (lower ++ a :: upper) ≠ none := by cases d <;> simp [atEnd]
    obtain ⟨b, last⟩ := Option.ne_none_iff_exists'.mp nonempty
    have ended := outermost_loop d (.node found left right) (.node a)
    rw [last] at ended ⊢
    exact ended

end Ends

/-! ## The upper bound -/

section UpperBound

variable {cmp : π → π → Int} {p : Ptr α} {addrs : List α}

/-- The first address whose payload is strictly above the one of `x`. -/
def firstAbove (cmp : π → π → Int) (payload : α → π) (x : α) (addrs : List α) : Option α :=
  addrs.find? fun a => Below cmp (payload a) (payload x)

omit [DecidableEq α] in
theorem firstAbove_node_above {payload : α → π} {x a : α} (lower upper : List α)
    (above : Below cmp (payload a) (payload x)) (best : Ptr α) :
    (firstAbove cmp payload x (lower ++ a :: upper)).elim best .node =
      (firstAbove cmp payload x lower).elim (.node a) .node := by
  rw [firstAbove, List.find?_append, List.find?_cons_of_pos (by simpa using above)]
  change ((firstAbove cmp payload x lower).or (some a)).elim best .node = _
  cases firstAbove cmp payload x lower <;> rfl

omit [DecidableEq α] in
/-- What precedes a node that is not above the probe is not above it either. -/
theorem firstAbove_node_not_above {payload : α → π} {x a : α} {lower upper : List α}
    (order : TotalPreorder cmp) (sorted : Sorted cmp payload (lower ++ a :: upper))
    (notAbove : cmp (payload a) (payload x) ≤ 0) :
    firstAbove cmp payload x (lower ++ a :: upper) = firstAbove cmp payload x upper := by
  rw [Sorted, List.pairwise_append] at sorted
  have lowerNot : firstAbove cmp payload x lower = none := by
    simp only [firstAbove, List.find?_eq_none, decide_eq_true_eq, below_iff order, not_not]
    intro b member
    exact order.trans _ _ _ (sorted.2.2 b member a (by simp)) notAbove
  have hereNot : ¬ Below cmp (payload a) (payload x) := by simp [below_iff order, notAbove]
  rw [firstAbove] at lowerNot
  simp [firstAbove, List.find?_append, lowerNot, hereNot]

omit [DecidableEq α] in
theorem upperBound_loop {x : α} (order : TotalPreorder cmp) (walk : InOrder st p addrs)
    (sorted : Sorted cmp st.payload addrs) (best : Ptr α) :
    Returns (loop .fuel (upperBoundStep cmp st x) · (best, p))
      ((firstAbove cmp st.payload x addrs).elim best .node) := by
  induction walk generalizing best with
  | leaf => exact .loop_done rfl
  | @node a n lower upper found _ _ ihl ihr =>
    have parts := sorted
    rw [Sorted, List.pairwise_append, List.pairwise_cons] at parts
    by_cases notAbove : cmp (st.payload a) (st.payload x) ≤ 0
    · -- equal keys go to the right here, whichever side of each other they are on
      have step : upperBoundStep cmp st x (best, .node a) = .ok (.again (best, n.right)) := by
        simp only [upperBoundStep]
        rw [if_neg (by omega), child_node found, ok_bind, pure_ok]
        rfl
      rw [firstAbove_node_not_above order sorted notAbove]
      exact .loop_again step (ihr parts.2.1.2 best)
    · have step : upperBoundStep cmp st x (best, .node a) = .ok (.again (.node a, n.left)) := by
        simp only [upperBoundStep]
        rw [if_pos (by omega), child_node found, ok_bind, pure_ok]
        rfl
      rw [firstAbove_node_above _ _ ((below_iff order).mpr notAbove)]
      exact .loop_again step (ihl parts.1 (.node a))

end UpperBound

/-! ## The queries on the tree of a state -/

section Tree

variable {cmp : π → π → Int} {addrs : List α}

omit [DecidableEq α] in
/-- A query that returns the node of an optional address returns `NULL` exactly without one. -/
theorem returns_null_iff {run : Nat → Except Fault (Ptr α)} {found : Option α}
    (ended : Returns run (found.elim .null .node)) : Returns run .null ↔ found = none := by
  cases found with
  | none => simpa using ended
  | some a =>
    simp only [reduceCtorEq, iff_false]
    intro null
    cases null.unique ended

/-- The queries on a search tree agree with the sequence of its nodes, for every probe. -/
theorem queries_agree (order : TotalPreorder cmp) (walk : InOrder st st.root addrs)
    (sorted : Sorted cmp st.payload addrs) :
    Returns (rbtreeLeftmost · st st.root) (addrs.head?.elim .null .node) ∧
      Returns (rbtreeRightmost · st st.root) (addrs.getLast?.elim .null .node) ∧
      (Returns (rbtreeLeftmost · st st.root) .null ↔ addrs = []) ∧
      (Returns (rbtreeRightmost · st st.root) .null ↔ addrs = []) ∧
      ∀ x, Returns (rbtreeUpperBound cmp · st x)
          ((addrs.find? fun a => Below cmp (st.payload a) (st.payload x)).elim .null .node) ∧
        (Returns (rbtreeUpperBound cmp · st x) .null ↔
          ∀ a ∈ addrs, ¬ Below cmp (st.payload a) (st.payload x)) := by
  have first : Returns (rbtreeLeftmost · st st.root) (addrs.head?.elim .null .node) :=
    outermost_returns .left walk
  have last : Returns (rbtreeRightmost · st st.root) (addrs.getLast?.elim .null .node) :=
    outermost_returns .right walk
  refine ⟨first, last, ?_, ?_, fun x => ?_⟩
  · rw [returns_null_iff first, List.head?_eq_none_iff]
  · rw [returns_null_iff last, List.getLast?_eq_none_iff]
  · have above : Returns (rbtreeUpperBound cmp · st x)
        ((firstAbove cmp st.payload x addrs).elim .null .node) :=
      upperBound_loop order walk sorted .null
    refine ⟨above, ?_⟩
    rw [returns_null_iff above]
    simp [firstAbove]

/-- Three equal payloads, one at the root and one on either side of it, and a larger one. -/
def twins : St Nat Int where
  root := .node 2
  sentinel := ⟨.black, .rbnil, .rbnil, .null⟩
  node := fun a =>
    match a with
    | 1 => some ⟨.black, .rbnil, .rbnil, .node 2⟩
    | 2 => some ⟨.black, .node 1, .node 3, .null⟩
    | 3 => some ⟨.black, .rbnil, .node 4, .node 2⟩
    | 4 => some ⟨.red, .rbnil, .rbnil, .node 3⟩
    | _ => none
  payload := fun a => if a = 4 then 7 else 5

theorem queries_agree_twins :
    InOrder twins twins.root [1, 2, 3, 4] ∧
      Returns (rbtreeLeftmost · twins twins.root) (.node 1) ∧
      Returns (rbtreeRightmost · twins twins.root) (.node 4) ∧
      Returns (rbtreeUpperBound (fun a b => a - b) · twins 9) (.node 4) ∧
      Returns (rbtreeUpperBound (fun a b => a - b) · twins 4) .null := by
  have order : TotalPreorder fun a b : Int => a - b := ⟨fun a b => by omega, fun a b c => by omega⟩
  have walk : InOrder twins twins.root [1, 2, 3, 4] :=
    .node (n := ⟨.black, .node 1, .node 3, .null⟩) rfl
      (.node (n := ⟨.black, .rbnil, .rbnil, .node 2⟩) rfl .leaf .leaf)
      (.node (n := ⟨.black, .rbnil, .node 4, .node 2⟩) rfl .leaf
        (.node (n := ⟨.red, .rbnil, .rbnil, .node 3⟩) rfl .leaf .leaf))
  have sorted : Sorted (fun a b => a - b) twins.payload [1, 2, 3, 4] := by
    simp [Sorted, twins]
  obtain ⟨first, last, -, -, above⟩ := queries_agree order walk sorted
  exact ⟨walk, first, last, (above 9).1, (above 4).1⟩

end Tree

section Root

variable {cmp : π → π → Int} {t : Bintree α}

theorem Inv.leftmost (inv : Inv cmp st t) :
    Returns (rbtreeLeftmost · st st.root) (t.labels.head?.elim .null .node) :=
  outermost_returns .left inv.inOrder

end Root

omit [DecidableEq α] in
/-- The first element of a list without repetitions has nothing in front of it. -/
theorem front_nil {a : α} {front back rest : List α} (nodup : (front ++ a :: back).Nodup)
    (first : front ++ a :: back = a :: rest) : front = [] ∧ back = rest := by
  cases front with
  | nil => exact ⟨rfl, (List.cons.inj first).2⟩
  | cons b front =>
    obtain rfl : b = a := (List.cons.inj first).1
    simp at nodup

omit [DecidableEq α] in
/-- The first node of the sequence has no left child. -/
theorem Inv.leftmost_left {cmp : π → π → Int} {t : Bintree α} {a : α} {rest : List α} {n : Rbnode α}
    (inv : Inv cmp st t) (first : t.labels = a :: rest) (found : st.node a = some n) :
    n.left = .rbnil := by
  obtain ⟨p, c, l, r, rfl⟩ := exists_plug (show a ∈ t.labels by rw [first]; exact List.mem_cons_self)
  have atA := focus_plug.mpr inv.focus
  cases atA.tree.1.symm.trans found
  rw [ptr_eq_rbnil]
  have parts : (plug p (.node c l a r)).labels = (before p ++ l.labels) ++ a :: (r.labels ++ after p) := by
    simp [plug_labels, Bintree.labels]
  have nodup : (plug p (.node c l a r)).labels.Nodup := inv.focus.nodup
  rw [parts] at first nodup
  have none : before p ++ l.labels = [] := (front_nil nodup first).1
  cases l with
  | nil => rfl
  | node _ _ _ _ => simp [Bintree.labels] at none

end Cask.RbTree
