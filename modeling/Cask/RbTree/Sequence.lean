import Cask.RbTree.RedBlack

/-! # The tree as a sorted sequence

A red-black state determines the tree that its pointers spell out, so the facts about that
tree hold of every valid state and not only of the states of a run.  Read in order, the
payloads are a sorted sequence: `rbtree_insert` puts the new payload in front of the first
one that is not strictly below it, and `rbtree_delete` takes out exactly the payload at the
position of the deleted node, also when it is the successor's node that is unlinked.
-/

namespace Cask.RbTree

open ColorTree Fuel

variable {α π : Type} {st : St α π} {cmp : π → π → Int}

/-! ## The tree of a valid state -/

section Tree

variable {p par : Ptr α} {t : Bintree α} {addrs addrs' : List α}

theorem InOrder.unique (first : InOrder st p addrs) (second : InOrder st p addrs') :
    addrs = addrs' := by
  induction first generalizing addrs' with
  | leaf =>
    cases second
    rfl
  | node found _ _ ihl ihr =>
    cases second with
    | node found' left right =>
      cases found.symm.trans found'
      rw [ihl left, ihr right]

/-- Child pointers that agree with the parent pointers spell out a tree. -/
theorem InOrder.exists_rep (walk : InOrder st p addrs)
    (agrees : ∀ a ∈ addrs, ∃ n, st.node a = some n ∧ ∀ d, n.child d = .rbnil ∨
      ∃ b m, n.child d = .node b ∧ st.node b = some m ∧ m.parent = .node a)
    (top : ∀ a n, p = .node a → st.node a = some n → n.parent = par) :
    ∃ t, ptr t = p ∧ t.labels = addrs ∧ Rep st.node par t := by
  induction walk generalizing par with
  | leaf => exact ⟨.nil, rfl, rfl, trivial⟩
  | @node a n lower upper found _ _ ihl ihr =>
    obtain ⟨n', found', children⟩ := agrees a (by simp)
    cases found.symm.trans found'
    -- a child of `a` has `a` as its parent
    have below : ∀ d b m, n.child d = .node b → st.node b = some m → m.parent = .node a := by
      intro d b m edge atB
      obtain isNil | ⟨b', m', edge', atB', parent⟩ := children d
      · rw [isNil] at edge
        cases edge
      · cases edge.symm.trans edge'
        cases atB.symm.trans atB'
        exact parent
    obtain ⟨l, ptrL, labelsL, repL⟩ :=
      ihl (fun b member => agrees b (by simp [member])) (below .left)
    obtain ⟨r, ptrR, labelsR, repR⟩ :=
      ihr (fun b member => agrees b (by simp [member])) (below .right)
    have parent : n.parent = par := top a n rfl found
    refine ⟨.node n.color l a r, rfl, ?_, ?_, repL, repR⟩
    · rw [Bintree.labels, labelsL, labelsR]
    · rw [found, ptrL, ptrR, ← parent]

/-- Every represented tree has a way down to the sentinel. -/
theorem Rep.exists_descent (rep : Rep st.node par t) :
    ∃ nodes blacks, Descent st (ptr t) nodes blacks := by
  induction t generalizing par with
  | nil => exact ⟨0, 0, .leaf⟩
  | node c l a r ihl _ =>
    obtain ⟨nodes, blacks, down⟩ := ihl rep.2.1
    exact ⟨_, _, .step (d := .left) rep.1 down⟩

/-- The balance, from the colours and the number of black nodes on every way down. -/
theorem Rep.balanced {height : Nat} (rep : Rep st.node par t)
    (sentinel : st.sentinel.color = .black)
    (blackHeight : ∀ nodes blacks, Descent st (ptr t) nodes blacks → blacks = height)
    (redAboveBlack : ∀ a ∈ t.labels, ∀ n d, st.node a = some n → n.color = .red →
      st.color (n.child d) = .ok .black) :
    BlackBalanced t height := by
  induction t generalizing par height with
  | nil =>
    obtain rfl : 0 = height := blackHeight 0 0 .leaf
    exact .nil
  | node c l a r ihl ihr =>
    obtain ⟨here, repL, repR⟩ := rep
    have redLeft := fun b (member : b ∈ l.labels) =>
      redAboveBlack b (by simp [Bintree.labels, member])
    have redRight := fun b (member : b ∈ r.labels) =>
      redAboveBlack b (by simp [Bintree.labels, member])
    cases c with
    | black =>
      -- every way down goes through this black node
      obtain ⟨nodes, blacks, down⟩ := repL.exists_descent
      obtain rfl : blacks + 1 = height := blackHeight _ _ (.step (d := .left) here down)
      refine .black (ihl repL (fun _ _ way => ?_) redLeft) (ihr repR (fun _ _ way => ?_) redRight)
      · exact Nat.succ_injective (blackHeight _ _ (.step (d := .left) here way))
      · exact Nat.succ_injective (blackHeight _ _ (.step (d := .right) here way))
    | red =>
      have children := fun d => redAboveBlack a (by simp [Bintree.labels]) _ d here rfl
      have colorL := (color_ptr repL sentinel).symm.trans (children .left)
      have colorR := (color_ptr repR sentinel).symm.trans (children .right)
      refine .red (ihl repL (fun _ _ way => ?_) redLeft) (ihr repR (fun _ _ way => ?_) redRight)
        (Except.ok.inj colorL) (Except.ok.inj colorR)
      · exact blackHeight _ _ (.step (d := .left) here way)
      · exact blackHeight _ _ (.step (d := .right) here way)

/-- A red-black state is the state of a tree. -/
theorem RedBlack.inv (valid : RedBlack cmp st) (walk : InOrder st st.root addrs) :
    ∃ t, Inv cmp st t ∧ t.labels = addrs := by
  obtain ⟨addrs', walk', nodup, linked, sorted, -⟩ := valid.ordered
  obtain rfl := walk.unique walk'
  obtain ⟨height, blackHeight⟩ := valid.blackHeight
  have top : ∀ a n, st.root = .node a → st.node a = some n → n.parent = .null := by
    intro a n atRoot found
    have parent := valid.rootParent
    rw [atRoot, parent_node found] at parent
    exact Except.ok.inj parent
  obtain ⟨t, atRoot, rfl, rep⟩ :=
    walk.exists_rep (fun a member => valid.childAgrees a ((linked a).mp member)) top
  have balanced : BlackBalanced t height := by
    refine rep.balanced valid.sentinelBlack (by rwa [atRoot]) fun a member n d => ?_
    exact valid.redAboveBlack a n d ((linked a).mp member)
  have black : t.color = .black := by
    have color := valid.rootBlack
    rw [← atRoot, color_ptr rep valid.sentinelBlack] at color
    exact Except.ok.inj color
  refine ⟨t, ⟨⟨trivial, rep, atRoot.symm, nodup⟩, black, ⟨height, balanced⟩, sorted, ?_,
    valid.sentinelBlack, valid.sentinelLeft, valid.sentinelRight⟩, rfl⟩
  rintro rfl
  have parent := valid.rootParent
  rw [← atRoot] at parent
  exact Except.ok.inj parent

theorem Inv.inOrder (inv : Inv cmp st t) : InOrder st st.root t.labels := by
  have atRoot : st.root = ptr t := inv.focus.root
  rw [atRoot]
  exact inv.focus.tree.inOrder

end Tree

/-! ## The operations on the sequence -/

/-- `y` is strictly below `x`. -/
def Below (cmp : π → π → Int) (x y : π) : Prop := cmp y x ≤ 0 ∧ ¬ cmp x y ≤ 0

instance (x y : π) : Decidable (Below cmp x y) := inferInstanceAs (Decidable (_ ∧ _))

theorem below_iff (order : TotalPreorder cmp) {x y : π} : Below cmp x y ↔ ¬ cmp x y ≤ 0 :=
  ⟨And.right, fun above => ⟨(order.total y x).resolve_right above, above⟩⟩

/-- A sequence split at the place of `x` is the part below `x` and the part that is not. -/
theorem filter_below (order : TotalPreorder cmp) {x : π} {lower upper : List π}
    (below : ∀ y ∈ lower, ¬ cmp x y ≤ 0) (above : ∀ y ∈ upper, cmp x y ≤ 0) :
    (lower ++ upper).filter (Below cmp x ·) = lower ∧
      (lower ++ upper).filter (¬ Below cmp x ·) = upper := by
  simp only [List.filter_append]
  have keepsLower : lower.filter (Below cmp x ·) = lower := by
    simpa [List.filter_eq_self, below_iff order] using below
  have dropsUpper : upper.filter (Below cmp x ·) = [] := by
    simpa [List.filter_eq_nil_iff, below_iff order] using above
  have dropsLower : lower.filter (¬ Below cmp x ·) = [] := by
    simpa [List.filter_eq_nil_iff, below_iff order] using below
  have keepsUpper : upper.filter (¬ Below cmp x ·) = upper := by
    simpa [List.filter_eq_self, below_iff order] using above
  rw [keepsLower, dropsUpper, dropsLower, keepsUpper]
  exact ⟨List.append_nil _, List.nil_append _⟩

section Operations

variable [DecidableEq α] {t : Bintree α}

theorem Inv.insert_sequence (order : TotalPreorder cmp) (inv : Inv cmp st t) {x : α} {n : Rbnode α}
    (allocated : st.node x = some n) (fresh : x ∉ t.labels) :
    ∃ st' t', Returns (rbtreeInsert cmp · st x) st' ∧ Inv cmp st' t' ∧
      t'.labels.map st'.payload =
        (t.labels.map st.payload).filter (Below cmp (st.payload x) ·) ++ st.payload x ::
          (t.labels.map st.payload).filter (¬ Below cmp (st.payload x) ·) := by
  obtain ⟨st', t', lower, upper, ended, inv', split, labels, below, above, keeps⟩ :=
    inv.insert order allocated fresh
  have parts : t.labels.map st.payload = lower.map st.payload ++ upper.map st.payload := by
    rw [split, List.map_append]
  have isBelow : ∀ y ∈ lower.map st.payload, ¬ cmp (st.payload x) y ≤ 0 := by simpa using below
  have isAbove : ∀ y ∈ upper.map st.payload, cmp (st.payload x) y ≤ 0 := by simpa using above
  obtain ⟨isLower, isUpper⟩ := filter_below order isBelow isAbove
  refine ⟨st', t', ended, inv', ?_⟩
  rw [parts, isLower, isUpper, labels, keeps.payload, List.map_append, List.map_cons]

/-- The payload at the position of `z` goes, whichever node is unlinked. -/
theorem Inv.delete_sequence (inv : Inv cmp st t) {i : Nat} {z : α} (atI : t.labels[i]? = some z) :
    ∃ st' t', Returns (rbtreeDelete · st z) st' ∧ Inv cmp st' t' ∧
      t'.labels.map st'.payload = (t.labels.map st.payload).eraseIdx i := by
  obtain ⟨st', t', lower, upper, n, ended, inv', -, -, outcome⟩ :=
    inv.delete (List.mem_of_getElem? atI)
  have nodup : t.labels.Nodup := inv.focus.nodup
  -- the addresses differ, so the position of `z` is the length of what precedes it
  have position : ∀ rest, t.labels = lower ++ z :: rest → i = lower.length := by
    intro rest parts
    have early : i < t.labels.length := (List.getElem?_eq_some_iff.mp atI).1
    refine (List.getElem?_inj early nodup).mp ?_
    rw [atI, parts]
    simp
  refine ⟨st', t', ended, inv', ?_⟩
  split at outcome
  · obtain ⟨before, after, payload⟩ := outcome
    rw [after, payload, position upper before, before, List.map_append, List.map_append,
      List.map_cons, List.eraseIdx_append_of_length_le (by simp), List.length_map, Nat.sub_self,
      List.eraseIdx_cons_zero]
  · -- the successor's payload now stands at `z`
    obtain ⟨y, before, after, payload⟩ := outcome
    have others : ∀ a ∈ lower ++ upper, st'.payload a = st.payload a := by
      rw [before] at nodup
      rw [payload]
      exact update_around nodup _
    have lowerSame : lower.map st'.payload = lower.map st.payload :=
      List.map_congr_left fun a member => others a (List.mem_append_left _ member)
    have upperSame : upper.map st'.payload = upper.map st.payload :=
      List.map_congr_left fun a member => others a (List.mem_append_right _ member)
    have moved : st'.payload z = st.payload y := by rw [payload, Function.update_self]
    rw [after, List.map_append, List.map_cons, lowerSame, upperSame, moved,
      position (y :: upper) before, before, List.map_append,
      List.eraseIdx_append_of_length_le (by simp), List.length_map, Nat.sub_self, List.map_cons,
      List.map_cons, List.eraseIdx_cons_zero]

/-- The operations on a valid tree are operations on its sorted sequence of payloads.  An unlinked
node `x` goes between the payloads strictly below its own and the others; the deletion of the
`i`-th node takes out the `i`-th payload and no other. -/
theorem operations_on_sequence {addrs : List α} (order : TotalPreorder cmp)
    (valid : RedBlack cmp st) (walk : InOrder st st.root addrs) :
    (∀ x n, st.node x = some n → ¬ Linked st x →
      ∃ st' addrs', Returns (rbtreeInsert cmp · st x) st' ∧ RedBlack cmp st' ∧
        InOrder st' st'.root addrs' ∧
        addrs'.map st'.payload =
          (addrs.map st.payload).filter (Below cmp (st.payload x) ·) ++ st.payload x ::
            (addrs.map st.payload).filter (¬ Below cmp (st.payload x) ·)) ∧
      ∀ i z, addrs[i]? = some z →
        ∃ st' addrs', Returns (rbtreeDelete · st z) st' ∧ RedBlack cmp st' ∧
          InOrder st' st'.root addrs' ∧
          addrs'.map st'.payload = (addrs.map st.payload).eraseIdx i := by
  obtain ⟨t, inv, rfl⟩ := valid.inv walk
  constructor
  · intro x n allocated unlinked
    obtain ⟨st', t', ended, inv', sequence⟩ :=
      inv.insert_sequence order allocated (mt (inv.focus.linked_iff x).mpr unlinked)
    exact ⟨st', t'.labels, ended, inv'.redBlack, inv'.inOrder, sequence⟩
  · intro i z atI
    obtain ⟨st', t', ended, inv', sequence⟩ := inv.delete_sequence atI
    exact ⟨st', t'.labels, ended, inv'.redBlack, inv'.inOrder, sequence⟩

/-- `single` after the insertion of the nodes 1 and 3, which become the children of the node 2. -/
def triple : St Nat Int :=
  (rbtreeInsert (fun a b => a - b) 9 ((rbtreeInsert (fun a b => a - b) 9 single 1).toOption.getD single)
    3).toOption.getD single

/-- The insertion of an unlinked node into a valid tree of integers. -/
theorem insert_ints {st st' : St Nat Int} {addrs : List Nat} {x : Nat} {n : Rbnode Nat}
    (valid : RedBlack (fun a b => a - b) st) (walk : InOrder st st.root addrs)
    (allocated : st.node x = some n) (fresh : x ∉ addrs)
    (ended : Returns (rbtreeInsert (fun a b => a - b) · st x) st') :
    RedBlack (fun a b => a - b) st' := by
  have order : TotalPreorder fun a b : Int => a - b := ⟨fun a b => by omega, fun a b c => by omega⟩
  obtain ⟨t, inv, rfl⟩ := valid.inv walk
  obtain ⟨st₁, t₁, ended₁, inv₁, -⟩ := inv.insert_sequence order allocated fresh
  rw [ended.unique ended₁]
  exact inv₁.redBlack

/-- The node 2 is deleted while it has two children: its payload goes, the others keep their order. -/
theorem operations_on_sequence_triple :
    RedBlack (fun a b => a - b) triple ∧ InOrder triple triple.root [1, 2, 3] ∧
      triple.node 2 = some ⟨.black, .node 1, .node 3, .null⟩ ∧
      ∃ st' addrs', Returns (rbtreeDelete · triple 2) st' ∧ InOrder st' st'.root addrs' ∧
        addrs'.map st'.payload = [1, 3] := by
  have order : TotalPreorder fun a b : Int => a - b := ⟨fun a b => by omega, fun a b c => by omega⟩
  have empty : RedBlack (fun a b => a - b) blank := (inv_init _ _).redBlack
  have first : RedBlack (fun a b => a - b) single :=
    insert_ints empty .leaf (x := 2) rfl (by simp) (.of_add 9 fun _ => rfl)
  have walk₁ : InOrder single single.root [2] := .node (n := ⟨.black, .rbnil, .rbnil, .null⟩) rfl .leaf .leaf
  have second : RedBlack (fun a b => a - b) ((rbtreeInsert (fun a b => a - b) 9 single 1).toOption.getD single) :=
    insert_ints first walk₁ (x := 1) rfl (by simp) (.of_add 9 fun _ => rfl)
  have walk₂ : InOrder ((rbtreeInsert (fun a b => a - b) 9 single 1).toOption.getD single) (.node 2) [1, 2] :=
    .node (n := ⟨.black, .node 1, .rbnil, .null⟩) rfl
      (.node (n := ⟨.red, .rbnil, .rbnil, .node 2⟩) rfl .leaf .leaf) .leaf
  have valid : RedBlack (fun a b => a - b) triple :=
    insert_ints second walk₂ (x := 3) rfl (by simp) (.of_add 9 fun _ => rfl)
  have walk : InOrder triple triple.root [1, 2, 3] :=
    .node (n := ⟨.black, .node 1, .node 3, .null⟩) rfl
      (.node (n := ⟨.red, .rbnil, .rbnil, .node 2⟩) rfl .leaf .leaf)
      (.node (n := ⟨.red, .rbnil, .rbnil, .node 2⟩) rfl .leaf .leaf)
  obtain ⟨st', addrs', ended, -, walk', sequence⟩ :=
    (operations_on_sequence order valid walk).2 1 2 rfl
  exact ⟨valid, walk, rfl, st', addrs', ended, walk', sequence⟩

end Operations

end Cask.RbTree
