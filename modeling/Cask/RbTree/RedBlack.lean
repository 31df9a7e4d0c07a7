import Cask.RbTree.Insert
import Cask.RbTree.Delete

/-! # The red-black invariant over whole runs

`RedBlack` states the invariant on the pointers: what is linked, which parents and children
agree, the colours and the number of black nodes on the way down, and the order of the
payloads.  `Run` are the states reached from `rbtree_init` by insertions of unlinked nodes
and deletions of linked ones; between the calls the caller may do anything to memory that is
not linked.  The proof carries the tree that the pointers spell out.
-/

namespace Cask.RbTree

open ColorTree Fuel

variable {α π : Type}

/-! ## Statements about pointers -/

/-- The nodes reached from the root along child pointers. -/
inductive Linked (st : St α π) : α → Prop where
  | root {a : α} (top : st.root = .node a) : Linked st a
  | child {a b : α} {d : Dir} {n : Rbnode α} (above : Linked st a) (found : st.node a = some n)
      (edge : n.child d = .node b) : Linked st b

/-- A way down from a pointer to the sentinel, with its numbers of nodes and of black nodes. -/
inductive Descent (st : St α π) : Ptr α → Nat → Nat → Prop where
  | leaf : Descent st .rbnil 0 0
  | step {a : α} {d : Dir} {n : Rbnode α} {nodes blacks : Nat} (found : st.node a = some n)
      (rest : Descent st (n.child d) nodes blacks) :
      Descent st (.node a) (nodes + 1) (if n.color = .black then blacks + 1 else blacks)

/-- The addresses below a pointer, in order. -/
inductive InOrder (st : St α π) : Ptr α → List α → Prop where
  | leaf : InOrder st .rbnil []
  | node {a : α} {n : Rbnode α} {lower upper : List α} (found : st.node a = some n)
      (left : InOrder st n.left lower) (right : InOrder st n.right upper) : InOrder st (.node a) (lower ++ a :: upper)

structure RedBlack (cmp : π → π → Int) (st : St α π) : Prop where
  rootBlack : st.color st.root = .ok .black
  rootParent : st.parent st.root = .ok .null
  childAgrees : ∀ a, Linked st a → ∃ n, st.node a = some n ∧
    ∀ d, n.child d = .rbnil ∨ ∃ b m, n.child d = .node b ∧ st.node b = some m ∧ m.parent = .node a
  parentAgrees : ∀ a n, Linked st a → st.node a = some n → (n.parent = .null ∧ st.root = .node a) ∨
    ∃ b m d, n.parent = .node b ∧ Linked st b ∧ st.node b = some m ∧ m.child d = .node a
  redAboveBlack : ∀ a n d, Linked st a → st.node a = some n → n.color = .red →
    st.color (n.child d) = .ok .black
  blackHeight : ∃ height, ∀ nodes blacks, Descent st st.root nodes blacks → blacks = height
  ordered : ∃ addrs, InOrder st st.root addrs ∧ addrs.Nodup ∧ (∀ a, a ∈ addrs ↔ Linked st a) ∧
    Sorted cmp st.payload addrs ∧
    ∀ nodes blacks, Descent st st.root nodes blacks → nodes ≤ 2 * Nat.log 2 (addrs.length + 1)
  sentinelBlack : st.sentinel.color = .black
  sentinelLeft : st.sentinel.left = .rbnil
  sentinelRight : st.sentinel.right = .rbnil

/-! ## What the represented tree says about the pointers -/

section Pointers

variable {st : St α π} {t : Bintree α} {par : Ptr α}

theorem Rep.inOrder (rep : Rep st.node par t) : InOrder st (ptr t) t.labels := by
  induction t generalizing par with
  | nil => exact .leaf
  | node c l a r ihl ihr => exact .node rep.1 (ihl rep.2.1) (ihr rep.2.2)

theorem Rep.descent {n nodes blacks : Nat} (rep : Rep st.node par t) (bal : BlackBalanced t n)
    (down : Descent st (ptr t) nodes blacks) : blacks = n ∧ nodes ≤ t.height := by
  induction bal generalizing par nodes blacks with
  | nil =>
    cases down
    exact ⟨rfl, Nat.le_refl _⟩
  | @black l r a n _ _ ihl ihr =>
    cases down with
    | @step _ d _ nodes blacks found rest =>
      -- the node on the way down is the root of the tree
      cases rep.1.symm.trans found
      cases d with
      | left =>
        have := ihl rep.2.1 rest
        simp only [Bintree.height, if_true]
        omega
      | right =>
        have := ihr rep.2.2 rest
        simp only [Bintree.height, if_true]
        omega
  | @red l r a n _ _ _ _ ihl ihr =>
    cases down with
    | @step _ d _ nodes blacks found rest =>
      cases rep.1.symm.trans found
      cases d with
      | left =>
        have := ihl rep.2.1 rest
        simp only [Bintree.height, reduceCtorEq, if_false]
        omega
      | right =>
        have := ihr rep.2.2 rest
        simp only [Bintree.height, reduceCtorEq, if_false]
        omega

theorem Rep.linked (rep : Rep st.node par t) (top : ∀ a, ptr t = .node a → Linked st a) {a : α}
    (member : a ∈ t.labels) : Linked st a := by
  induction t generalizing par with
  | nil => cases member
  | node c l b r ihl ihr =>
    have here : Linked st b := top b rfl
    simp only [Bintree.labels, List.mem_append, List.mem_cons] at member
    rcases member with inLeft | rfl | inRight
    · exact ihl rep.2.1 (fun e edge => .child (d := .left) here rep.1 edge) inLeft
    · exact here
    · exact ihr rep.2.2 (fun e edge => .child (d := .right) here rep.1 edge) inRight

/-- A linked node is the root of a subtree. -/
theorem Focus.of_linked (focus : Focus st [] t) {a : α} (linked : Linked st a) :
    ∃ p c l r, t = plug p (.node c l a r) ∧ Focus st p (.node c l a r) := by
  have member : a ∈ t.labels := by
    induction linked with
    | root top => exact ptr_eq_node (focus.root.symm.trans top)
    | @child b e d n _ found edge ih =>
      obtain ⟨p, c, l, r, rfl⟩ := exists_plug ih
      have atB := focus_plug.mpr focus
      cases atB.tree.1.symm.trans found
      rw [plug_labels]
      cases d with
      | left =>
        have below : e ∈ l.labels := ptr_eq_node edge
        simp [Bintree.labels, below]
      | right =>
        have below : e ∈ r.labels := ptr_eq_node edge
        simp [Bintree.labels, below]
  obtain ⟨p, c, l, r, rfl⟩ := exists_plug member
  exact ⟨p, c, l, r, rfl, focus_plug.mpr focus⟩

theorem Focus.linked_iff (focus : Focus st [] t) (a : α) : Linked st a ↔ a ∈ t.labels := by
  constructor
  · intro linked
    obtain ⟨p, c, l, r, rfl, _⟩ := focus.of_linked linked
    simp [plug_labels, Bintree.labels]
  · intro member
    exact focus.tree.linked (fun b top => .root (focus.root.trans top)) member

end Pointers

/-! ## The invariant -/

/-- The tree that the pointers of a state spell out, and what holds of it. -/
structure Inv (cmp : π → π → Int) (st : St α π) (t : Bintree α) : Prop where
  focus : Focus st [] t
  black : t.color = .black
  balanced : ∃ m, BlackBalanced t m
  sorted : Sorted cmp st.payload t.labels
  empty : t = .nil → st.sentinel.parent = .null
  sentinelBlack : st.sentinel.color = .black
  sentinelLeft : st.sentinel.left = .rbnil
  sentinelRight : st.sentinel.right = .rbnil

theorem Inv.redBlack {cmp : π → π → Int} {st : St α π} {t : Bintree α} (inv : Inv cmp st t) :
    RedBlack cmp st := by
  obtain ⟨focus, black, ⟨m, bal⟩, sorted, empty, sentinelBlack, sentinelLeft, sentinelRight⟩ := inv
  have atRoot : st.root = ptr t := focus.root
  refine ⟨?_, ?_, ?_, ?_, ?_, ⟨m, ?_⟩,
    ⟨t.labels, ?_, focus.nodup, fun a => (focus.linked_iff a).symm, sorted, ?_⟩,
    sentinelBlack, sentinelLeft, sentinelRight⟩
  · rw [atRoot, color_ptr focus.tree sentinelBlack, black]
  · rw [atRoot, parent_ptr focus empty]
    rfl
  · intro a linked
    obtain ⟨p, c, l, r, -, here⟩ := focus.of_linked linked
    refine ⟨_, here.tree.1, fun d => ?_⟩
    -- a child is the sentinel, or a node that points back
    have child : ∀ {s : Bintree α}, Rep st.node (.node a) s →
        ptr s = .rbnil ∨ ∃ b m, ptr s = .node b ∧ st.node b = some m ∧ m.parent = .node a := by
      intro s rep
      cases s with
      | nil => exact .inl rfl
      | node c l b r => exact .inr ⟨b, _, rfl, rep.1, rfl⟩
    cases d with
    | left => exact child here.tree.2.1
    | right => exact child here.tree.2.2
  · intro a n linked found
    obtain ⟨p, c, l, r, rfl, here⟩ := focus.of_linked linked
    cases here.tree.1.symm.trans found
    cases p with
    | nil => exact .inl ⟨rfl, here.root⟩
    | cons f p =>
      -- the frame on top of the path is the parent
      refine .inr ⟨f.label, _, f.dir, rfl, ?_, here.path.1, ofDir_child ..⟩
      rw [focus.linked_iff]
      simp [plug, plug_labels, Frame.fill, Bintree.mem_labels_branch]
  · intro a n d linked found red
    obtain ⟨p, c, l, r, rfl, here⟩ := focus.of_linked linked
    cases here.tree.1.symm.trans found
    obtain rfl : c = .red := red
    obtain ⟨k, inner, _⟩ := bal.unplug black
    obtain ⟨_, _, leftBlack, rightBlack⟩ := BlackBalanced.of_red (d := .left) inner
    cases d with
    | left => exact (color_ptr here.tree.2.1 sentinelBlack).trans (by rw [leftBlack])
    | right => exact (color_ptr here.tree.2.2 sentinelBlack).trans (by rw [rightBlack])
  · intro nodes blacks down
    exact (focus.tree.descent bal (atRoot ▸ down)).1
  · rw [atRoot]
    exact focus.tree.inOrder
  · intro nodes blacks down
    exact (focus.tree.descent bal (atRoot ▸ down)).2.trans (bal.height_le_log black)

/-! ## Steps of a run -/

section Steps

variable {cmp : π → π → Int} {st st' : St α π} {t : Bintree α}

/-- The caller has changed nothing that is linked. -/
structure SameLinks (st st' : St α π) : Prop where
  root : st'.root = st.root
  sentinel : st'.sentinel = st.sentinel
  node : ∀ a, Linked st a → st'.node a = st.node a
  payload : ∀ a, Linked st a → st'.payload a = st.payload a

theorem Sorted.congr {payload payload' : α → π} {addrs : List α} (sorted : Sorted cmp payload addrs)
    (same : ∀ a ∈ addrs, payload' a = payload a) : Sorted cmp payload' addrs := by
  refine List.Pairwise.imp_of_mem (fun {a b} ha hb le => ?_) sorted
  rw [same a ha, same b hb]
  exact le

theorem Inv.sameLinks (inv : Inv cmp st t) (same : SameLinks st st') : Inv cmp st' t := by
  have linked : ∀ a ∈ t.labels, Linked st a := fun a member => (inv.focus.linked_iff a).mpr member
  refine ⟨⟨trivial, inv.focus.tree.congr fun a member => same.node a (linked a member), same.root.trans inv.focus.root,
    inv.focus.nodup⟩, inv.black, inv.balanced, inv.sorted.congr fun a member => same.payload a (linked a member), ?_, ?_,
    ?_, ?_⟩
  · rw [same.sentinel]
    exact inv.empty
  · rw [same.sentinel, inv.sentinelBlack]
  · rw [same.sentinel, inv.sentinelLeft]
  · rw [same.sentinel, inv.sentinelRight]

/-- Nothing but the order depends on the payloads. -/
theorem Inv.repayload {cmp' : π → π → Int} (inv : Inv cmp st t) (payload : α → π)
    (sorted : Sorted cmp' payload t.labels) : Inv cmp' { st with payload := payload } t :=
  ⟨⟨inv.focus.path, inv.focus.tree, inv.focus.root, inv.focus.nodup⟩, inv.black, inv.balanced, sorted,
    inv.empty, inv.sentinelBlack, inv.sentinelLeft, inv.sentinelRight⟩

theorem inv_init (node : α → Option (Rbnode α)) (payload : α → π) :
    Inv cmp (rbtreeInit node payload) .nil :=
  ⟨⟨trivial, trivial, rfl, List.nodup_nil⟩, rfl, ⟨0, .nil⟩, .nil, fun _ => rfl, rfl, rfl, rfl⟩

variable [DecidableEq α]

theorem Inv.insert (order : TotalPreorder cmp) (inv : Inv cmp st t) {x : α} {n : Rbnode α}
    (allocated : st.node x = some n) (fresh : x ∉ t.labels) :
    ∃ st' t' lower upper, Returns (rbtreeInsert cmp · st x) st' ∧ Inv cmp st' t' ∧
      t.labels = lower ++ upper ∧
      t'.labels = lower ++ x :: upper ∧
      (∀ b ∈ lower, ¬ cmp (st.payload x) (st.payload b) ≤ 0) ∧
      (∀ b ∈ upper, cmp (st.payload x) (st.payload b) ≤ 0) ∧ Keeps t'.labels st st' := by
  obtain ⟨st', t', lower, upper, ended, focus, black, balanced, split, labels, below, above, keeps⟩ :=
    rbtreeInsert_focus order inv.focus inv.black inv.balanced inv.sorted inv.sentinelBlack allocated fresh
  refine ⟨st', t', lower, upper, ended, ⟨focus, black, balanced, ?_, ?_, ?_, ?_, ?_⟩, split,
    labels, below, above, keeps⟩
  · have sorted := inv.sorted
    rw [split, Sorted, List.pairwise_append] at sorted
    rw [labels, keeps.payload, Sorted, List.pairwise_append, List.pairwise_cons]
    refine ⟨sorted.1, ⟨above, sorted.2.1⟩, fun a inLower b member => ?_⟩
    rcases List.mem_cons.mp member with rfl | inUpper
    · exact (order.total _ _).resolve_right (below a inLower)
    · exact sorted.2.2 a inLower b inUpper
  · rintro rfl
    simp [Bintree.labels] at labels
  · rw [keeps.sentinel, inv.sentinelBlack]
  · rw [keeps.sentinel, inv.sentinelLeft]
  · rw [keeps.sentinel, inv.sentinelRight]

/-- A payload that is written at `z` is read at no other address of a sequence without repetitions. -/
theorem update_around {payload : α → π} {lower upper : List α} {y z : α}
    (nodup : (lower ++ z :: y :: upper).Nodup) (value : π) :
    ∀ a ∈ lower ++ upper, Function.update payload z value a = payload a := by
  intro a within
  refine Function.update_of_ne ?_ ..
  rintro rfl
  simp only [List.nodup_append, List.nodup_cons, List.mem_append, List.mem_cons] at nodup within
  grind

theorem Inv.delete (inv : Inv cmp st t) {z : α} (member : z ∈ t.labels) :
    ∃ st' t' lower upper n, Returns (rbtreeDelete · st z) st' ∧ Inv cmp st' t' ∧
      (∀ a, a ∉ t'.labels → st'.node a = st.node a) ∧ st.node z = some n ∧
      if n.left = .rbnil ∨ n.right = .rbnil then
        t.labels = lower ++ z :: upper ∧ t'.labels = lower ++ upper ∧ st'.payload = st.payload
      else
        ∃ y, t.labels = lower ++ z :: y :: upper ∧ t'.labels = lower ++ z :: upper ∧
          st'.payload = Function.update st.payload z (st.payload y) := by
  obtain ⟨st', t', lower, upper, n, ended, unlinked, found, cases⟩ :=
    rbtreeDelete_focus inv.focus inv.black inv.balanced inv.sentinelBlack member
  obtain ⟨q, sentinel⟩ := unlinked.sentinel
  refine ⟨st', t', lower, upper, n, ended,
    ⟨unlinked.focus, unlinked.black, unlinked.balanced, ?_, unlinked.empty, ?_, ?_,
    ?_⟩, unlinked.frame, found, cases⟩
  · have sorted := inv.sorted
    split at cases
    · obtain ⟨before, after, payload⟩ := cases
      rw [before] at sorted
      rw [after, payload]
      exact List.Pairwise.sublist ((List.Sublist.refl _).append (List.sublist_cons_self ..)) sorted
    · -- the payloads are those of the old tree without the one of `z`
      obtain ⟨y, before, after, payload⟩ := cases
      have nodup := inv.focus.nodup
      rw [plug, before] at nodup
      rw [before, Sorted, List.pairwise_append, List.pairwise_cons, List.pairwise_cons] at sorted
      obtain ⟨low, ⟨_, fromY, high⟩, across⟩ := sorted
      have others : ∀ a ∈ lower ++ upper, Function.update st.payload z (st.payload y) a = st.payload a :=
        update_around nodup _
      rw [after, payload, Sorted, List.pairwise_append, List.pairwise_cons]
      refine ⟨Sorted.congr low fun a within => others a (by simp [within]),
        ⟨fun b within => ?_, Sorted.congr high fun a within => others a (by simp [within])⟩,
        fun a inLower b within => ?_⟩
      · rw [Function.update_self, others b (by simp [within])]
        exact fromY b within
      · rw [others a (by simp [inLower])]
        rcases List.mem_cons.mp within with rfl | inUpper
        · rw [Function.update_self]
          exact across a inLower y (by simp)
        · rw [others b (by simp [inUpper])]
          exact across a inLower b (by simp [inUpper])
  · rw [sentinel, inv.sentinelBlack]
  · rw [sentinel, inv.sentinelLeft]
  · rw [sentinel, inv.sentinelRight]

end Steps

/-! ## Runs -/

section Runs

variable [DecidableEq α] {cmp : π → π → Int} {st : St α π}

/-- The states of a program that inserts unlinked nodes and deletes linked ones. -/
inductive Run (cmp : π → π → Int) : St α π → Prop where
  | init (node : α → Option (Rbnode α)) (payload : α → π) : Run cmp (rbtreeInit node payload)
  | caller {st st' : St α π} (run : Run cmp st) (same : SameLinks st st') : Run cmp st'
  | insert {st st' : St α π} {x : α} {n : Rbnode α} (run : Run cmp st) (allocated : st.node x = some n)
      (unlinked : ¬ Linked st x) (ended : Returns (rbtreeInsert cmp · st x) st') : Run cmp st'
  | delete {st st' : St α π} {z : α} (run : Run cmp st) (linked : Linked st z)
      (ended : Returns (rbtreeDelete · st z) st') : Run cmp st'

theorem Run.inv (order : TotalPreorder cmp) (run : Run cmp st) : ∃ t, Inv cmp st t := by
  induction run with
  | init node payload => exact ⟨.nil, inv_init node payload⟩
  | caller _ same ih =>
    obtain ⟨t, inv⟩ := ih
    exact ⟨t, inv.sameLinks same⟩
  | insert _ allocated unlinked ended ih =>
    obtain ⟨t, inv⟩ := ih
    obtain ⟨_, t', _, _, ended', inv', _⟩ :=
      inv.insert order allocated (mt (inv.focus.linked_iff _).mpr unlinked)
    exact ⟨t', ended.unique ended' ▸ inv'⟩
  | delete _ linked ended ih =>
    obtain ⟨t, inv⟩ := ih
    obtain ⟨_, t', _, _, _, ended', inv', _⟩ := inv.delete ((inv.focus.linked_iff _).mp linked)
    exact ⟨t', ended.unique ended' ▸ inv'⟩

/-- Every state of a run is red-black, and from every state of a run each insertion of an unlinked
node and each deletion of a linked one ends, without a fault, in a red-black state. -/
theorem run_redBlack (order : TotalPreorder cmp) (run : Run cmp st) :
    RedBlack cmp st ∧
      (∀ x n, st.node x = some n → ¬ Linked st x →
        ∃ st', Returns (rbtreeInsert cmp · st x) st' ∧ RedBlack cmp st') ∧
      ∀ z, Linked st z → ∃ st', Returns (rbtreeDelete · st z) st' ∧ RedBlack cmp st' := by
  obtain ⟨t, inv⟩ := run.inv order
  refine ⟨inv.redBlack, fun x n allocated unlinked => ?_, fun z linked => ?_⟩
  · obtain ⟨st', t', _, _, ended, inv', _⟩ :=
      inv.insert order allocated (mt (inv.focus.linked_iff x).mpr unlinked)
    exact ⟨st', ended, inv'.redBlack⟩
  · obtain ⟨st', t', _, _, _, ended, inv', _⟩ := inv.delete ((inv.focus.linked_iff z).mp linked)
    exact ⟨st', ended, inv'.redBlack⟩

/-- An empty tree of integers; the node at each address has never been linked. -/
def blank : St Nat Int := rbtreeInit (fun _ => some ⟨.black, .null, .null, .null⟩) fun a => a

theorem blank_unlinked (a : Nat) : ¬ Linked blank a := by
  intro linked
  induction linked with
  | root top => cases top
  | child _ _ _ ih => exact ih

/-- `blank` after the insertion of the node 2. -/
def single : St Nat Int := (rbtreeInsert (fun a b => a - b) 9 blank 2).toOption.getD blank

theorem single_linked {a : Nat} (linked : Linked single a) : a = 2 := by
  induction linked with
  | @root a top =>
    have same : Ptr.node 2 = Ptr.node a := top
    cases same
    rfl
  | @child a b d n _ found edge ih =>
    subst ih
    have same : some (⟨.black, .rbnil, .rbnil, .null⟩ : Rbnode Nat) = some n := found
    cases same
    cases d <;> cases edge

/-- The integers 2 and 1 are inserted and 2 is deleted again. -/
theorem run_redBlack_ints : ∃ st : St Nat Int, st.root = .node 1 ∧ Run (fun a b => a - b) st ∧
    RedBlack (fun a b => a - b) st := by
  have order : TotalPreorder fun a b : Int => a - b := ⟨fun a b => by omega, fun a b c => by omega⟩
  have start : Run (fun a b => a - b) blank := .init _ _
  have first : Run (fun a b => a - b) single :=
    .insert start rfl (blank_unlinked 2) (.of_add 9 fun _ => rfl)
  have second : Run (fun a b => a - b) ((rbtreeInsert (fun a b => a - b) 9 single 1).toOption.getD blank) := by
    refine .insert (x := 1) first rfl ?_ (.of_add 9 fun _ => rfl)
    intro linked
    exact absurd (single_linked linked) (by decide)
  have third : Run (fun a b => a - b)
      ((rbtreeDelete 9 ((rbtreeInsert (fun a b => a - b) 9 single 1).toOption.getD blank) 2).toOption.getD blank) :=
    .delete (z := 2) second (.root rfl) (.of_add 9 fun _ => rfl)
  exact ⟨_, rfl, third, (run_redBlack order third).1⟩

end Runs

end Cask.RbTree
