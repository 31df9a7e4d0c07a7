import Cask.RbTree.Queries

/-! # How long the loops run

Every loop of the tree goes down or up the tree, so it ends after as many rounds as the tree is high.
A red-black tree of `n` nodes is at most twice the logarithm of `n + 1` high.  The fuel of an
operation bounds the rounds of each of its loops: an operation that does not run out of it has not
gone round more often.
-/

namespace Cask.RbTree

open ColorTree Fuel

variable {α π : Type} [DecidableEq α] {st : St α π} {cmp : π → π → Int}

/-! ## Going down -/

/-- A pointer to a subtree that is at most `bound` high. -/
def Down (st : St α π) (bound : Nat) (cur : Ptr α) : Prop :=
  ∃ par t, cur = ptr t ∧ Rep st.node par t ∧ t.height ≤ bound

omit [DecidableEq α] in
theorem Down.child {bound : Nat} {a : α} (down : Down st bound (.node a)) :
    ∃ n less, st.node a = some n ∧ less < bound ∧ ∀ d, Down st less (n.child d) := by
  obtain ⟨par, t, here, rep, low⟩ := down
  cases t with
  | nil => cases here
  | node c l b r =>
    cases here
    simp only [Bintree.height] at low
    refine ⟨_, max l.height r.height, rep.1, by omega, fun d => ?_⟩
    cases d with
    | left => exact ⟨_, l, rfl, rep.2.1, Nat.le_max_left _ _⟩
    | right => exact ⟨_, r, rfl, rep.2.2, Nat.le_max_right _ _⟩

omit [DecidableEq α] in
theorem Down.not_null {bound : Nat} : ¬ Down st bound .null := by
  rintro ⟨par, t, here, -⟩
  cases t <;> cases here

omit [DecidableEq α] in
/-- The descent of `rbtree_insert`. -/
theorem descend_within {x : α} {cur parent : Ptr α} {last : Int} {bound fuel : Nat} (down : Down st bound cur)
    (enough : bound < fuel) : ∃ found, loop .fuel (descendStep cmp st x) fuel (cur, parent, last) = .ok found := by
  refine loop_within (fun bound cur => Down st bound cur.1) (fun bound state down => ?_) down enough
  obtain ⟨cur, parent, last⟩ := state
  cases cur with
  | null => exact absurd down Down.not_null
  | rbnil => exact .inl ⟨_, rfl⟩
  | node a =>
    obtain ⟨n, less, found, lower, below⟩ := down.child
    generalize side : (if cmp (st.payload x) (st.payload a) ≤ 0 then Dir.left else .right) = d
    refine .inr ⟨(n.child d, .node a, cmp (st.payload x) (st.payload a)), less, ?_, lower, below d⟩
    rw [descendStep]
    simp only [side, child_node found, ok_bind, pure_ok]

/-- The walk of `rbtree_leftmost` and `rbtree_rightmost`. -/
theorem outermost_within {cur : Ptr α} {bound fuel : Nat} (d : Dir) (down : Down st bound cur) (enough : bound < fuel) :
    ∃ found, outermost d fuel st cur = .ok found := by
  rw [outermost]
  split
  · exact ⟨_, rfl⟩
  · refine loop_within (fun bound cur => Down st bound cur.2) (fun bound state down => ?_) down enough
    obtain ⟨x, cur⟩ := state
    cases cur with
    | null => exact absurd down Down.not_null
    | rbnil => exact .inl ⟨_, rfl⟩
    | node a =>
      obtain ⟨n, less, found, lower, below⟩ := down.child
      refine .inr ⟨(.node a, n.child d), less, ?_, lower, below d⟩
      rw [outermostStep, if_pos (by simp), child_node found, ok_bind, pure_ok]

omit [DecidableEq α] in
/-- The descent of `rbtree_upper_bound`. -/
theorem upperBound_within {x : α} {bound fuel : Nat} (down : Down st bound st.root) (enough : bound < fuel) :
    ∃ found, rbtreeUpperBound cmp fuel st x = .ok found := by
  refine loop_within (fun bound cur => Down st bound cur.2) (fun bound state down => ?_) down enough
  obtain ⟨best, cur⟩ := state
  cases cur with
  | null => exact absurd down Down.not_null
  | rbnil => exact .inl ⟨_, rfl⟩
  | node a =>
    obtain ⟨n, less, found, lower, below⟩ := down.child
    rw [upperBoundStep]
    by_cases above : cmp (st.payload a) (st.payload x) > 0
    · refine .inr ⟨(.node a, n.child .left), less, ?_, lower, below .left⟩
      simp only [if_pos above, child_node found, ok_bind, pure_ok]
    · refine .inr ⟨(best, n.child .right), less, ?_, lower, below .right⟩
      simp only [if_neg above, child_node found, ok_bind, pure_ok]

/-- The search of `rbtree_delete` for the successor. -/
theorem leftmost_within {y : Ptr α} {bound fuel : Nat} (down : Down st bound y) (some : y ≠ .rbnil)
    (enough : bound < fuel) : ∃ found, loop .fuel (leftmostStep st) fuel y = .ok found := by
  refine loop_within (fun bound y => Down st bound y ∧ y ≠ .rbnil) (fun bound y down => ?_) ⟨down, some⟩ enough
  obtain ⟨down, some⟩ := down
  cases y with
  | null => exact absurd down Down.not_null
  | rbnil => exact absurd rfl some
  | node a =>
    obtain ⟨n, less, found, lower, below⟩ := down.child
    have step : leftmostStep st (.node a) =
        if n.child .left ≠ .rbnil then .ok (.again (n.child .left)) else .ok (.done (.node a)) := by
      rw [leftmostStep, child_node found, ok_bind]
      rfl
    rw [step]
    by_cases leaf : n.child .left = .rbnil
    · exact .inl ⟨.node a, by rw [if_neg (not_not.mpr leaf)]⟩
    · exact .inr ⟨n.child .left, less, by rw [if_pos leaf], lower, below .left, leaf⟩

/-! ## Going up -/

omit [DecidableEq α] in
theorem length_le_height (p : Context α) (t : Bintree α) : p.length + t.height ≤ (plug p t).height := by
  induction p generalizing t with
  | nil => simp [plug]
  | cons f p ih =>
    have rest := ih (f.fill t)
    have above : t.height + 1 ≤ (f.fill t).height := by
      obtain ⟨d, c, a, sibling⟩ := f
      cases d with
      | left =>
        simp only [Frame.fill, Bintree.branch, Bintree.height]
        omega
      | right =>
        simp only [Frame.fill, Bintree.branch, Bintree.height]
        omega
    simp only [plug, List.length_cons]
    omega

/-- `insert_fixup` is at a red node, or has come to where it stops. -/
def Rising (bound : Nat) (cur : Ptr α × St α π) : Prop :=
  ∃ p t, cur.1 = ptr t ∧ Focus cur.2 p t ∧ t ≠ .nil ∧ cur.2.sentinel.color = .black ∧ p.length ≤ bound ∧
    (¬ RedTop p ∨ ∃ n, t.color = .red ∧ BlackBalanced t n ∧ Fits p n)

theorem Rising.round {bound : Nat} {cur : Ptr α × St α π} (rising : Rising bound cur) :
    (∃ st', insertFixupStep cur = .ok (.done st')) ∨
      ∃ next less, insertFixupStep cur = .ok (.again next) ∧ less < bound ∧ Rising less next := by
  obtain ⟨x, st⟩ := cur
  obtain ⟨p, t, rfl, focus, notNil, sentinel, short, stop | ⟨n, red, bal, fits⟩⟩ := rising
  · exact .inl ⟨st, insertFixupStep_stop focus rfl notNil stop⟩
  cases p with
  | nil => exact .inl ⟨st, insertFixupStep_stop focus rfl notNil (by simp [RedTop])⟩
  | cons frame p =>
    obtain ⟨e, c, f, sibling⟩ := frame
    cases c with
    | black => exact .inl ⟨st, insertFixupStep_stop focus rfl notNil (by simp [RedTop])⟩
    | red =>
      obtain ⟨balSibling, siblingBlack, nonempty, notRed, fits⟩ := fits
      cases p with
      | nil => exact absurd rfl nonempty
      | cons frame q =>
        obtain ⟨d, c, g, uncle⟩ := frame
        cases c with
        | red => exact absurd rfl notRed
        | black =>
          obtain ⟨balUncle, rest⟩ := fits
          simp only [List.length_cons] at short
          have again : ∀ {next}, insertFixupBranch d st (ptr t) (.node f) (.node g) = .ok next →
              insertFixupStep (ptr t, st) = .ok (.again next) := by
            intro next run
            rw [insertFixupStep_red focus notNil, run, ok_bind]
          cases uncleColor : uncle.color with
          | red =>
            -- two frames up
            obtain ⟨st₁, run, change⟩ := insertFixupBranch_recolour focus uncleColor sentinel
            have bal₁ : BlackBalanced (.branch d .red (.branch e .black t f sibling) g uncle.blacken) (n + 1) :=
              balanced_red (balanced_black bal balSibling) (balUncle.blacken_red uncleColor) (by simp) (by simp)
            exact .inr ⟨_, q.length, again run, by omega, q, _, (ptr_branch ..).symm, change.at rfl,
              Bintree.branch_ne_nil, change.sentinel sentinel, Nat.le_refl _, .inr ⟨n + 1, by simp, bal₁, rest⟩⟩
          | black =>
            -- one frame up, below a black node
            obtain ⟨st₁, t₁, f₁, sibling₁, run, change, notNil₁, -⟩ :=
              insertFixupBranch_rotate focus notNil red uncleColor sentinel bal balSibling siblingBlack
            exact .inr ⟨_, q.length + 1, again run, by omega, _, t₁, rfl, change.at rfl, notNil₁,
              change.sentinel sentinel, Nat.le_refl _, .inl (by simp [RedTop])⟩

/-- `delete_fixup` is at a node that lacks a black one, or has come to where it stops. -/
def Lacking (bound : Nat) (cur : Ptr α × St α π) : Prop :=
  ∃ p t, cur.1 = ptr t ∧ Focus cur.2 p t ∧ cur.2.sentinel.color = .black ∧
    ((t.color = .red ∨ p = []) ∨
      ∃ n, Home cur.2 p t ∧ Short t n ∧ Fits p (n + 1) ∧ p.length ≤ bound)

theorem Lacking.round {bound : Nat} {cur : Ptr α × St α π} (lacking : Lacking bound cur) :
    (∃ last, deleteFixupStep cur = .ok (.done last)) ∨
      ∃ next less, deleteFixupStep cur = .ok (.again next) ∧ less < bound ∧ Lacking less next := by
  obtain ⟨x, st⟩ := cur
  obtain ⟨p, t, rfl, focus, sentinel, stop | ⟨n, home, short, fits, low⟩⟩ := lacking
  · exact .inl ⟨_, deleteFixupStep_stop focus sentinel stop⟩
  cases p with
  | nil => exact .inl ⟨_, deleteFixupStep_stop focus sentinel (.inr rfl)⟩
  | cons f q =>
    cases color : t.color with
    | red => exact .inl ⟨_, deleteFixupStep_stop focus sentinel (.inl color)⟩
    | black =>
      have someSibling : f.sibling ≠ .nil := by
        intro leaf
        have empty := fits.1
        rw [leaf] at empty
        cases empty
      have again : ∀ {next}, deleteFixupBranch f.dir st (ptr t) = .ok next →
          deleteFixupStep (ptr t, st) = .ok (.again next) := by
        intro next run
        rw [deleteFixupStep_black focus home sentinel color someSibling, run, ok_bind]
      simp only [List.length_cons] at low
      obtain ⟨st₁, t₁, change, ⟨q', u, k, run, rfl, notNil, short', fits', up⟩ | ⟨run, -⟩⟩ :=
        deleteFixupBranch_focus focus home sentinel (short.1 color) fits
      · refine .inr ⟨_, q.length, again run, by omega, q', u, rfl, change.at rfl, change.sentinel sentinel, ?_⟩
        obtain red | rfl := up
        · exact .inl (.inl red)
        · exact .inr ⟨k, fun leaf => absurd leaf notNil, short', fits', Nat.le_refl _⟩
      · have atRoot : st₁.root = ptr t₁ := change.focus.root
        exact .inr ⟨_, q.length, again run, by omega, [], t₁, atRoot, change.focus, change.sentinel sentinel,
          .inl (.inr rfl)⟩

/-! ## The operations -/

section Operations

variable {t l r : Bintree α} {p : Context α} {c : Color} {x y z : α} {n : Nat}

theorem insertFixup_within (focus : Focus st p t) (notNil : t ≠ .nil) (red : t.color = .red)
    (bal : BlackBalanced t n) (fits : Fits p n) (sentinel : st.sentinel.color = .black) :
    ∃ st', ∀ fuel, p.length < fuel → insertFixup fuel st (ptr t) = .ok st' := by
  obtain ⟨st₁, t₁, ended, change, -⟩ := insertFixup_loop focus notNil red bal fits sentinel
  obtain ⟨st₂, run, -⟩ := blacken_focus change.focus (change.sentinel sentinel)
  refine ⟨st₂, fun fuel enough => ?_⟩
  have rising : Rising p.length (ptr t, st) :=
    ⟨p, t, rfl, focus, notNil, sentinel, Nat.le_refl _, .inr ⟨n, red, bal, fits⟩⟩
  have atRoot : st₁.root = ptr t₁ := change.focus.root
  rw [insertFixup, ended.of_ended (loop_within Rising (fun _ _ => Rising.round) rising enough), ok_bind, atRoot, run]

theorem deleteFixup_within (focus : Focus st p t) (home : Home st p t) (sentinel : st.sentinel.color = .black)
    (short : Short t n) (fits : Fits p (n + 1)) :
    ∃ st', ∀ fuel, p.length < fuel → deleteFixup fuel st (ptr t) = .ok st' := by
  obtain ⟨st₁, p₁, t₁, ended, change, -⟩ := deleteFixup_loop focus home sentinel short fits
  obtain ⟨st₂, run, -⟩ := blacken_focus (change.at rfl) (change.sentinel sentinel)
  refine ⟨st₂, fun fuel enough => ?_⟩
  have lacking : Lacking p.length (ptr t, st) :=
    ⟨p, t, rfl, focus, sentinel, .inr ⟨n, home, short, fits, Nat.le_refl _⟩⟩
  rw [deleteFixup, ended.of_ended (loop_within Lacking (fun _ _ => Lacking.round) lacking enough), ok_bind]
  exact run

theorem Inv.insert_within (order : TotalPreorder cmp) (inv : Inv cmp st t) {node : Rbnode α}
    (allocated : st.node x = some node) (fresh : x ∉ t.labels) :
    ∃ st', ∀ fuel, t.height < fuel → rbtreeInsert cmp fuel st x = .ok st' := by
  have start : Place cmp st.payload x [] 0 := ⟨by simp [before], by simp [after], by simp⟩
  obtain ⟨p, last, found, atLeaf, whole, place⟩ := descend_returns order inv.focus inv.sorted start
  rw [plug] at whole
  obtain ⟨m, bal⟩ := inv.balanced
  obtain ⟨k, leaf, fits, -⟩ := BlackBalanced.unplug (whole ▸ bal) (by rw [whole, inv.black])
  cases leaf with
  | nil =>
    have linked := link_focus atLeaf (whole ▸ fresh)
    obtain ⟨st', fixed⟩ := insertFixup_within linked (by simp) rfl (.red .nil .nil rfl rfl) fits inv.sentinelBlack
    refine ⟨st', fun fuel enough => ?_⟩
    -- the place of the new node is not below the leaves
    have above : p.length ≤ t.height := by
      have bound := length_le_height p .nil
      rw [whole] at bound
      exact bound
    have atRoot : st.root = ptr t := inv.focus.root
    have down : Down st t.height st.root := ⟨.null, t, atRoot, inv.focus.tree, Nat.le_refl _⟩
    have descent : loop .fuel (descendStep cmp st x) fuel (st.root, .null, 0) = .ok (parentOf p, last) := by
      refine Returns.of_ended ?_ (descend_within down enough)
      rw [atRoot]
      exact found
    simp only [rbtreeInsert, descent, ok_bind, linkNode_eq atLeaf (whole ▸ fresh) allocated place]
    exact fixed fuel (by omega)

theorem spliceOut_within (focus : Focus st p (.node c l y r)) (single : l = .nil ∨ r = .nil)
    (sentinel : st.sentinel.color = .black) (root : (plug p (.node c l y r)).color = .black)
    (balanced : ∃ m, BlackBalanced (plug p (.node c l y r)) m) (payload : α → π)
    (copied : ∀ st' : St α π, st'.payload = st.payload →
      copyPayload st' z (.node y) = .ok { st' with payload := payload }) :
    ∃ st', ∀ fuel, p.length < fuel → spliceOut fuel st z (.node y) = .ok st' := by
  obtain ⟨m, bal⟩ := balanced
  obtain ⟨n, inner, fits, -⟩ := BlackBalanced.unplug bal root
  obtain ⟨st₁, run, focus₁, home₁, payload₁, ⟨q, sentinel₁⟩, frame⟩ := unlinkNode_focus focus single
  have yGone : y ∉ (plug p (onlyChild l r)).labels := by
    have nodup := focus.nodup
    rw [plug_labels, Bintree.labels] at nodup
    rw [plug_labels, onlyChild_labels single]
    grind
  have colorY : ({ st₁ with payload := payload } : St α π).color (.node y) = .ok c := by
    have unchanged : st₁.node y = _ := (frame y yGone).trans focus.tree.1
    exact color_node unchanged
  have start : ∀ fuel, spliceOut fuel st z (.node y) =
      if c = .black then deleteFixup fuel { st₁ with payload := payload } (ptr (onlyChild l r))
      else .ok { st₁ with payload := payload } := by
    intro fuel
    rw [spliceOut, run, ok_bind]
    show (copyPayload st₁ z (.node y) >>= _) = _
    rw [copied st₁ payload₁, ok_bind, colorY, ok_bind]
    rfl
  cases c with
  | black =>
    obtain ⟨k, rfl, balLeft, balRight⟩ := BlackBalanced.of_black (d := .left) inner
    have focus₂ : Focus { st₁ with payload := payload } p (onlyChild l r) :=
      ⟨focus₁.path, focus₁.tree, focus₁.root, focus₁.nodup⟩
    have black : st₁.sentinel.color = .black := by
      rw [sentinel₁]
      exact sentinel
    obtain ⟨st', fixed⟩ :=
      deleteFixup_within focus₂ home₁ black (onlyChild_balanced balLeft balRight).short fits
    exact ⟨st', fun fuel enough => by rw [start, if_pos rfl, fixed fuel enough]⟩
  | red => exact ⟨_, fun fuel _ => by rw [start, if_neg (by simp)]⟩

theorem Inv.delete_within (inv : Inv cmp st t) (member : z ∈ t.labels) :
    ∃ st', ∀ fuel, t.height < fuel → rbtreeDelete fuel st z = .ok st' := by
  obtain ⟨p, c, l, r, rfl⟩ := exists_plug member
  have atZ := focus_plug.mpr inv.focus
  have choose : ∀ fuel, spliceNode fuel st (.node z) =
      if ptr l = .rbnil then .ok (.node z)
      else if ptr r = .rbnil then .ok (.node z)
      else loop .fuel (leftmostStep st) fuel (ptr r) := by
    intro fuel
    rw [spliceNode, child_node atZ.tree.1, ok_bind, child_node atZ.tree.1, ok_bind]
    rfl
  have bound := length_le_height p (.node c l z r)
  by_cases single : l = .nil ∨ r = .nil
  · -- `z` itself is unlinked
    obtain ⟨st', spliced⟩ := spliceOut_within (z := z) atZ single inv.sentinelBlack inv.black inv.balanced st.payload
      fun st₁ same => by rw [copyPayload, if_pos rfl, ← same]
    refine ⟨st', fun fuel enough => ?_⟩
    have self : spliceNode fuel st (.node z) = .ok (.node z) := by
      rw [choose]
      obtain rfl | rfl := single
      · rfl
      · simp [ptr]
    rw [rbtreeDelete, self, ok_bind, spliced fuel (by omega)]
  · -- the successor is looked for in the right subtree
    obtain ⟨someLeft, someRight⟩ := not_or.mp single
    obtain ⟨p', c', y, r', ended, atY, whole, left⟩ :=
      leftmost_returns (p := ⟨.right, c, z, l⟩ :: p) (focus_cons.mpr atZ) someRight
    have whole' : plug p' (.node c' .nil y r') = plug p (.node c l z r) := whole
    have differ : y ≠ z := by
      have nodup := atZ.nodup
      rw [← whole', plug_labels, left] at nodup
      simp only [before, Bintree.labels] at nodup
      grind
    obtain ⟨st', spliced⟩ := spliceOut_within (z := z) atY (.inl rfl) inv.sentinelBlack (whole' ▸ inv.black)
      (whole' ▸ inv.balanced) (Function.update st.payload z (st.payload y)) fun st₁ same => by
        rw [copyPayload, if_neg (by simpa using differ), ← same]
    refine ⟨st', fun fuel enough => ?_⟩
    have bound' := length_le_height p' (.node c' .nil y r')
    rw [whole'] at bound'
    simp only [Bintree.height] at bound bound'
    have notNil : ptr r ≠ .rbnil := mt ptr_eq_rbnil.mp someRight
    have down : Down st r.height (ptr r) := ⟨_, r, rfl, atZ.tree.2.2, Nat.le_refl _⟩
    have successor : spliceNode fuel st (.node z) = .ok (.node y) := by
      rw [choose, if_neg (mt ptr_eq_rbnil.mp someLeft), if_neg notNil]
      exact ended.of_ended (leftmost_within down notNil (by omega))
    rw [rbtreeDelete, successor, ok_bind, spliced fuel (by omega)]

/-- From every state of a run, none of the loops of an operation goes round more often than twice the
logarithm of the number of nodes, and once to find the end. -/
theorem operations_logarithmic {addrs : List α} {fuel : Nat} (order : TotalPreorder cmp) (run : Run cmp st)
    (walk : InOrder st st.root addrs) (enough : 2 * Nat.log 2 (addrs.length + 1) + 1 ≤ fuel) :
    (∀ x node, st.node x = some node → ¬ Linked st x →
      ∃ st', rbtreeInsert cmp fuel st x = .ok st' ∧ Run cmp st') ∧
    (∀ z, Linked st z → ∃ st', rbtreeDelete fuel st z = .ok st' ∧ Run cmp st') ∧
    (∃ first, rbtreeLeftmost fuel st st.root = .ok first) ∧ (∃ last, rbtreeRightmost fuel st st.root = .ok last) ∧
    ∀ x, ∃ found, rbtreeUpperBound cmp fuel st x = .ok found := by
  obtain ⟨t, inv⟩ := run.inv order
  obtain ⟨m, bal⟩ := inv.balanced
  have low : t.height < fuel := by
    have bound := bal.height_le_log inv.black
    rw [InOrder.unique inv.inOrder walk] at bound
    omega
  have down : Down st t.height st.root := ⟨.null, t, inv.focus.root, inv.focus.tree, Nat.le_refl _⟩
  refine ⟨fun x node allocated unlinked => ?_, fun z linked => ?_, outermost_within .left down low,
    outermost_within .right down low, fun x => upperBound_within down low⟩
  · obtain ⟨st', ended⟩ := inv.insert_within order allocated (mt (inv.focus.linked_iff x).mpr unlinked)
    exact ⟨st', ended fuel low, .insert run allocated unlinked ⟨_, ended⟩⟩
  · obtain ⟨st', ended⟩ := inv.delete_within ((inv.focus.linked_iff z).mp linked)
    exact ⟨st', ended fuel low, .delete run linked ⟨_, ended⟩⟩

def inserted (st : St Nat Int) (a : Nat) : St Nat Int :=
  (rbtreeInsert (fun a b => a - b) 9 st a).toOption.getD st

/-- The node 2 is at the root, and it has two children. -/
def three : St Nat Int := inserted (inserted single 1) 3

/-- With three nodes in the tree, five rounds are enough. -/
theorem operations_logarithmic_three :
    (∃ st', rbtreeInsert (fun a b => a - b) 5 three 4 = .ok st' ∧ Run (fun a b => a - b) st') ∧
      (∃ st', rbtreeDelete 5 three 2 = .ok st' ∧ Run (fun a b => a - b) st') ∧
      ∃ found, rbtreeUpperBound (fun a b => a - b) 5 three 2 = .ok found := by
  have order : TotalPreorder fun a b : Int => a - b := ⟨fun a b => by omega, fun a b c => by omega⟩
  -- the nodes of a tree are those on the walk through it
  have outside : ∀ {st : St Nat Int} {addrs : List Nat} {a : Nat}, Run (fun a b => a - b) st →
      InOrder st st.root addrs → a ∉ addrs → ¬ Linked st a := by
    intro st addrs a run walk absent linked
    obtain ⟨t, inv⟩ := run.inv order
    have member := (inv.focus.linked_iff a).mp linked
    rw [inv.inOrder.unique walk] at member
    exact absent member
  have run₁ : Run (fun a b => a - b) single := .insert (.init _ _) rfl (blank_unlinked 2) (.of_add 9 fun _ => rfl)
  have walk₁ : InOrder single single.root [2] := .node (n := ⟨.black, .rbnil, .rbnil, .null⟩) rfl .leaf .leaf
  have run₂ : Run (fun a b => a - b) (inserted single 1) :=
    .insert (x := 1) run₁ rfl (outside run₁ walk₁ (by decide)) (.of_add 9 fun _ => rfl)
  have walk₂ : InOrder (inserted single 1) (.node 2) [1, 2] :=
    .node (n := ⟨.black, .node 1, .rbnil, .null⟩) rfl (.node (n := ⟨.red, .rbnil, .rbnil, .node 2⟩) rfl .leaf .leaf) .leaf
  have run₃ : Run (fun a b => a - b) three :=
    .insert (x := 3) run₂ rfl (outside run₂ walk₂ (by decide)) (.of_add 9 fun _ => rfl)
  have walk₃ : InOrder three three.root [1, 2, 3] :=
    .node (n := ⟨.black, .node 1, .node 3, .null⟩) rfl
      (.node (n := ⟨.red, .rbnil, .rbnil, .node 2⟩) rfl .leaf .leaf)
      (.node (n := ⟨.red, .rbnil, .rbnil, .node 2⟩) rfl .leaf .leaf)
  have enough : 2 * Nat.log 2 ([1, 2, 3].length + 1) + 1 ≤ 5 := by decide
  obtain ⟨inserts, deletes, -, -, finds⟩ := operations_logarithmic order run₃ walk₃ enough
  exact ⟨inserts 4 _ rfl (outside run₃ walk₃ (by decide)), deletes 2 (.root rfl), finds 2⟩

end Operations

end Cask.RbTree
