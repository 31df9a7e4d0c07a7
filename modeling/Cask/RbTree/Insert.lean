import Cask.RbTree.Rotate

/-! # Insertion

`insert_fixup` keeps one almost-invariant: the subtree at `x` is balanced with a red root
and its context accepts its black height, so the only fault is a red parent of `x`.  The
recolouring case moves the focus two frames up; the rotation cases leave a black parent and
end the loop.  The descent of `rbtree_insert` ends at a leaf between the payloads below and
above the new one.
-/

namespace Cask.RbTree

open ColorTree Fuel

variable {α π : Type} {st st' : St α π}

/-! ## The loop of `insert_fixup` -/

section Fixup

variable [DecidableEq α] {d : Dir} {f g : α} {t sibling uncle : Bintree α} {q : Context α} {x : Ptr α}

/-- The outer rotation: the parent becomes black and takes the place of the grandparent. -/
theorem insertFixupRotate_focus
    (focus : Focus st (⟨d, .red, f, sibling⟩ :: ⟨d, .black, g, uncle⟩ :: q) t)
    (parent : st.parent x = .ok (.node f)) :
    ∃ st', insertFixupRotate d st x = .ok (x, st') ∧
      Reshape st (plug (⟨d, .red, f, sibling⟩ :: ⟨d, .black, g, uncle⟩ :: q) t) st'
        (plug (⟨d, .black, f, .branch d .red sibling g uncle⟩ :: q) t) := by
  obtain ⟨st₁, run₁, change₁⟩ := setColor_focus .black (focus_cons.mp focus)
  have focus₁ : Focus st₁ (⟨d, .black, f, sibling⟩ :: ⟨d, .black, g, uncle⟩ :: q) t :=
    change₁.at rfl
  obtain ⟨st₂, run₂, change₂⟩ := setColor_focus .red (focus_cons.mp (focus_cons.mp focus₁))
  obtain ⟨st₃, run₃, change₃⟩ := rotateTo_other_focus (change₂.at rfl)
  refine ⟨st₃, ?_, (change₁.trans change₂).trans change₃⟩
  rw [insertFixupRotate, parent, ok_bind, run₁, ok_bind, parent_node focus₁.path.1, ofDir_parent,
    ok_bind, parentOf,
    run₂, ok_bind, run₃, ok_bind, pure_ok]

/-- The loop stops at the root and below a black parent. -/
theorem insertFixupStep_stop {p : Context α} (focus : Focus st p t) (at_x : ptr t = x)
    (notNil : t ≠ .nil) (stop : ¬ RedTop p) : insertFixupStep (x, st) = .ok (.done st) := by
  subst at_x
  cases p with
  | nil =>
    have atRoot : ptr t = st.root := focus.root.symm
    rw [insertFixupStep, if_pos atRoot, pure_ok]
  | cons f p =>
    have black : f.color ≠ .red := stop
    rw [insertFixupStep]
    split
    · rfl
    · rw [parent_ptr focus fun isNil => absurd isNil notNil, ok_bind, parentOf,
        color_node focus.path.1, ok_bind,
        ofDir_color, if_pos black, pure_ok]

/-- One iteration below a red parent runs the branch of the parent's side. -/
theorem insertFixupStep_red {e : Dir}
    (focus : Focus st (⟨e, .red, f, sibling⟩ :: ⟨d, .black, g, uncle⟩ :: q) t) (notNil : t ≠ .nil) :
    insertFixupStep (ptr t, st) =
      insertFixupBranch d st (ptr t) (.node f) (.node g) >>= fun next => .ok (.again next) := by
  have atF := focus.path.1
  have atG := focus.path.2.2.1
  have side := (focus_cons.mp focus).side (.inl (Bintree.branch_ne_nil))
  rw [ptr_fill] at side
  rw [insertFixupStep, if_neg focus.ne_root, parent_ptr focus fun isNil => absurd isNil notNil,
    ok_bind, parentOf,
    color_node atF, ok_bind, ofDir_color, if_neg (by simp), parent_node atF, ofDir_parent,
    ok_bind, parentOf,
    child_node atG, ok_bind]
  simp only [side, pure_ok]

/-- With a red uncle the grandparent becomes red and the loop goes on from there. -/
theorem insertFixupBranch_recolour {e : Dir}
    (focus : Focus st (⟨e, .red, f, sibling⟩ :: ⟨d, .black, g, uncle⟩ :: q) t)
    (uncleRed : uncle.color = .red) (sentinel : st.sentinel.color = .black) :
    ∃ st', insertFixupBranch d st (ptr t) (.node f) (.node g) = .ok (.node g, st') ∧
      Reshape st (plug (⟨e, .red, f, sibling⟩ :: ⟨d, .black, g, uncle⟩ :: q) t) st'
        (plug q (.branch d .red (.branch e .black t f sibling) g uncle.blacken)) := by
  obtain ⟨st₁, run₁, change₁⟩ := setColor_focus .black (focus_cons.mp focus)
  -- the uncle is in the hole on the other side of the grandparent
  have across : ∀ (c : Color) (s : Bintree α),
    plug q (.branch d .black (.branch e c t f sibling) g s) =
      plug (⟨d.other, .black, g, .branch e c t f sibling⟩ :: q) s := by
    intro c s
    rw [plug, Frame.fill, Bintree.branch_other]
  obtain ⟨st₂, run₂, change₂⟩ :=
    blacken_focus (change₁.at (across .black uncle)) (change₁.sentinel sentinel)
  rw [← across, ← across] at change₂
  obtain ⟨st₃, run₃, change₃⟩ := setColor_focus .red (change₂.at rfl)
  refine ⟨st₃, ?_, (change₁.trans change₂).trans change₃⟩
  rw [insertFixupBranch, child_node focus.path.2.2.1, ofDir_child_other, ok_bind,
    color_ptr focus.path.2.2.2.1 sentinel, ok_bind, if_pos uncleRed, run₁, ok_bind, run₂, ok_bind,
    run₃, ok_bind,
    pure_ok]

/-- With a black uncle one or two rotations end with a black node above `x`. -/
theorem insertFixupBranch_rotate {e : Dir} {n : Nat}
    (focus : Focus st (⟨e, .red, f, sibling⟩ :: ⟨d, .black, g, uncle⟩ :: q) t) (notNil : t ≠ .nil)
    (red : t.color = .red) (uncleBlack : uncle.color = .black)
    (sentinel : st.sentinel.color = .black) (bal : BlackBalanced t n)
    (balSibling : BlackBalanced sibling n) (siblingBlack : sibling.color = .black) :
    ∃ st' t' f' sibling', insertFixupBranch d st (ptr t) (.node f) (.node g) = .ok (ptr t', st') ∧
      Reshape st (plug (⟨e, .red, f, sibling⟩ :: ⟨d, .black, g, uncle⟩ :: q) t) st'
        (plug (⟨d, .black, f', .branch d .red sibling' g uncle⟩ :: q) t') ∧
      t' ≠ .nil ∧ BlackBalanced t' n ∧ BlackBalanced sibling' n ∧ sibling'.color = .black := by
  have start : ∀ (x : Ptr α), insertFixupBranch d st x (.node f) (.node g) =
      if x = (Rbnode.ofDir e .red (ptr t) (ptr sibling) (.node g)).child d.other then
        rotateTo d st (.node f) >>= fun st => insertFixupRotate d st (.node f)
      else insertFixupRotate d st x := by
    intro x
    rw [insertFixupBranch, child_node focus.path.2.2.1, ofDir_child_other, ok_bind,
      color_ptr focus.path.2.2.2.1 sentinel, ok_bind, if_neg (by simp [uncleBlack]),
      child_node focus.path.1, ok_bind]
    rfl
  rcases Dir.eq_or_other d e with rfl | rfl
  · -- `x` is an outer grandchild
    obtain ⟨st', run, change⟩ :=
      insertFixupRotate_focus focus (parent_ptr focus fun isNil => absurd isNil notNil)
    refine ⟨st', t, f, sibling, ?_, change, notNil, bal, balSibling, siblingBlack⟩
    rw [start, ofDir_child_other, if_neg (ptr_ne_sibling focus.nodup (.inl notNil)), run]
  · -- `x` is an inner grandchild: a first rotation makes the parent the outer one
    obtain ⟨near, a, far, shape⟩ := Bintree.exists_branch d notNil
    rw [red] at shape
    subst shape
    obtain ⟨balNear, balFar, nearBlack, farBlack⟩ := bal.of_red
    have turned : plug (⟨d.other, .red, f, sibling⟩ :: ⟨d, .black, g, uncle⟩ :: q) (.branch d .red near a far) =
        plug (⟨d, .black, g, uncle⟩ :: q) (.branch d .red sibling f (.branch d .red near a far)) := by
      rw [plug, Frame.fill, Bintree.branch_other]
    obtain ⟨st₁, run₁, change₁⟩ := rotateTo_focus ((Reshape.refl focus).at turned)
    have inner : Focus st₁ (⟨d, .red, a, far⟩ :: ⟨d, .black, g, uncle⟩ :: q) (.branch d .red sibling f near) :=
      change₁.at rfl
    obtain ⟨st₂, run₂, change₂⟩ := insertFixupRotate_focus inner (x := .node f)
      (by rw [parent_node (rep_branch.mp inner.tree).1, ofDir_parent]; rfl)
    rw [← turned] at change₁
    refine ⟨st₂, .branch d .red sibling f near, a, far, ?_, change₁.trans change₂,
      Bintree.branch_ne_nil,
      balanced_red balSibling balNear siblingBlack nearBlack, balFar, farBlack⟩
    rw [start, ofDir_child, if_pos rfl, run₁, ok_bind, run₂, ptr_branch]

theorem insertFixup_loop {p : Context α} {n : Nat} (focus : Focus st p t) (notNil : t ≠ .nil)
    (red : t.color = .red) (bal : BlackBalanced t n) (fits : Fits p n)
    (sentinel : st.sentinel.color = .black) :
    ∃ st' t', Returns (loop .fuel insertFixupStep · (ptr t, st)) st' ∧
      Reshape st (plug p t) st' t' ∧
      ∃ m, BlackBalanced t' m := by
  -- the measure is the distance from the root: recolouring moves two frames up
  induction size : p.length using Nat.strong_induction_on generalizing st p t n with
  | _ size ih =>
    match p, size, fits with
    | [], _, _ =>
      exact ⟨st, t, .loop_done (insertFixupStep_stop focus rfl notNil (by simp [RedTop])),
        .refl focus, n, bal⟩
    | ⟨e, .black, f, sibling⟩ :: p, _, fits =>
      obtain ⟨m, whole, _⟩ := bal.plug fits (.inr (by simp [RedTop]))
      exact ⟨st, _, .loop_done (insertFixupStep_stop focus rfl notNil (by simp [RedTop])),
        .refl focus, m, whole⟩
    | ⟨e, .red, f, sibling⟩ :: ⟨d, .red, g, uncle⟩ :: q, _,
        ⟨_, _, _, notRed, _⟩ => exact absurd rfl notRed
    | ⟨e, .red, f, sibling⟩ :: [], _, ⟨_, _, nonempty, _⟩ => exact absurd rfl nonempty
    | ⟨e, .red, f, sibling⟩ :: ⟨d, .black, g, uncle⟩ :: q, length,
        ⟨balSibling, siblingBlack, _, _, balUncle, rest⟩ =>
      have again : ∀ {next}, insertFixupBranch d st (ptr t) (.node f) (.node g) = .ok next →
          insertFixupStep (ptr t, st) = .ok (.again next) := by
        intro next run
        rw [insertFixupStep_red focus notNil, run, ok_bind]
      cases uncleColor : uncle.color with
      | red =>
        obtain ⟨st₁, run, change₁⟩ := insertFixupBranch_recolour focus uncleColor sentinel
        have bal₁ : BlackBalanced (.branch d .red (.branch e .black t f sibling) g uncle.blacken) (n + 1) :=
          balanced_red (balanced_black bal balSibling) (balUncle.blacken_red uncleColor) (by simp) (by simp)
        obtain ⟨st', t', ended, change, balanced⟩ :=
          ih q.length (by simp only [List.length_cons] at length; omega) (change₁.at rfl) Bintree.branch_ne_nil (by simp)
            bal₁ rest (change₁.sentinel sentinel) rfl
        rw [ptr_branch] at ended
        exact ⟨st', t', .loop_again (again run) ended, change₁.trans change, balanced⟩
      | black =>
        obtain ⟨st₁, t₁, f₁, sibling₁, run, change₁, notNil₁, bal₁, balSibling₁, siblingBlack₁⟩ :=
          insertFixupBranch_rotate focus notNil red uncleColor sentinel bal balSibling siblingBlack
        have fits₁ : Fits (⟨d, .black, f₁, .branch d .red sibling₁ g uncle⟩ :: q) n :=
          ⟨balanced_red balSibling₁ balUncle siblingBlack₁ uncleColor, rest⟩
        obtain ⟨m, whole, _⟩ := bal₁.plug fits₁ (.inr (by simp [RedTop]))
        have ended := insertFixupStep_stop (change₁.at rfl) rfl notNil₁ (by simp [RedTop])
        exact ⟨st₁, _, .loop_again (again run) (.loop_done ended), change₁, m, whole⟩

/-- `insert_fixup` from a red node ends, with a red-black tree of the same nodes in the same order. -/
theorem insertFixup_focus {p : Context α} {n : Nat} (focus : Focus st p t) (notNil : t ≠ .nil)
    (red : t.color = .red) (bal : BlackBalanced t n) (fits : Fits p n)
    (sentinel : st.sentinel.color = .black) :
    ∃ st' t', Returns (insertFixup · st (ptr t)) st' ∧ Reshape st (plug p t) st' t' ∧
      t'.color = .black ∧
      ∃ m, BlackBalanced t' m := by
  obtain ⟨st₁, t₁, ended, change₁, m, bal₁⟩ := insertFixup_loop focus notNil red bal fits sentinel
  obtain ⟨st₂, run, change₂⟩ := blacken_focus change₁.focus (change₁.sentinel sentinel)
  have atRoot : st₁.root = ptr t₁ := change₁.focus.root
  have last : Returns (fun _ => st₁.setColor st₁.root .black) st₂ := by
    rw [atRoot, run]
    exact .const st₂
  exact ⟨st₂, t₁.blacken, .bind ended last, change₁.trans change₂, by simp, bal₁.blacken⟩

end Fixup

/-! ## The descent -/

/-- `cmp` orders the payloads: `cmp a b ≤ 0` is a total preorder. -/
structure TotalPreorder (cmp : π → π → Int) : Prop where
  total : ∀ a b, cmp a b ≤ 0 ∨ cmp b a ≤ 0
  trans : ∀ a b c, cmp a b ≤ 0 → cmp b c ≤ 0 → cmp a c ≤ 0

/-- The payloads at the addresses are non-decreasing. -/
def Sorted (cmp : π → π → Int) (payload : α → π) (addrs : List α) : Prop :=
  addrs.Pairwise fun a b => cmp (payload a) (payload b) ≤ 0

section Descent

variable {cmp : π → π → Int} {p : Context α} {t : Bintree α} {x : α} {last : Int}

/-- The hole of `p` is the place of `x`: what precedes it is strictly below `x`, what follows is not. -/
structure Place (cmp : π → π → Int) (payload : α → π) (x : α) (p : Context α) (last : Int) : Prop where
  below : ∀ b ∈ before p, ¬ cmp (payload x) (payload b) ≤ 0
  above : ∀ b ∈ after p, cmp (payload x) (payload b) ≤ 0
  side : ∀ f q, p = f :: q → f.dir = if last ≤ 0 then .left else .right

/-- One step down keeps the place of `x`, since the tree is sorted. -/
theorem Place.descend {payload : α → π} {c : Color} {l r : Bintree α} {a : α}
    (order : TotalPreorder cmp) (sorted : Sorted cmp payload (plug p (.node c l a r)).labels)
    (place : Place cmp payload x p last) :
    if cmp (payload x) (payload a) ≤ 0 then Place cmp payload x (⟨.left, c, a, r⟩ :: p)
      (cmp (payload x) (payload a))
    else Place cmp payload x (⟨.right, c, a, l⟩ :: p) (cmp (payload x) (payload a)) := by
  have inner : Sorted cmp payload (Bintree.node c l a r).labels := by
    rw [plug_labels, Sorted, List.pairwise_append, List.pairwise_append] at sorted
    exact sorted.1.2.1
  rw [Sorted, Bintree.labels, List.pairwise_append, List.pairwise_cons] at inner
  obtain ⟨_, ⟨aboveA, _⟩, belowA⟩ := inner
  split
  · next le =>
    -- `a` and everything to its right come behind `x`
    refine ⟨place.below, fun b member => ?_, fun f q same => ?_⟩
    · simp only [after, List.cons_append, List.mem_cons, List.mem_append] at member
      rcases member with rfl | inRight | later
      · exact le
      · exact order.trans _ _ _ le (aboveA b inRight)
      · exact place.above b later
    · cases same
      rw [if_pos le]
  · next gt =>
    -- everything to the left of `a`, and `a`, come in front of `x`
    refine ⟨fun b member => ?_, place.above, fun f q same => ?_⟩
    · simp only [before, List.mem_append, List.mem_singleton] at member
      rcases member with (earlier | inLeft) | rfl
      · exact place.below b earlier
      · intro le
        exact gt (order.trans _ _ _ le (belowA b inLeft a (by simp)))
      · exact gt
    · cases same
      rw [if_neg gt]

theorem descend_returns (order : TotalPreorder cmp) (focus : Focus st p t)
    (sorted : Sorted cmp st.payload (plug p t).labels) (place : Place cmp st.payload x p last) :
    ∃ p' last', Returns (loop .fuel (descendStep cmp st x) · (ptr t, parentOf p, last))
      (parentOf p', last') ∧
      Focus st p' .nil ∧ plug p' .nil = plug p t ∧ Place cmp st.payload x p' last' := by
  induction t generalizing p last with
  | nil => exact ⟨p, last, .loop_done rfl, focus, rfl, place⟩
  | node c l a r ihl ihr =>
    have next := place.descend order sorted
    -- the induction is on the subtree that is left to search
    have step : descendStep cmp st x (.node a, parentOf p, last) =
        .ok (.again (if cmp (st.payload x) (st.payload a) ≤ 0 then ptr l else ptr r, .node a,
          cmp (st.payload x) (st.payload a))) := by
      simp only [descendStep]
      rw [child_node focus.tree.1, ok_bind, pure_ok]
      split <;> rfl
    split at next
    · next le =>
      obtain ⟨p', last', ended, focus', same, place'⟩ :=
        ihl (p := ⟨.left, c, a, r⟩ :: p) (focus_cons.mpr focus)
        sorted next
      rw [if_pos le] at step
      exact ⟨p', last', .loop_again step ended, focus', same, place'⟩
    · next gt =>
      obtain ⟨p', last', ended, focus', same, place'⟩ :=
        ihr (p := ⟨.right, c, a, l⟩ :: p) (focus_cons.mpr focus)
        sorted next
      rw [if_neg gt] at step
      exact ⟨p', last', .loop_again step ended, focus', same, place'⟩

end Descent

/-! ## Linking the new node -/

section Link

variable [DecidableEq α] {cmp : π → π → Int} {p : Context α} {t : Bintree α} {x : α} {last : Int} {n : Rbnode α}

/-- The new node in the hole that the descent found. -/
def St.link (st : St α π) (p : Context α) (x : α) : St α π :=
  (st.put x ⟨.red, .rbnil, .rbnil, parentOf p⟩).relink p (.node x)

theorem linkNode_eq (focus : Focus st p .nil) (fresh : x ∉ (plug p .nil).labels)
    (allocated : st.node x = some n) (place : Place cmp st.payload x p last) :
    linkNode st x (parentOf p) last = .ok (st.link p x) := by
  have written : linkNode st x (parentOf p) last =
      linkChild (st.put x ⟨.red, .rbnil, .rbnil, parentOf p⟩) (parentOf p) last (.node x) := by
    rw [linkNode, setColor_node allocated, ok_bind, setChild_node put_node_same, ok_bind,
      setChild_node put_node_same,
      ok_bind, setParent_node put_node_same, ok_bind]
    simp only [St.put, Function.update_idem]
    rfl
  rw [written]
  cases p with
  | nil => rfl
  | cons f p =>
    -- the new node is not its own parent
    have differ : f.label ≠ x := by
      rintro rfl
      simp [plug, plug_labels, Frame.fill, Bintree.mem_labels_branch] at fresh
    have above : (st.put x ⟨.red, .rbnil, .rbnil, .node f.label⟩).node f.label = _ :=
      (put_node_ne differ).trans focus.path.1
    rw [parentOf, linkChild, if_pos (by simp), ← place.side f p rfl, setChild_node above,
      ofDir_setChild]
    simp only [St.link, St.relink, St.put, redirect, parentOf]
    rw [focus.root]
    rfl

theorem link_focus (focus : Focus st p .nil) (fresh : x ∉ (plug p .nil).labels) :
    Focus (st.link p x) p (.node .red .nil x .nil) := by
  simp only [plug_labels, Bintree.labels, List.append_nil, List.mem_append] at fresh
  refine focus.replace ⟨?_, trivial, trivial⟩ rfl ?_ fun a member => ?_
  · rw [St.link, relink_node_of_not_mem fresh, put_node_same]
    rfl
  · have nodup := focus.nodup
    simp only [plug_labels, Bintree.labels, List.append_nil, List.nil_append] at nodup ⊢
    rw [List.append_assoc, List.singleton_append, List.perm_middle.nodup_iff]
    exact List.nodup_cons.mpr ⟨by simpa using fresh, nodup⟩
  · refine redirect_congr (put_node_ne ?_)
    rintro rfl
    exact fresh member

theorem link_keeps : Keeps (plug p (.node .red .nil x .nil)).labels st (st.link p x) := by
  refine ⟨rfl, rfl, fun a absent => ?_⟩
  simp only [plug_labels, Bintree.labels, List.nil_append, List.mem_append, List.mem_singleton,
    not_or] at absent
  rw [St.link, relink_node_of_not_mem (by tauto), put_node_ne absent.1.2]

/-- `rbtree_insert` ends; the new node is between the nodes strictly below it and the others. -/
theorem rbtreeInsert_focus (order : TotalPreorder cmp) (focus : Focus st [] t)
    (black : t.color = .black) (balanced : ∃ m, BlackBalanced t m)
    (sorted : Sorted cmp st.payload t.labels) (sentinel : st.sentinel.color = .black)
    (allocated : st.node x = some n) (fresh : x ∉ t.labels) :
    ∃ st' t' lower upper, Returns (rbtreeInsert cmp · st x) st' ∧ Focus st' [] t' ∧
      t'.color = .black ∧
      (∃ m, BlackBalanced t' m) ∧ t.labels = lower ++ upper ∧ t'.labels = lower ++ x :: upper ∧
      (∀ b ∈ lower, ¬ cmp (st.payload x) (st.payload b) ≤ 0) ∧
      (∀ b ∈ upper, cmp (st.payload x) (st.payload b) ≤ 0) ∧ Keeps t'.labels st st' := by
  have start : Place cmp st.payload x [] 0 := ⟨by simp [before], by simp [after], by simp⟩
  obtain ⟨p, last, found, atLeaf, whole, place⟩ := descend_returns order focus sorted start
  rw [plug] at whole
  obtain ⟨m, bal⟩ := balanced
  -- the leaf that is replaced has no black node, nor has a red one
  obtain ⟨k, leaf, fits, _⟩ := BlackBalanced.unplug (whole ▸ bal) (by rw [whole, black])
  have height : k = 0 := by cases leaf; rfl
  subst height
  have linked := link_focus atLeaf (whole ▸ fresh)
  obtain ⟨st', t', fixed, ⟨focus', labels, keeps⟩, black', balanced'⟩ :=
    insertFixup_focus linked (by simp) rfl (.red .nil .nil rfl rfl) fits sentinel
  have parts : t.labels = before p ++ after p := by rw [← whole, plug_labels]; simp [Bintree.labels]
  refine ⟨st', t', before p, after p, ?_, focus', black', balanced', parts, ?_, place.below,
    place.above, ?_⟩
  · have second : Returns (fun fuel => (linkNode st x (parentOf p) last).bind (insertFixup fuel · (.node x))) st' := by
      rw [linkNode_eq atLeaf (whole ▸ fresh) allocated place]
      exact fixed
    have atRoot : st.root = ptr t := focus.root
    simp only [rbtreeInsert, atRoot]
    exact .bind found second
  · rw [labels, plug_labels]
    simp [Bintree.labels]
  · rw [labels]
    exact link_keeps.trans keeps rfl

end Link

end Cask.RbTree
