import Cask.RbTree.Rotate

/-! # Deletion

`rbtree_delete` unlinks a node with at most one child: the given node, or its successor,
whose payload then moves to the given node.  `delete_fixup` starts one black node short at
`x`.  Its almost-invariant is `Short`: a black subtree lacks one in black height, a red one
lacks it only until it is blackened.  Three of the four cases of the loop end it; a black
sibling with black children moves the shortage one frame up.

The sentinel may itself be `x`.  Its parent field, written when the node was unlinked, then
stands for the parent of the hole, and no rotation writes it.
-/

namespace Cask.RbTree

open ColorTree Fuel

variable {α π : Type} {st st' : St α π}

/-! ## The parent of the focus -/

/-- The subtree at the focus knows its parent; for a leaf this is the sentinel's parent field. -/
def Home (st : St α π) (p : Context α) (t : Bintree α) : Prop :=
  t = .nil → st.sentinel.parent = parentOf p

/-- A change of the tree that leaves `t` below the same node does not change its parent. -/
theorem Home.parent {p : Context α} {t s s' : Bintree α} (home : Home st p t)
    (change : Reshape st s st' s') (p' : Context α) (seen : s' = plug p' t)
    (same : parentOf p' = parentOf p) : st'.parent (ptr t) = .ok (parentOf p) := by
  rw [← same]
  refine parent_ptr (change.at seen) fun leaf => ?_
  rw [change.keeps.sentinel, home leaf, same]

/-- The sibling seen as the subtree in the hole on the other side. -/
theorem plug_sibling (d : Dir) (c : Color) (f : α) (t s : Bintree α) (q : Context α) :
    plug (⟨d, c, f, s⟩ :: q) t = plug (⟨d.other, c, f, t⟩ :: q) s := by
  rw [plug, plug, Frame.fill, Frame.fill, Bintree.branch_other]

/-! ## The cases of `delete_fixup` -/

section Cases

variable [DecidableEq α] {d : Dir} {c : Color} {f w : α} {t near far : Bintree α} {q : Context α}

/-- Case 1: a red sibling is rotated above the parent. -/
theorem deleteFixupRed_focus (focus : Focus st (⟨d, .black, f, .branch d .red near w far⟩ :: q) t)
    (home : Home st (⟨d, .black, f, .branch d .red near w far⟩ :: q) t) :
    ∃ st', deleteFixupRed d st (ptr t) (.node w) = .ok (ptr near, st') ∧
      Reshape st (plug (⟨d, .black, f, .branch d .red near w far⟩ :: q) t) st'
        (plug (⟨d, .red, f, near⟩ :: ⟨d, .black, w, far⟩ :: q) t) := by
  obtain ⟨st₁, run₁, change₁⟩ := setColor_focus .black ((Reshape.refl focus).at (plug_sibling ..))
  rw [← plug_sibling, ← plug_sibling] at change₁
  have parent₁ := home.parent change₁ _ rfl rfl
  obtain ⟨st₂, run₂, change₂⟩ := setColor_focus .red (focus_cons.mp (change₁.at rfl))
  have parent₂ :=
    home.parent (change₁.trans change₂) (⟨d, .red, f, .branch d .black near w far⟩ :: q) rfl rfl
  obtain ⟨st₃, run₃, change₃⟩ := rotateTo_focus (change₂.at rfl)
  have all := (change₁.trans change₂).trans change₃
  have focus₃ : Focus st₃ (⟨d, .red, f, near⟩ :: ⟨d, .black, w, far⟩ :: q) t := change₃.at rfl
  have parent₃ := home.parent all (⟨d, .red, f, near⟩ :: ⟨d, .black, w, far⟩ :: q) rfl rfl
  rw [parentOf] at parent₁ parent₂ parent₃
  refine ⟨st₃, ?_, all⟩
  rw [deleteFixupRed, run₁, ok_bind, parent₁, ok_bind, run₂, ok_bind, parent₂, ok_bind, run₃,
    ok_bind, parent₃, ok_bind,
    child_node focus₃.path.1, ofDir_child_other, ok_bind, pure_ok]

/-- Case 3: a red near child of the sibling is rotated to the far side. -/
theorem deleteFixupNear_focus {b : α} {inner outer : Bintree α}
    (focus : Focus st (⟨d, c, f, .branch d .black (.branch d .red inner b outer) w far⟩ :: q) t)
    (home : Home st (⟨d, c, f, .branch d .black (.branch d .red inner b outer) w far⟩ :: q) t) :
    ∃ st', deleteFixupNear d st (ptr t) (.node w) = .ok (.node b, st') ∧
      Reshape st (plug (⟨d, c, f, .branch d .black
      (.branch d .red inner b outer) w far⟩ :: q) t) st'
        (plug (⟨d, c, f, .branch d .black inner b (.branch d .red outer w far)⟩ :: q) t) := by
  have atW := (rep_branch.mp focus.path.2.1).1
  rw [ptr_branch] at atW
  -- the same tree, seen from the near child of the sibling
  have start := (Reshape.refl focus).at
    (p := ⟨d, .black, w, far⟩ :: ⟨d.other, c, f, t⟩ :: q) (plug_sibling ..)
  obtain ⟨st₁, run₁, change₁⟩ := setColor_focus .black start
  obtain ⟨st₂, run₂, change₂⟩ := setColor_focus .red (focus_cons.mp (change₁.at rfl))
  obtain ⟨st₃, run₃, change₃⟩ := rotateTo_other_focus (change₂.at rfl)
  have all := (change₁.trans change₂).trans change₃
  rw [plug, Frame.fill, ← plug_sibling, ← plug_sibling] at all
  have focus₃ :=
    all.at (p := ⟨d, c, f, .branch d .black inner b (.branch d .red outer w far)⟩ :: q) rfl
  have parent₃ := home.parent all _ rfl rfl
  rw [parentOf] at parent₃
  refine ⟨st₃, ?_, all⟩
  rw [deleteFixupNear, child_node atW, ofDir_child, ok_bind, run₁, ok_bind, run₂, ok_bind, run₃,
    ok_bind, parent₃,
    ok_bind, child_node focus₃.path.1, ofDir_child_other, ptr_branch, ok_bind, pure_ok]

/-- Case 4: with a red far child the sibling takes the place and the colour of the parent. -/
theorem deleteFixupFar_focus (focus : Focus st (⟨d, c, f, .branch d .black near w far⟩ :: q) t)
    (home : Home st (⟨d, c, f, .branch d .black near w far⟩ :: q) t)
    (sentinel : st.sentinel.color = .black) :
    ∃ st', deleteFixupFar d st (ptr t) (.node w) = .ok (st'.root, st') ∧
      Reshape st (plug (⟨d, c, f, .branch d .black near w far⟩ :: q) t) st'
        (plug q (.branch d c (.branch d .black t f near) w far.blacken)) := by
  have parent₀ := home.parent (.refl focus) _ rfl rfl
  obtain ⟨st₁, run₁, change₁⟩ := setColor_focus c ((Reshape.refl focus).at (plug_sibling ..))
  rw [← plug_sibling, ← plug_sibling] at change₁
  have parent₁ := home.parent change₁ _ rfl rfl
  obtain ⟨st₂, run₂, change₂⟩ := setColor_focus .black (focus_cons.mp (change₁.at rfl))
  have focus₂ := change₂.at (p := ⟨d, .black, f, .branch d c near w far⟩ :: q) rfl
  have atW := (rep_branch.mp focus₂.path.2.1).1
  have across : ∀ s, plug q (.branch d .black t f (.branch d c near w s)) =
      plug (⟨d.other, c, w, near⟩ :: ⟨d.other, .black, f, t⟩ :: q) s := by
    intro s
    simp only [plug, Frame.fill, Bintree.branch_other]
  obtain ⟨st₃, run₃, change₃⟩ :=
    blacken_focus (change₂.at (across far)) ((change₁.trans change₂).sentinel sentinel)
  rw [← across, ← across] at change₃
  have parent₃ := home.parent ((change₁.trans change₂).trans change₃)
    (⟨d, .black, f, .branch d c near w far.blacken⟩ :: q) rfl rfl
  obtain ⟨st₄, run₄, change₄⟩ := rotateTo_focus (change₃.at rfl)
  rw [parentOf] at parent₀ parent₁ parent₃
  refine ⟨st₄, ?_, ((change₁.trans change₂).trans change₃).trans change₄⟩
  rw [deleteFixupFar, parent₀, ok_bind, color_node focus.path.1, ofDir_color, ok_bind, run₁,
    ok_bind, parent₁, ok_bind,
    run₂, ok_bind, child_node atW, ofDir_child_other, ok_bind, run₃, ok_bind, parent₃, ok_bind,
    run₄, ok_bind, pure_ok]

/-- With a black sibling the shortage moves one frame up (case 2), or the tree is finished. -/
theorem deleteFixupBlack_focus {n : Nat}
    (focus : Focus st (⟨d, c, f, .branch d .black near w far⟩ :: q) t)
    (home : Home st (⟨d, c, f, .branch d .black near w far⟩ :: q) t)
    (sentinel : st.sentinel.color = .black) (bal : BlackBalanced t n)
    (fits : Fits (⟨d, c, f, .branch d .black near w far⟩ :: q) (n + 1)) :
    ∃ st' t', Reshape st (plug (⟨d, c, f, .branch d .black near w far⟩ :: q) t) st' t' ∧
      ((deleteFixupBlack d st (ptr t) (.node w) = .ok (.node f, st') ∧
        ∃ u k, t' = plug q u ∧ ptr u = .node f ∧ u.color = c ∧ Short u k ∧ Fits q (k + 1)) ∨
      (deleteFixupBlack d st (ptr t) (.node w) = .ok (st'.root, st') ∧ t'.color = .black ∧
      ∃ m, BlackBalanced t' m)) := by
  obtain ⟨m, height, balNear, balFar⟩ := fits.1.of_black
  obtain rfl : n = m := by omega
  obtain ⟨atW, repNear, repFar⟩ := rep_branch.mp focus.path.2.1
  have start : deleteFixupBlack d st (ptr t) (.node w) =
      if near.color = .black ∧ far.color = .black then
        st.setColor (.node w) .red >>= fun st => st.parent (ptr t) >>= fun p => .ok (p, st)
      else if far.color = .black then
        deleteFixupNear d st (ptr t) (.node w) >>= fun r => deleteFixupFar d r.2 (ptr t) r.1
      else deleteFixupFar d st (ptr t) (.node w) := by
    rw [deleteFixupBlack, child_node atW, ofDir_child, ok_bind, color_ptr repNear sentinel, ok_bind,
      child_node atW,
      ofDir_child_other, ok_bind, color_ptr repFar sentinel, ok_bind]
    rfl
  cases farColor : far.color with
  | red =>
    obtain ⟨st', run, change⟩ := deleteFixupFar_focus focus home sentinel
    obtain ⟨m, whole, root⟩ := bal.top (a := w) fits balNear (balFar.blacken_red farColor) (by simp)
    refine ⟨st', _, change, .inr ⟨?_, root, m, whole⟩⟩
    rw [start, if_neg (by simp [farColor]), if_neg (by simp [farColor]), run]
  | black =>
    cases nearColor : near.color with
    | red =>
      -- two rotations: the red child goes to the far side first
      obtain ⟨inner, b, outer, shape⟩ :=
        Bintree.exists_branch d (t := near) (by rintro rfl; cases nearColor)
      rw [nearColor] at shape
      subst shape
      obtain ⟨balInner, balOuter, _, outerBlack⟩ := balNear.of_red
      obtain ⟨st₁, run₁, change₁⟩ := deleteFixupNear_focus focus home
      have home₁ : Home st₁ (⟨d, c, f, .branch d .black inner b (.branch d .red outer w far)⟩ :: q) t := by
        intro leaf
        rw [change₁.keeps.sentinel, home leaf]
        rfl
      obtain ⟨st₂, run₂, change₂⟩ :=
        deleteFixupFar_focus (change₁.at rfl) home₁ (change₁.sentinel sentinel)
      obtain ⟨m, whole, root⟩ := bal.top (a := b) fits balInner
        ((balanced_red (d := d) (a := w) balOuter balFar outerBlack farColor).blacken_red (by simp)) (by simp)
      refine ⟨st₂, _, change₁.trans change₂, .inr ⟨?_, root, m, whole⟩⟩
      rw [start, if_neg (by simp), if_pos farColor, run₁, ok_bind, run₂]
    | black =>
      -- recolouring only: the parent is short of a black now
      obtain ⟨st', run, change⟩ := setColor_focus .red ((Reshape.refl focus).at (plug_sibling ..))
      rw [← plug_sibling, ← plug_sibling] at change
      obtain ⟨k, short, rest⟩ := Short.up bal fits nearColor farColor
      refine ⟨st', _, change,
        .inl ⟨?_, _, k, rfl, ptr_branch .., Bintree.branch_color .., short, rest⟩⟩
      rw [start, if_pos ⟨nearColor, farColor⟩, run, ok_bind, home.parent change _ rfl rfl]
      rfl

end Cases

/-! ## The loop of `delete_fixup` -/

section Loop

variable [DecidableEq α] {t : Bintree α} {p : Context α} {n : Nat}

theorem deleteFixupStep_stop (focus : Focus st p t) (sentinel : st.sentinel.color = .black)
    (stop : t.color = .red ∨ p = []) : deleteFixupStep (ptr t, st) = .ok (.done (ptr t, st)) := by
  rw [deleteFixupStep]
  split
  · rfl
  · next notRoot =>
    have red : t.color = .red := stop.resolve_right (by rintro rfl; exact notRoot focus.root.symm)
    rw [color_ptr focus.tree sentinel, ok_bind, if_pos (by simp [red]), pure_ok]

theorem deleteFixupStep_black {f : Frame α} {q : Context α} (focus : Focus st (f :: q) t)
    (home : Home st (f :: q) t) (sentinel : st.sentinel.color = .black) (black : t.color = .black)
    (someSibling : f.sibling ≠ .nil) :
    deleteFixupStep (ptr t, st) = deleteFixupBranch f.dir st (ptr t) >>= fun next =>
      .ok (.again next) := by
  have parent := home.parent (.refl focus) _ rfl rfl
  rw [parentOf] at parent
  rw [deleteFixupStep, if_neg focus.ne_root, color_ptr focus.tree sentinel, ok_bind,
    if_neg (by simp [black]), parent,
    ok_bind, child_node focus.path.1, ok_bind]
  simp only [focus.side (.inr someSibling), pure_ok]

/-- One iteration: it finishes the tree, or the shortage moves up, to a red node or by one frame. -/
theorem deleteFixupBranch_focus {f : Frame α} {q : Context α} (focus : Focus st (f :: q) t)
    (home : Home st (f :: q) t) (sentinel : st.sentinel.color = .black) (bal : BlackBalanced t n)
    (fits : Fits (f :: q) (n + 1)) :
    ∃ st' t', Reshape st (plug (f :: q) t) st' t' ∧
      ((∃ q' u k, deleteFixupBranch f.dir st (ptr t) = .ok (ptr u, st') ∧ t' = plug q' u ∧
      u ≠ .nil ∧ Short u k ∧
        Fits q' (k + 1) ∧ (u.color = .red ∨ q' = q)) ∨
      (deleteFixupBranch f.dir st (ptr t) = .ok (st'.root, st') ∧ t'.color = .black ∧
      ∃ m, BlackBalanced t' m)) := by
  obtain ⟨d, c, a, sibling⟩ := f
  have notNil : sibling ≠ .nil := by
    rintro rfl
    cases fits.1
  have parent := home.parent (.refl focus) _ rfl rfl
  rw [parentOf] at parent
  obtain ⟨near, w, far, shape⟩ := Bintree.exists_branch d notNil
  have start : deleteFixupBranch d st (ptr t) =
      if sibling.color = .red then
        deleteFixupRed d st (ptr t) (.node w) >>= fun r => deleteFixupBlack d r.2 (ptr t) r.1
      else deleteFixupBlack d st (ptr t) (.node w) := by
    have atW : ptr sibling = .node w := by rw [shape, ptr_branch]
    rw [deleteFixupBranch, parent, ok_bind, child_node focus.path.1, ofDir_child_other, ok_bind,
      color_ptr focus.path.2.1 sentinel, ok_bind, atW]
  cases color : sibling.color with
  | black =>
    rw [color] at shape
    subst shape
    obtain ⟨st', t', change, ⟨run, u, k, same, atF, _, short, rest⟩ | ⟨run, finished⟩⟩ :=
      deleteFixupBlack_focus focus home sentinel bal fits
    · refine ⟨st', t', change,
        .inl ⟨q, u, k, ?_, same, (by rintro rfl; cases atF), short, rest, .inr rfl⟩⟩
      rw [start, if_neg (by simp), run, atF]
    · refine ⟨st', t', change, .inr ⟨?_, finished⟩⟩
      rw [start, if_neg (by simp), run]
  | red =>
    -- after the first rotation the parent is red and its new sibling is black
    rw [color] at shape
    subst shape
    obtain ⟨balNear, balFar, nearBlack, _⟩ := fits.1.of_red
    have frame : c = .black ∧ Fits q (n + 1 + 1) := by
      cases c with
      | black => exact ⟨rfl, fits.2⟩
      | red => exact absurd fits.2.1 (by simp)
    obtain ⟨rfl, rest⟩ := frame
    obtain ⟨st₁, run₁, change₁⟩ := deleteFixupRed_focus focus home
    obtain ⟨inner, b, outer, shape⟩ :=
      Bintree.exists_branch d (t := near) (by rintro rfl; cases balNear)
    rw [nearBlack] at shape
    subst shape
    have home₁ : Home st₁ (⟨d, .red, a, .branch d .black inner b outer⟩ :: ⟨d, .black, w, far⟩ :: q) t := by
      intro leaf
      rw [change₁.keeps.sentinel, home leaf]
      rfl
    have fits₁ : Fits (⟨d, .red, a, .branch d .black inner b outer⟩ :: ⟨d, .black, w, far⟩ :: q) (n + 1) :=
      ⟨balNear, by simp, by simp, by simp [RedTop], balFar, rest⟩
    rw [ptr_branch] at run₁
    obtain ⟨st', t', change, ⟨run, u, k, same, atF, isRed, short, rest'⟩ | ⟨run, finished⟩⟩ :=
      deleteFixupBlack_focus (change₁.at rfl) home₁ (change₁.sentinel sentinel) bal fits₁
    · refine ⟨st', t', change₁.trans change,
        .inl ⟨_, u, k, ?_, same, (by rintro rfl; cases atF), short, rest', .inl isRed⟩⟩
      rw [start, if_pos (by simp), run₁, ok_bind, run, atF]
    · refine ⟨st', t', change₁.trans change, .inr ⟨?_, finished⟩⟩
      rw [start, if_pos (by simp), run₁, ok_bind, run]

theorem deleteFixup_loop (focus : Focus st p t) (home : Home st p t)
    (sentinel : st.sentinel.color = .black) (short : Short t n) (fits : Fits p (n + 1)) :
    ∃ st' p' t', Returns (loop .fuel deleteFixupStep · (ptr t, st)) (ptr t', st') ∧
      Reshape st (plug p t) st' (plug p' t') ∧
      ∃ m, BlackBalanced (plug p' t'.blacken) m ∧ (plug p' t'.blacken).color = .black := by
  -- the frames above the shortage; a red subtree ends the loop at once
  induction p generalizing st t n with
  | nil =>
    exact ⟨st, [], t, .loop_done (deleteFixupStep_stop focus sentinel (.inr rfl)), .refl focus,
      short.finish fits (.inr rfl)⟩
  | cons f q ih =>
    cases color : t.color with
    | red =>
      exact ⟨st, f :: q, t, .loop_done (deleteFixupStep_stop focus sentinel (.inl color)),
        .refl focus,
        short.finish fits (.inl color)⟩
    | black =>
      have again : ∀ {next}, deleteFixupBranch f.dir st (ptr t) = .ok next →
          deleteFixupStep (ptr t, st) = .ok (.again next) := by
        intro next run
        have someSibling : f.sibling ≠ .nil := by
          intro leaf
          have empty := fits.1
          rw [leaf] at empty
          cases empty
        rw [deleteFixupStep_black focus home sentinel color someSibling, run, ok_bind]
      obtain ⟨st₁, t₁, change₁, ⟨q', u, k, run, rfl, notNil, short', fits', up⟩ | ⟨run, black', m, bal'⟩⟩ :=
        deleteFixupBranch_focus focus home sentinel (short.1 color) fits
      · by_cases red : u.color = .red
        · exact ⟨st₁, q', u, .loop_again (again run)
            (.loop_done (deleteFixupStep_stop (change₁.at rfl) (change₁.sentinel sentinel) (.inl red))), change₁,
            short'.finish fits' (.inl red)⟩
        · obtain rfl : q' = q := up.resolve_left red
          obtain ⟨st', p', t', ended, change, result⟩ :=
            ih (change₁.at rfl) (fun leaf => absurd leaf notNil)
            (change₁.sentinel sentinel) short' fits'
          exact ⟨st', p', t', .loop_again (again run) ended, change₁.trans change, result⟩
      · have atRoot : st₁.root = ptr t₁ := change₁.focus.root
        rw [atRoot] at run
        refine ⟨st₁, [], t₁, .loop_again (again run)
          (.loop_done (deleteFixupStep_stop change₁.focus (change₁.sentinel sentinel) (.inr rfl))),
          change₁, m, ?_, ?_⟩
        · rw [Bintree.blacken_of_black black']
          exact bal'
        · exact Bintree.blacken_color _

/-- `delete_fixup` ends and leaves a red-black tree of the same nodes in the same order. -/
theorem deleteFixup_focus (focus : Focus st p t) (home : Home st p t)
    (sentinel : st.sentinel.color = .black) (short : Short t n) (fits : Fits p (n + 1)) :
    ∃ st' t', Returns (deleteFixup · st (ptr t)) st' ∧ Reshape st (plug p t) st' t' ∧
      t'.color = .black ∧
      ∃ m, BlackBalanced t' m := by
  obtain ⟨st₁, p₁, t₁, ended, change₁, m, bal, black⟩ :=
    deleteFixup_loop focus home sentinel short fits
  obtain ⟨st₂, run, change₂⟩ := blacken_focus (change₁.at rfl) (change₁.sentinel sentinel)
  have last : Returns (fun _ => st₁.setColor (ptr t₁) .black) st₂ := by
    rw [run]
    exact .const st₂
  exact ⟨st₂, _, .bind ended last, change₁.trans change₂, black, m, bal⟩

end Loop

/-! ## Unlinking -/

section Unlink

variable {t : Bintree α} {p : Context α}

def onlyChild (l r : Bintree α) : Bintree α :=
  match l with
  | .nil => r
  | .node .. => l

variable {c : Color} {l r : Bintree α} {y : α}

theorem onlyChild_labels (single : l = .nil ∨ r = .nil) :
    (onlyChild l r).labels = l.labels ++ r.labels := by
  rcases single with rfl | rfl
  · rfl
  · cases l <;> simp [onlyChild, Bintree.labels]

theorem onlyChild_rep {nodes : α → Option (Rbnode α)} {par : Ptr α}
    (rep : Rep nodes par (.node c l y r)) : Rep nodes (.node y) (onlyChild l r) := by
  cases l with
  | nil => exact rep.2.2
  | node _ _ _ _ => exact rep.2.1

variable [DecidableEq α]

theorem ptr_onlyChild : ptr (onlyChild l r) = if ptr l ≠ .rbnil then ptr l else ptr r :=
  by cases l <;> rfl

theorem leftmost_returns (focus : Focus st p t) (notNil : t ≠ .nil) :
    ∃ p' c y r, Returns (loop .fuel (leftmostStep st) · (ptr t)) (.node y) ∧
      Focus st p' (.node c .nil y r) ∧
      plug p' (.node c .nil y r) = plug p t ∧ before p' = before p := by
  induction t generalizing p with
  | nil => exact absurd rfl notNil
  | node c l y r ihl _ =>
    have step : leftmostStep st (.node y) =
        if ptr l ≠ .rbnil then .ok (.again (ptr l)) else .ok (.done (.node y)) := by
      rw [leftmostStep, child_node focus.tree.1, ok_bind]
      rfl
    by_cases leaf : l = .nil
    · subst leaf
      rw [if_neg (by simp [ptr])] at step
      exact ⟨p, c, y, r, .loop_done step, focus, rfl, rfl⟩
    · obtain ⟨p', c', y', r', ended, focus', same, left⟩ :=
        ihl (p := ⟨.left, c, y, r⟩ :: p) (focus_cons.mpr focus) leaf
      rw [if_pos (mt ptr_eq_rbnil.mp leaf)] at step
      exact ⟨p', c', y', r', .loop_again step ended, focus', same, left⟩

/-- `x->parent = ...` also for the sentinel, which is then the child in the hole. -/
theorem setParent_home {par' : Ptr α} (par : Ptr α) (rep : Rep st.node par' t) :
    ∃ st', st.setParent (ptr t) par = .ok st' ∧ st'.node = (st.adopt t par).node ∧
      st'.root = st.root ∧
      st'.payload = st.payload ∧ (t = .nil → st'.sentinel.parent = par) ∧
      ∃ q, st'.sentinel = { st.sentinel with parent := q } := by
  cases t with
  | nil => exact ⟨_, rfl, rfl, rfl, rfl, fun _ => rfl, par, rfl⟩
  | node c l a r =>
    exact ⟨_, setParent_node rep.1 par, rfl, rfl, rfl, fun leaf => absurd leaf (by simp),
      st.sentinel.parent, rfl⟩

theorem unlinkNode_focus (focus : Focus st p (.node c l y r)) (single : l = .nil ∨ r = .nil) :
    ∃ st', unlinkNode st (.node y) = .ok (ptr (onlyChild l r), st') ∧ Focus st' p (onlyChild l r) ∧
      Home st' p (onlyChild l r) ∧ st'.payload = st.payload ∧
      (∃ q, st'.sentinel = { st.sentinel with parent := q }) ∧
      ∀ a, a ∉ (plug p (onlyChild l r)).labels → st'.node a = st.node a := by
  generalize child : onlyChild l r = s
  obtain ⟨path, tree, root, nodup⟩ := id focus
  have labels : s.labels = l.labels ++ r.labels := by rw [← child, onlyChild_labels single]
  have rep : Rep st.node (.node y) s := child ▸ onlyChild_rep tree
  have inner := nodup_tree nodup
  rw [Bintree.labels, List.perm_middle.nodup_iff, List.nodup_cons, ← labels] at inner
  have yOutside : ¬ (y ∈ before p ∨ y ∈ after p) := nodup_plug nodup (by simp [Bintree.labels])
  have sOutside : ∀ a ∈ s.labels, ¬ (a ∈ before p ∨ a ∈ after p) := fun a member =>
    nodup_plug nodup (by rw [labels, List.mem_append] at member; simp only [Bintree.labels, List.mem_append, List.mem_cons]; tauto)
  obtain ⟨st₁, run₁, nodes, root₁, payload, home, sentinel⟩ := setParent_home (parentOf p) rep
  have atY : st₁.node y = some ⟨c, ptr l, ptr r, parentOf p⟩ := by
    rw [nodes, adopt_node_of_not_mem inner.1]
    exact tree.1
  have path₁ : RepPath st₁.node p (.node y) := path.congr fun a member => by
    rw [nodes, adopt_node_of_not_mem fun within => sOutside a within member]
  have run₂ :=
    replaceChild_focus (t := .node c l y r) .left (ptr s) rfl path₁ (by rw [root₁, root]; rfl)
    (parent_node atY) nodup
  refine ⟨st₁.relink p (ptr s), ?_, ?_, home, payload, sentinel, fun a absent => ?_⟩
  · rw [unlinkNode, child_node tree.1, ok_bind, child_node tree.1, ok_bind]
    have chosen : (if (⟨c, ptr l, ptr r, parentOf p⟩ : Rbnode α).child .left ≠ .rbnil then
        (⟨c, ptr l, ptr r, parentOf p⟩ : Rbnode α).child .left
        else (⟨c, ptr l, ptr r, parentOf p⟩ : Rbnode α).child .right) = ptr s := by
      rw [← child, ptr_onlyChild]
      rfl
    rw [chosen, parent_node tree.1, ok_bind, run₁, ok_bind, run₂, ok_bind, pure_ok]
  · refine focus.replace ?_ rfl ?_ fun a member => ?_
    · have adopted : Rep (st.adopt s (parentOf p)).node (parentOf p) s := rep_adopt rep inner.2
      exact adopted.congr fun a member => by rw [relink_node_of_not_mem (sOutside a member), nodes]
    · rw [plug_labels] at nodup ⊢
      refine nodup.sublist (((List.Sublist.refl _).append ?_).append (List.Sublist.refl _))
      rw [labels, Bintree.labels]
      exact (List.Sublist.refl _).append (List.sublist_cons_self ..)
    · exact redirect_congr (by rw [nodes, adopt_node_of_not_mem fun within => sOutside a within member])
  · simp only [plug_labels, List.mem_append, not_or] at absent
    rw [relink_node_of_not_mem (by tauto), nodes, adopt_node_of_not_mem absent.1.2]

end Unlink

/-! ## `rbtree_delete` -/

section Delete

variable [DecidableEq α] {p : Context α} {t l r : Bintree α} {c : Color} {y z : α}

/-- What unlinking a node does to the tree, the sentinel and the memory outside the tree. -/
structure Unlinked (st : St α π) (st' : St α π) (t' : Bintree α) : Prop where
  focus : Focus st' [] t'
  black : t'.color = .black
  balanced : ∃ m, BlackBalanced t' m
  empty : t' = .nil → st'.sentinel.parent = .null
  sentinel : ∃ q, st'.sentinel = { st.sentinel with parent := q }
  frame : ∀ a, a ∉ t'.labels → st'.node a = st.node a

omit [DecidableEq α] in
theorem onlyChild_balanced {n : Nat} (left : BlackBalanced l n) (right : BlackBalanced r n) :
    BlackBalanced (onlyChild l r) n := by
  cases l with
  | nil => exact right
  | node _ _ _ _ => exact left

theorem spliceOut_focus (focus : Focus st p (.node c l y r)) (single : l = .nil ∨ r = .nil)
    (sentinel : st.sentinel.color = .black) (root : (plug p (.node c l y r)).color = .black)
    (balanced : ∃ m, BlackBalanced (plug p (.node c l y r)) m) (payload : α → π)
    (copied : ∀ st' : St α π, st'.payload = st.payload →
      copyPayload st' z (.node y) = .ok { st' with payload := payload }) :
    ∃ st' t', Returns (spliceOut · st z (.node y)) st' ∧ Unlinked st st' t' ∧
      t'.labels = before p ++ (l.labels ++ r.labels) ++ after p ∧ st'.payload = payload := by
  obtain ⟨m, bal⟩ := balanced
  obtain ⟨n, inner, fits, top⟩ := BlackBalanced.unplug bal root
  obtain ⟨st₁, run₁, focus₁, home₁, payload₁, ⟨q, sentinel₁⟩, frame₁⟩ :=
    unlinkNode_focus focus single
  have labels : (plug p (onlyChild l r)).labels = before p ++ (l.labels ++ r.labels) ++ after p := by
    rw [plug_labels, onlyChild_labels single]
  have yGone : y ∉ (plug p (onlyChild l r)).labels := by
    have nodup := focus.nodup
    rw [plug_labels, Bintree.labels] at nodup
    rw [labels]
    grind
  generalize moved : ({ st₁ with payload := payload } : St α π) = st₂
  have colorY : st₂.color (.node y) = .ok c := by
    rw [← moved]
    exact color_node (n := ⟨c, ptr l, ptr r, parentOf p⟩) ((frame₁ y yGone).trans focus.tree.1)
  have focus₂ : Focus st₂ p (onlyChild l r) :=
    moved ▸ ⟨focus₁.path, focus₁.tree, focus₁.root, focus₁.nodup⟩
  have sentinel₂ : st₂.sentinel = { st.sentinel with parent := q } := by
    rw [← moved]; exact sentinel₁
  have home₂ : Home st₂ p (onlyChild l r) := moved ▸ home₁
  have frame₂ : ∀ a, a ∉ (plug p (onlyChild l r)).labels → st₂.node a = st.node a := moved ▸ frame₁
  have payload₂ : st₂.payload = payload := by rw [← moved]
  -- the tree becomes empty only when the hole was at the root
  have empty : (plug p (onlyChild l r)).labels = [] → st₂.sentinel.parent = .null := by
    intro none
    cases p with
    | nil =>
      refine home₂ ?_
      cases shape : onlyChild l r with
      | nil => rfl
      | node _ _ _ _ => simp [shape, plug, Bintree.labels] at none
    | cons f p =>
      have member : f.label ∈ (plug (f :: p) (onlyChild l r)).labels := by
        simp [plug, plug_labels, Frame.fill, Bintree.mem_labels_branch]
      rw [none] at member
      cases member
  have start : (spliceOut · st z (.node y)) =
      fun fuel => if c = .black then deleteFixup fuel st₂ (ptr (onlyChild l r)) else .ok st₂ := by
    funext fuel
    rw [spliceOut, run₁, ok_bind]
    show (copyPayload st₁ z (.node y) >>= _) = _
    rw [copied st₁ payload₁, ok_bind, moved, colorY, ok_bind]
    rfl
  rw [start]
  cases c with
  | black =>
    obtain ⟨k, rfl, balLeft, balRight⟩ := BlackBalanced.of_black (d := .left) inner
    obtain ⟨st', t', ended, change, black, balanced⟩ :=
      deleteFixup_focus focus₂ home₂ (by rw [sentinel₂]; exact sentinel)
      (onlyChild_balanced balLeft balRight).short fits
    refine ⟨st', t', ended,
      ⟨change.focus, black, balanced, ?_, ⟨q, ?_⟩, fun a absent => ?_⟩, ?_, ?_⟩
    · rintro rfl
      rw [change.keeps.sentinel]
      exact empty change.labels.symm
    · rw [change.keeps.sentinel, sentinel₂]
    · rw [change.labels] at absent
      rw [change.keeps.frame a absent, frame₂ a absent]
    · rw [change.labels, labels]
    · rw [change.keeps.payload, payload₂]
  | red =>
    obtain ⟨balLeft, balRight, leftBlack, rightBlack⟩ := BlackBalanced.of_red (d := .left) inner
    have childBlack : (onlyChild l r).color = .black := by
      cases l with
      | nil => exact rightBlack
      | node _ _ _ _ => exact leftBlack
    obtain ⟨m, whole, root⟩ := (onlyChild_balanced balLeft balRight).plug fits (.inl childBlack)
    have nonempty : p ≠ [] := (top.resolve_left (by simp [Bintree.color])).1
    exact ⟨st₂, plug p (onlyChild l r), .const st₂,
      ⟨focus_plug.mp focus₂, root nonempty, ⟨m, whole⟩,
      fun isNil => empty (by rw [isNil]; rfl), ⟨q, sentinel₂⟩, frame₂⟩, labels, payload₂⟩

/-- `rbtree_delete` of a linked node ends.  A node with at most one child is itself unlinked; a
node with two children takes over the payload of its successor, which is unlinked instead. -/
theorem rbtreeDelete_focus (focus : Focus st [] t) (black : t.color = .black)
    (balanced : ∃ m, BlackBalanced t m) (sentinel : st.sentinel.color = .black)
    (member : z ∈ t.labels) :
    ∃ st' t' lower upper n, Returns (rbtreeDelete · st z) st' ∧ Unlinked st st' t' ∧
      st.node z = some n ∧
      if n.left = .rbnil ∨ n.right = .rbnil then
        t.labels = lower ++ z :: upper ∧ t'.labels = lower ++ upper ∧ st'.payload = st.payload
      else
        ∃ y, t.labels = lower ++ z :: y :: upper ∧ t'.labels = lower ++ z :: upper ∧
          st'.payload = Function.update st.payload z (st.payload y) := by
  obtain ⟨p, c, l, r, rfl⟩ := exists_plug member
  have atZ := focus_plug.mpr focus
  have found : st.node z = some ⟨c, ptr l, ptr r, parentOf p⟩ := atZ.tree.1
  have choose : (spliceNode · st (.node z)) = fun fuel =>
      if ptr l = .rbnil then .ok (.node z)
      else if ptr r = .rbnil then .ok (.node z)
      else loop .fuel (leftmostStep st) fuel (ptr r) := by
    funext fuel
    rw [spliceNode, child_node found, ok_bind, child_node found, ok_bind]
    rfl
  by_cases single : l = .nil ∨ r = .nil
  · -- `z` itself is unlinked
    have self : Returns (spliceNode · st (.node z)) (.node z) := by
      rw [choose]
      rcases single with rfl | rfl
      · exact .const _
      · simp only [ptr, if_true, ite_self]
        exact .const _
    obtain ⟨st', t', ended, unlinked, labels, payload⟩ :=
      spliceOut_focus (z := z) atZ single sentinel black balanced
      st.payload fun st₁ same => by rw [copyPayload, if_pos rfl, ← same]
    refine ⟨st', t', before p ++ l.labels, r.labels ++ after p, _, .bind self ended,
      unlinked, found, ?_⟩
    rw [if_pos (by simpa [ptr_eq_rbnil] using single)]
    exact ⟨by simp [plug_labels, Bintree.labels], by simp [labels], payload⟩
  · -- the successor is unlinked and its payload moves to `z`
    obtain ⟨someLeft, someRight⟩ := not_or.mp single
    obtain ⟨p', c', y, r', ended₁, atY, whole, left⟩ :=
      leftmost_returns (p := ⟨.right, c, z, l⟩ :: p)
      (focus_cons.mpr atZ) someRight
    have self : Returns (spliceNode · st (.node z)) (.node y) := by
      rw [choose]
      simpa only [ptr_eq_rbnil, someLeft, someRight, if_false] using ended₁
    have whole' : plug p' (.node c' .nil y r') = plug p (.node c l z r) := whole
    have labels₀ : (plug p (.node c l z r)).labels = before p ++ l.labels ++ z :: y :: (r'.labels ++ after p') := by
      rw [← whole', plug_labels, left]
      simp [before, Bintree.labels]
    have differ : y ≠ z := by
      have nodup := atZ.nodup
      rw [labels₀] at nodup
      grind
    obtain ⟨st', t', ended₂, unlinked, labels, payload⟩ :=
      spliceOut_focus (z := z) atY (.inl rfl) sentinel
      (whole' ▸ black) (whole' ▸ balanced) (Function.update st.payload z (st.payload y))
      fun st₁ same => by
        rw [copyPayload, if_neg (by simpa using differ), ← same]
    refine ⟨st', t', before p ++ l.labels, r'.labels ++ after p', _, .bind self ended₂,
      unlinked, found, ?_⟩
    rw [if_neg (by simpa [ptr_eq_rbnil] using single)]
    refine ⟨y, labels₀, ?_, payload⟩
    rw [labels, left]
    simp [before, Bintree.labels]

end Delete

end Cask.RbTree
