import Mathlib.Data.List.Nodup
import Mathlib.Tactic.Common

/-! # The first hit, or else the best candidate

One pass over a list that leaves at the first hit and otherwise keeps the best candidate it
has seen, replacing it only by a heavier one.  What the pass picks is described without the
pass by `Picked`: the first hit if there is one, or else the earliest of the heaviest
candidates.
-/

namespace FirstBest

variable {α : Type} (hit candidate : α → Prop) [DecidablePred hit] [DecidablePred candidate]
  (weight : α → Nat)

/-- The pass from position `i` on, with the best candidate so far and its weight. -/
def pick : List α → Nat → Option Nat → Nat → Option Nat
  | [], _, best, _ => best
  | a :: rest, i, best, heaviest =>
    if hit a then some i
    else if candidate a ∧ heaviest < weight a then pick rest (i + 1) (some i) (weight a)
    else pick rest (i + 1) best heaviest

omit [DecidablePred hit] [DecidablePred candidate] in
/-- What is to be picked from `as`, as a position. -/
inductive Picked (as : List α) : Option Nat → Prop where
  | first {i : Nat} {a : α} (found : as[i]? = some a) (isHit : hit a)
      (earlier : ∀ j b, j < i → as[j]? = some b → ¬ hit b) : Picked as (some i)
  | best {i : Nat} {a : α} (noHit : ∀ b ∈ as, ¬ hit b) (found : as[i]? = some a)
      (isCandidate : candidate a) (heaviest : ∀ b ∈ as, candidate b → weight b ≤ weight a)
      (earlier : ∀ j b, j < i → as[j]? = some b → candidate b → weight b < weight a) : Picked as (some i)
  | nothing (noHit : ∀ b ∈ as, ¬ hit b) (noCandidate : ∀ b ∈ as, ¬ candidate b) : Picked as none

/-! ## The pass -/

/-- What the pass knows after the elements of `seen`, none of which is a hit. -/
inductive Kept (seen : List α) : Option Nat → Nat → Prop where
  | nothing (noCandidate : ∀ b ∈ seen, ¬ candidate b) : Kept seen none 0
  | best {i : Nat} {a : α} (found : seen[i]? = some a) (isCandidate : candidate a)
      (heaviest : ∀ b ∈ seen, candidate b → weight b ≤ weight a)
      (earlier : ∀ j b, j < i → seen[j]? = some b → candidate b → weight b < weight a) :
      Kept seen (some i) (weight a)

variable {hit candidate weight} {seen rest : List α} {a : α} {best : Option Nat} {heaviest : Nat}

omit [DecidablePred hit] [DecidablePred candidate]

theorem Kept.le (kept : Kept candidate weight seen best heaviest) {b : α} (member : b ∈ seen)
    (isCandidate : candidate b) : weight b ≤ heaviest := by
  cases kept with
  | nothing noCandidate => exact absurd isCandidate (noCandidate b member)
  | best _ _ heaviest _ => exact heaviest b member isCandidate

theorem mem_or_new {b : α} (member : b ∈ seen ++ [a]) : b ∈ seen ∨ b = a := by
  simpa using member

/-- A heavier candidate replaces the best one. -/
theorem Kept.replace (kept : Kept candidate weight seen best heaviest) (isCandidate : candidate a)
    (heavier : heaviest < weight a) :
    Kept candidate weight (seen ++ [a]) (some seen.length) (weight a) := by
  refine .best (by simp) isCandidate (fun b member isCandidate' => ?_) fun j b before found isCandidate' => ?_
  · obtain old | rfl := mem_or_new member
    · have := kept.le old isCandidate'
      omega
    · exact Nat.le_refl _
  · rw [List.getElem?_append_left before] at found
    have := kept.le (List.mem_of_getElem? found) isCandidate'
    omega

/-- Any other element leaves it as it is. -/
theorem Kept.skip (kept : Kept candidate weight seen best heaviest)
    (positive : candidate a → 0 < weight a) (lighter : ¬ (candidate a ∧ heaviest < weight a)) :
    Kept candidate weight (seen ++ [a]) best heaviest := by
  cases kept with
  | nothing noCandidate =>
    refine .nothing fun b member isCandidate => ?_
    obtain old | rfl := mem_or_new member
    · exact noCandidate b old isCandidate
    · exact lighter ⟨isCandidate, positive isCandidate⟩
  | @best i c found isCandidate heaviest earlier =>
    have early : i < seen.length := (List.getElem?_eq_some_iff.mp found).1
    refine .best ?_ isCandidate (fun b member isCandidate' => ?_) fun j b before found' => ?_
    · rwa [List.getElem?_append_left early]
    · obtain old | rfl := mem_or_new member
      · exact heaviest b old isCandidate'
      · by_contra heavier
        exact lighter ⟨isCandidate', by omega⟩
    · rw [List.getElem?_append_left (by omega)] at found'
      exact earlier j b before found'

theorem Kept.picked (kept : Kept candidate weight seen best heaviest) (noHit : ∀ b ∈ seen, ¬ hit b) :
    Picked hit candidate weight seen best := by
  cases kept with
  | nothing noCandidate => exact .nothing noHit noCandidate
  | best found isCandidate heaviest earlier => exact .best noHit found isCandidate heaviest earlier

variable [DecidablePred hit] [DecidablePred candidate]

theorem pick_from (positive : ∀ b ∈ rest, candidate b → 0 < weight b)
    (noHit : ∀ b ∈ seen, ¬ hit b) (kept : Kept candidate weight seen best heaviest) :
    Picked hit candidate weight (seen ++ rest)
      (pick hit candidate weight rest seen.length best heaviest) := by
  induction rest generalizing seen best heaviest with
  | nil =>
    rw [List.append_nil]
    exact kept.picked noHit
  | cons a rest ih =>
    rw [pick]
    split
    · next isHit =>
      -- the hit ends the pass, and no element before it was one
      refine .first (a := a) (by simp) isHit fun j b before found => ?_
      rw [List.getElem?_append_left before] at found
      exact noHit b (List.mem_of_getElem? found)
    · next notHit =>
      -- no hit: the element joins those that were seen
      have noHit' : ∀ b ∈ seen ++ [a], ¬ hit b := by
        intro b member
        obtain old | rfl := mem_or_new member
        · exact noHit b old
        · exact notHit
      have positive' : ∀ b ∈ rest, candidate b → 0 < weight b :=
        fun b member => positive b (List.mem_cons_of_mem _ member)
      have next := fun {best heaviest} (kept : Kept candidate weight (seen ++ [a]) best heaviest) =>
        ih positive' noHit' kept
      simp only [List.append_assoc, List.singleton_append, List.length_append, List.length_singleton] at next
      split
      · next better => exact next (kept.replace better.1 better.2)
      · next lighter => exact next (kept.skip (positive a List.mem_cons_self) lighter)

/-- The pass picks what is to be picked. -/
theorem pick_picked {as : List α} (positive : ∀ a ∈ as, candidate a → 0 < weight a) :
    Picked hit candidate weight as (pick hit candidate weight as 0 none 0) := by
  have noHit : ∀ b ∈ ([] : List α), ¬ hit b := by simp
  have start : Kept candidate weight [] none 0 := .nothing (by simp)
  have picked := pick_from positive noHit start
  exact picked

/-! ## The order of the list -/

omit [DecidablePred hit] [DecidablePred candidate]

/-- Where hits are unique, and candidates of one weight are, the element that is picked does not
depend on the order. -/
theorem Picked.perm {as bs : List α} {picked picked' : Option Nat} (same : as.Perm bs)
    (oneHit : ∀ a ∈ as, ∀ b ∈ as, hit a → hit b → a = b)
    (oneBest : ∀ a ∈ as, ∀ b ∈ as, candidate a → candidate b → weight a = weight b → a = b)
    (fromAs : Picked hit candidate weight as picked) (fromBs : Picked hit candidate weight bs picked') :
    picked.bind (as[·]?) = picked'.bind (bs[·]?) := by
  cases fromAs with
  | first found isHit _ =>
    cases fromBs with
    | first found' isHit' _ =>
      have inAs := List.mem_of_getElem? found
      have inAs' := same.mem_iff.mpr (List.mem_of_getElem? found')
      simp [found, found', oneHit _ inAs _ inAs' isHit isHit']
    | best noHit => exact absurd isHit (noHit _ (same.mem_iff.mp (List.mem_of_getElem? found)))
    | nothing noHit => exact absurd isHit (noHit _ (same.mem_iff.mp (List.mem_of_getElem? found)))
  | best noHit found isCandidate heaviest _ =>
    cases fromBs with
    | first found' isHit' => exact absurd isHit' (noHit _ (same.mem_iff.mpr (List.mem_of_getElem? found')))
    | best _ found' isCandidate' heaviest' _ =>
      have inAs := List.mem_of_getElem? found
      have inBs := List.mem_of_getElem? found'
      -- both are heaviest, so they weigh the same
      have weights := Nat.le_antisymm (heaviest' _ (same.mem_iff.mp inAs) isCandidate)
        (heaviest _ (same.mem_iff.mpr inBs) isCandidate')
      simp [found, found', oneBest _ inAs _ (same.mem_iff.mpr inBs) isCandidate isCandidate' weights]
    | nothing _ noCandidate =>
      exact absurd isCandidate (noCandidate _ (same.mem_iff.mp (List.mem_of_getElem? found)))
  | nothing noHit noCandidate =>
    cases fromBs with
    | first found' isHit' => exact absurd isHit' (noHit _ (same.mem_iff.mpr (List.mem_of_getElem? found')))
    | best _ found' isCandidate' =>
      exact absurd isCandidate' (noCandidate _ (same.mem_iff.mpr (List.mem_of_getElem? found')))
    | nothing => rfl

end FirstBest
