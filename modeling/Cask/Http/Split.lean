import Mathlib.Data.List.DropRight
import Cask.Http.Text

/-! # The texts of tokens

`split` and `trim` as functions of texts.  The tokens of `split`, joined with the delimiter,
are the line again, and only the last one may contain a delimiter, when there was no place for
another token.  `trim` leaves the text between the blanks at its ends.
-/

namespace Cask.Http

open Storage

/-! ## Texts -/

/-- The texts are the line cut at its delimiters, from the first one on and into at most `limit`
parts. -/
structure Tokenised {α : Type} (delim : α) (limit : Nat) (line : List α) (texts : List (List α)) :
    Prop where
  nonempty : 1 ≤ texts.length
  atMost : texts.length ≤ limit
  joined : [delim].intercalate texts = line
  early : ∀ t ∈ texts.dropLast, delim ∉ t
  last : ∀ t ∈ texts.getLast?, delim ∈ t → texts.length = limit

section Tokenised

variable {α : Type} {delim : α} {limit : Nat} {line : List α} {texts : List (List α)}

/-- A line is its own only token when it has no delimiter or when there is place for one token. -/
theorem Tokenised.single (whole : delim ∈ line → limit = 1) (some : 1 ≤ limit) :
    Tokenised delim limit line [line] where
  nonempty := by simp
  atMost := some
  joined := by simp
  early := by simp
  last := by
    intro t isLast within
    obtain rfl : line = t := by simpa using isLast
    exact (whole within).symm

theorem Tokenised.cons {first : List α} (absent : delim ∉ first)
    (rest : Tokenised delim limit line texts) :
    Tokenised delim (limit + 1) (first ++ delim :: line) (first :: texts) := by
  have more : texts ≠ [] := by
    rintro rfl
    exact absurd rest.nonempty (by simp)
  refine ⟨by simp, by simpa using rest.atMost, ?_, ?_, ?_⟩
  · rw [List.intercalate_cons_of_ne_nil more, rest.joined]
    simp
  · rw [List.dropLast_cons_of_ne_nil more]
    intro t member
    obtain rfl | later := List.mem_cons.mp member
    · exact absent
    · exact rest.early t later
  · rw [List.getLast?_cons, List.getLast?_eq_some_getLast more]
    intro t isLast within
    have found : t ∈ texts.getLast? := by
      rw [List.getLast?_eq_some_getLast more]
      simpa using isLast
    rw [List.length_cons, rest.last t found within]

end Tokenised

variable {data : Image}

/-- The text of a token of the line at `base`, whose offsets count from `origin`. -/
def tokenText (data : Image) (base : Nat) (origin : Int) (s : Str) : List UInt8 :=
  text data ⟨base + (s.off - origin), s.len⟩

/-- The offsets that count from the line's place in the buffer are offsets of the buffer. -/
theorem tokenText_eq_text (base : Nat) (s : Str) : tokenText data base base s = text data s := by
  rw [tokenText, show (base : Int) + (s.off - base) = s.off by omega]

theorem tokenText_between {base start stop : Nat} {origin : Int} (order : start ≤ stop) :
    tokenText data base origin ⟨start + origin, (stop : Int) - start⟩ =
      data.slice (base + start) (stop - start) := by
  have off : ((base : Int) + (start + origin - origin)).toNat = base + start := by omega
  have len : ((stop : Int) - start).toNat = stop - start := by omega
  rw [tokenText, text, off, len]

theorem mem_slice {off len : Nat} {c : UInt8} :
    c ∈ data.slice off len ↔ ∃ i, i < len ∧ data.byte (off + i) = c := by
  simp [Image.slice]

/-! ## `split` -/

section Split

variable {base len stop start left more : Nat} {origin : Int} {delim : UInt8}

/-- The loop cuts the part of the line from `start` on.  What it has passed since then has no
delimiter. -/
theorem splitLoop_tokenised (order : start ≤ stop) (total : stop + left = len)
    (absent : ∀ i, start ≤ i → i < stop → data.byte (base + i) ≠ delim) :
    Tokenised delim (more + 1) (data.slice (base + start) (len - start))
      ((splitLoop data base origin len delim left stop start more).map
        (tokenText data base origin)) := by
  induction left generalizing stop start more with
  | zero =>
    -- the end of the line: nothing of the last token is left to look at
    obtain rfl : stop = len := by omega
    rw [splitLoop_ends (.inl rfl), List.map_singleton, tokenText_between order]
    refine .single (fun within => ?_) (by omega)
    obtain ⟨i, bound, found⟩ := mem_slice.mp within
    rw [Nat.add_assoc] at found
    exact absurd found (absent (start + i) (by omega) (by omega))
  | succ left ih =>
    cases more with
    | zero =>
      -- the last token takes the rest as it is
      rw [splitLoop_ends (.inr rfl), List.map_singleton, tokenText_between (by omega)]
      exact .single (fun _ => rfl) (by omega)
    | succ more =>
      rw [splitLoop]
      split
      · next found =>
        have here : data.slice (base + start) (len - start) = data.slice (base + start) (stop - start) ++
            delim :: data.slice (base + (stop + 1)) (len - (stop + 1)) := by
          rw [show len - start = stop - start + (1 + (len - (stop + 1))) by omega, Image.slice_add,
            Image.slice_add, show base + start + (stop - start) = base + stop by omega]
          simp [Image.slice, found, Nat.add_assoc]
        rw [List.map_cons, tokenText_between order, here]
        refine .cons (fun within => ?_) (ih (Nat.le_refl _) (by omega) fun i lower upper => by omega)
        obtain ⟨i, bound, found⟩ := mem_slice.mp within
        rw [Nat.add_assoc] at found
        exact absent (start + i) (by omega) (by omega) found
      · next differ =>
        refine ih (by omega) (by omega) fun i lower upper => ?_
        by_cases last : i = stop
        · rwa [last]
        · exact absent i lower (by omega)

theorem split_tokenised {num : Nat} (some : 1 ≤ num) :
    Tokenised delim num (data.slice base len)
      ((split data base len origin delim num).map (tokenText data base origin)) := by
  obtain ⟨more, rfl⟩ : ∃ more, num = more + 1 := ⟨num - 1, by omega⟩
  exact splitLoop_tokenised (Nat.le_refl 0) (by omega) fun i lower upper => by omega

end Split

/-! ## `trim` -/

section Trim

variable {left : Nat} {s : Str}

theorem text_cons (data : Image) (low : 0 ≤ s.off) (some : 0 < s.len) :
    text data s = data.byte s.off.toNat :: text data ⟨s.off + 1, s.len - 1⟩ := by
  have len : s.len.toNat = 1 + (s.len - 1).toNat := by omega
  have off : (s.off + 1).toNat = s.off.toNat + 1 := by omega
  rw [text, text, len, Image.slice_add, off]
  simp [Image.slice]

theorem text_concat (data : Image) (low : 0 ≤ s.off) (some : 0 < s.len) :
    text data s = text data ⟨s.off, s.len - 1⟩ ++ [data.byte (s.off + s.len - 1).toNat] := by
  have len : s.len.toNat = (s.len - 1).toNat + 1 := by omega
  have off : (s.off + s.len - 1).toNat = s.off.toNat + (s.len - 1).toNat := by omega
  rw [text, text, len, Image.slice_add, off]
  simp [Image.slice]

theorem text_empty (none : s.len.toNat = 0) : text data s = [] := by simp [text, Image.slice, none]

theorem trimFront_text (data : Image) (count : left = s.len.toNat) (low : 0 ≤ s.off) :
    text data (trimFront data left s) = (text data s).dropWhile isBlank ∧
      (trimFront data left s).off = s.off + ((text data s).takeWhile isBlank).length := by
  induction left generalizing s with
  | zero => simp [trimFront, text_empty count.symm]
  | succ left ih =>
    have whole := text_cons data low (by omega : 0 < s.len)
    rw [trimFront, whole]
    split
    · next blank =>
      have rest := ih (s := ⟨s.off + 1, s.len - 1⟩) (by dsimp only; omega) (by dsimp only; omega)
      simp only [List.dropWhile_cons, List.takeWhile_cons, blank, if_true, List.length_cons]
      exact ⟨rest.1, by rw [rest.2]; push_cast; omega⟩
    · next sharp =>
      rw [List.dropWhile_cons_of_neg sharp, List.takeWhile_cons_of_neg sharp]
      exact ⟨whole, by simp⟩

theorem trimBack_text (data : Image) (count : left = s.len.toNat) (low : 0 ≤ s.off) :
    text data (trimBack data left s) = (text data s).rdropWhile isBlank ∧
      (trimBack data left s).off = s.off := by
  induction left generalizing s with
  | zero => simp [trimBack, text_empty count.symm]
  | succ left ih =>
    have whole := text_concat data low (by omega : 0 < s.len)
    rw [trimBack, whole]
    split
    · next blank =>
      rw [List.rdropWhile_concat_pos _ _ _ blank]
      exact ih (s := ⟨s.off, s.len - 1⟩) (by dsimp only; omega) low
    · next sharp =>
      rw [List.rdropWhile_concat_neg _ _ _ sharp]
      exact ⟨whole, rfl⟩

theorem trim_text (data : Image) (low : 0 ≤ s.off) (positive : 0 ≤ s.len) :
    text data (trim data s) = ((text data s).dropWhile isBlank).rdropWhile isBlank ∧
      (trim data s).off = s.off + ((text data s).takeWhile isBlank).length := by
  obtain ⟨front, -⟩ := trimFront_spec data rfl low positive
  obtain ⟨text₁, off₁⟩ := trimFront_text data rfl low
  obtain ⟨text₂, off₂⟩ := trimBack_text data rfl (Int.le_trans low front)
  rw [trim, text₂, off₂, text₁, off₁]
  exact ⟨rfl, rfl⟩

end Trim

/-- Tokenising loses nothing, whatever the offsets of the tokens count from, and in particular
when they are offsets of the buffer.  Trimming removes the blanks at both ends and nothing else,
also from a range that is empty or all blank. -/
theorem tokenising_exact (data : Image) :
    (∀ (base len : Nat) (origin : Int) (delim : UInt8) (k : Nat), 1 ≤ k →
      (∀ s ∈ split data base len origin delim k, s.Within origin (origin + len)) ∧
        Tokenised delim k (data.slice base len)
          ((split data base len origin delim k).map (tokenText data base origin)) ∧
        Tokenised delim k (data.slice base len)
          ((split data base len base delim k).map (text data))) ∧
      ∀ s : Str, 0 ≤ s.off → 0 ≤ s.len →
        (trim data s).Within s.off (s.off + s.len) ∧
          (trim data s).off = s.off + ((text data s).takeWhile isBlank).length ∧
          text data (trim data s) = ((text data s).dropWhile isBlank).rdropWhile isBlank := by
  constructor
  · intro base len origin delim k some
    refine ⟨fun s member => split_within member, split_tokenised some, ?_⟩
    have inBuffer : tokenText data base base = text data := funext (tokenText_eq_text base)
    rw [← inBuffer]
    exact split_tokenised some
  · intro s low positive
    obtain ⟨kept, off⟩ := trim_text data low positive
    exact ⟨trim_within ⟨Int.le_refl _, positive, Int.le_refl _⟩, off, kept⟩

/-- A header line whose value contains the delimiter. -/
def hostLine : Image := Image.empty.write 0 (ascii "Host: a:b \r\n")

theorem tokenising_exact_hostLine :
    split hostLine 0 12 0 58 2 = [⟨0, 4⟩, ⟨5, 7⟩] ∧
      Tokenised 58 2 (hostLine.slice 0 12) ((split hostLine 0 12 0 58 2).map (text hostLine)) ∧
      trim hostLine ⟨5, 7⟩ = ⟨6, 3⟩ ∧
      text hostLine (trim hostLine ⟨5, 7⟩) =
        ((text hostLine ⟨5, 7⟩).dropWhile isBlank).rdropWhile isBlank := by
  have tokens := ((tokenising_exact hostLine).1 0 12 0 58 2 (by decide)).2.2
  have trimmed := (tokenising_exact hostLine).2 ⟨5, 7⟩ (by decide) (by decide)
  exact ⟨rfl, tokens, rfl, trimmed.2.2⟩

end Cask.Http
