import Cask.Connection.Model
import Cask.Db.Model
import Cask.Http.Text

/-! # The paste callbacks

`get_callback` of `cask.c`.  It checks the uri byte by byte and then has `strtoull` scan it a
second time, on a buffer where nothing but the space behind the uri ends the number.

The database is the one of `db.c`; a callback is given the outcomes of the calls that it
leads to, and says which lookups it made.
-/

namespace Cask.Server

open Storage Http Conn Database

/-! ## `strtoull` -/

def ullongMax : Nat := 0xFFFFFFFFFFFFFFFF

/-- `strtoull(text, NULL, 10)`: blanks, a sign, digits.  A number out of range becomes the largest
one, and a minus sign negates in the unsigned type. -/
def strtoull (text : List UInt8) : Nat :=
  match text.dropWhile isSpace with
  | 45 :: rest =>
    let value := digitsValue (rest.takeWhile isDigit)
    if ullongMax < value then ullongMax else (2 ^ 64 - value) % 2 ^ 64
  | 43 :: rest => min (digitsValue (rest.takeWhile isDigit)) ullongMax
  | rest => min (digitsValue (rest.takeWhile isDigit)) ullongMax

theorem strtoull_digits {digits rest : List UInt8} (isNumber : Digits digits)
    (ends : ∀ c ∈ rest.head?, isDigit c = false) :
    strtoull (digits ++ rest) = min (digitsValue digits) ullongMax := by
  obtain ⟨d, more, kept, notMinus, notPlus, taken⟩ := scan_digits isNumber ends
  rw [strtoull, kept]
  split
  · next same => exact absurd (List.cons.inj same).1 notMinus
  · next same => exact absurd (List.cons.inj same).1 notPlus
  · rw [taken]

/-! ## `get_callback` -/

/-- The loop that validates the uri, at its `i`-th byte and with `left` bytes to go. -/
def validateLoop (data : Image) (uri : Str) : Nat → Int → Bool
  | 0, _ => true
  | left + 1, i =>
    let c := data.byte (uri.off + i).toNat
    -- the loop is left at a slash that ends the uri
    if !isDigit c then c = 47 && uri.len > 2 && i = uri.len - 1
    else validateLoop data uri left (i + 1)

/-- `strtoull(uri+1, NULL, 10)` -/
def uriId (data : Image) (uri : Str) : Nat :=
  strtoull (data.slice (uri.off + 1).toNat (data.size - (uri.off + 1).toNat))

/-- What a callback did: the ids it called `db_get` with, and the response that it sent. -/
structure Served where
  lookups : List Nat
  response : Except Stop (HttpStatus × List UInt8)

/-- The response to a lookup. -/
def pasteResponse : Option (List UInt8) → HttpStatus × List UInt8
  | some entry => (.status200, entry)
  | none => (.status404, ascii "Paste not found")

/-- `get_callback(req, db)` -/
def getCallback (fuel : Nat) (db : Db) (calls : GetCalls) (req : Request) (buf : Buffer) : Served :=
  if !validateLoop buf.data req.uri (req.uri.len - 1).toNat 1 then ⟨[], .ok (.status404, [])⟩
  else
    let id := uriId buf.data req.uri
    ⟨[id], (dbGet fuel db id calls).map pasteResponse⟩

/-! ## The grammar -/

/-- The uris of pastes: a slash, the digits of an id, and possibly one more slash. -/
inductive PasteUri : List UInt8 → Nat → Prop where
  | bare {digits : List UInt8} (isNumber : Digits digits) : PasteUri (47 :: digits) (digitsValue digits)
  | slash {digits : List UInt8} (isNumber : Digits digits) :
      PasteUri (47 :: (digits ++ [47])) (digitsValue digits)

def AllDigits (bytes : List UInt8) : Prop := ∀ c ∈ bytes, isDigit c = true

variable {data : Image} {uri : Str}

theorem slice_succ (off left : Nat) :
    data.slice off (left + 1) = data.byte off :: data.slice (off + 1) left := by
  rw [Nat.add_comm, Image.slice_add]
  rfl

/-- The loop accepts digits, and digits with one slash behind them if the uri is long enough. -/
theorem validateLoop_iff {left : Nat} {i : Int} (low : 0 ≤ uri.off + i) (ends : i + left = uri.len) :
    validateLoop data uri left i = true ↔
      AllDigits (data.slice (uri.off + i).toNat left) ∨
        2 < uri.len ∧ ∃ digits, data.slice (uri.off + i).toNat left = digits ++ [47] ∧ AllDigits digits := by
  induction left generalizing i with
  | zero => simp [validateLoop, Image.slice, AllDigits]
  | succ left ih =>
    have next : (uri.off + (i + 1)).toNat = (uri.off + i).toNat + 1 := by omega
    rw [validateLoop, slice_succ]
    cases digit : isDigit (data.byte (uri.off + i).toNat) with
    | true =>
      -- a digit: the rest of the loop decides
      have notSlash : data.byte (uri.off + i).toNat ≠ 47 := by
        intro same
        rw [same] at digit
        cases digit
      simp only [Bool.not_true, Bool.false_eq_true, if_false]
      rw [ih (by omega) (by omega), next]
      refine or_congr (by simp [AllDigits, digit]) (and_congr_right fun _ => ?_)
      constructor
      · rintro ⟨digits, shape, all⟩
        exact ⟨_ :: digits, by rw [shape]; rfl, List.forall_mem_cons.mpr ⟨digit, all⟩⟩
      · rintro ⟨digits, shape, all⟩
        cases digits with
        | nil => exact absurd (List.cons.inj shape).1 notSlash
        | cons d digits =>
          exact ⟨digits, (List.cons.inj shape).2, fun c member => all c (List.mem_cons_of_mem _ member)⟩
    | false =>
      -- no digit: it must be the slash at the end
      simp only [Bool.not_false, if_true, Bool.and_eq_true, decide_eq_true_eq]
      constructor
      · rintro ⟨⟨slash, long⟩, last⟩
        obtain rfl : left = 0 := by omega
        exact .inr ⟨long, [], by simp [slash, Image.slice], by simp [AllDigits]⟩
      · rintro (all | ⟨long, digits, shape, all⟩)
        · have := all _ List.mem_cons_self
          rw [digit] at this
          cases this
        · cases digits with
          | nil =>
            obtain ⟨slash, empty⟩ := List.cons.inj shape
            have done : left = 0 := by simpa using congrArg List.length empty
            exact ⟨⟨slash, long⟩, by omega⟩
          | cons d digits =>
            have := all d List.mem_cons_self
            rw [← (List.cons.inj shape).1, digit] at this
            cases this

/-! ## The theorem -/

section Callback

variable (low : 0 ≤ uri.off) (long : 2 ≤ uri.len) (slash : data.byte uri.off.toNat = 47)

include low long slash

/-- The uri is its slash and what the loop looks at. -/
theorem text_slash : text data uri = 47 :: data.slice (uri.off + 1).toNat (uri.len - 1).toNat := by
  have length : uri.len.toNat = (uri.len - 1).toNat + 1 := by omega
  have start : (uri.off + 1).toNat = uri.off.toNat + 1 := by omega
  rw [text, length, slice_succ, slash, start]

theorem validate_iff :
    validateLoop data uri (uri.len - 1).toNat 1 = true ↔ ∃ value, PasteUri (text data uri) value := by
  rw [validateLoop_iff (by omega) (by omega), text_slash low long slash]
  have length : (data.slice (uri.off + 1).toNat (uri.len - 1).toNat).length = (uri.len - 1).toNat :=
    Image.slice_length ..
  generalize data.slice (uri.off + 1).toNat (uri.len - 1).toNat = rest at length
  constructor
  · rintro (all | ⟨longer, digits, rfl, all⟩)
    · exact ⟨_, .bare ⟨fun empty => by rw [empty, List.length_nil] at length; omega, all⟩⟩
    · refine ⟨_, .slash ⟨fun empty => ?_, all⟩⟩
      rw [empty, List.nil_append, List.length_singleton] at length
      omega
  · rintro ⟨_, isNumber | ⟨nonempty, all⟩⟩
    · exact .inl isNumber.2
    · have more := List.length_pos_of_ne_nil nonempty
      rw [List.length_append, List.length_singleton] at length
      exact .inr ⟨by omega, _, rfl, all⟩

/-- The second scan reads the number that the first one accepted, and stops at the slash or the
space behind it. -/
theorem uriId_paste (space : data.byte (uri.off + uri.len).toNat = 32) {value : Nat}
    (paste : PasteUri (text data uri) value) : uriId data uri = min value ullongMax := by
  have inside : (uri.off + uri.len).toNat < data.size := by
    by_contra outside
    rw [data.zero_past_end _ (by omega)] at space
    cases space
  -- the bytes that `strtoull` is given
  obtain ⟨more, behind⟩ : ∃ more, data.slice (uri.off + 1).toNat (data.size - (uri.off + 1).toNat) =
      data.slice (uri.off + 1).toNat (uri.len - 1).toNat ++ 32 :: more := by
    have length : data.size - (uri.off + 1).toNat =
        (uri.len - 1).toNat + (data.size - (uri.off + uri.len).toNat - 1 + 1) := by omega
    have next : (uri.off + 1).toNat + (uri.len - 1).toNat = (uri.off + uri.len).toNat := by omega
    exact ⟨_, by rw [length, Image.slice_add, next, slice_succ, space]⟩
  rw [text_slash low long slash] at paste
  rw [uriId, behind]
  generalize data.slice (uri.off + 1).toNat (uri.len - 1).toNat = rest at paste
  cases paste with
  | bare isNumber => exact strtoull_digits isNumber fun c first => by cases first; rfl
  | slash isNumber =>
    rw [List.append_assoc]
    exact strtoull_digits isNumber fun c first => by cases first; rfl

end Callback

/-- A paste uri is looked up under its id. -/
theorem getCallback_paste {req : Request} {buf : Buffer} (low : 0 ≤ req.uri.off) (long : 2 ≤ req.uri.len)
    (slash : buf.data.byte req.uri.off.toNat = 47)
    (space : buf.data.byte (req.uri.off + req.uri.len).toNat = 32) {value : Nat}
    (paste : PasteUri (text buf.data req.uri) value) (fuel : Nat) (db : Db) (calls : GetCalls) :
    getCallback fuel db calls req buf =
      ⟨[min value ullongMax], (dbGet fuel db (min value ullongMax) calls).map pasteResponse⟩ := by
  have accepted := (validate_iff low long slash).mpr ⟨value, paste⟩
  simp only [getCallback, accepted, uriId_paste low long slash space paste, Bool.not_true,
    Bool.false_eq_true, if_false]

/-- For a uri of at least two bytes with a slash in front and a space behind, `get_callback` looks up
an id exactly when the uri is one of a paste, and then the id in the uri; any other uri is answered
with 404 and no body. -/
theorem getCallback_spec {req : Request} {buf : Buffer} (low : 0 ≤ req.uri.off) (long : 2 ≤ req.uri.len)
    (slash : buf.data.byte req.uri.off.toNat = 47)
    (space : buf.data.byte (req.uri.off + req.uri.len).toNat = 32) (fuel : Nat) (db : Db)
    (calls : GetCalls) :
    ((getCallback fuel db calls req buf).lookups ≠ [] ↔ ∃ value, PasteUri (text buf.data req.uri) value) ∧
      (∀ value, PasteUri (text buf.data req.uri) value →
        getCallback fuel db calls req buf =
          ⟨[min value ullongMax], (dbGet fuel db (min value ullongMax) calls).map pasteResponse⟩) ∧
      ((¬ ∃ value, PasteUri (text buf.data req.uri) value) →
        getCallback fuel db calls req buf = ⟨[], .ok (.status404, [])⟩) := by
  have valid := validate_iff low long slash
  rw [← valid]
  refine ⟨?_, fun value paste => getCallback_paste low long slash space paste fuel db calls,
    fun invalid => ?_⟩
  · cases accepted : validateLoop buf.data req.uri (req.uri.len - 1).toNat 1 with
    | false => simp only [getCallback, accepted, Bool.not_false, if_true, ne_eq, not_true_eq_false,
        Bool.false_eq_true]
    | true => simp only [getCallback, accepted, Bool.not_true, Bool.false_eq_true, if_false, ne_eq,
        reduceCtorEq, not_false_eq_true]
  · rw [Bool.not_eq_true] at invalid
    simp only [getCallback, invalid, Bool.not_false, if_true]

/-- `GET /12/` looks up the id 12. -/
theorem getCallback_spec_twelve :
    (getCallback 0 ⟨.empty, 0⟩ .succeed { zeroed with uri := ⟨4, 4⟩ }
      (.holding (ascii "GET /12/ HTTP/1.1") [])).lookups = [12] := by
  have digits : Digits (ascii "12") := ⟨by decide, List.all_eq_true.mp (by rfl)⟩
  have paste : PasteUri (ascii "/12/") 12 := PasteUri.slash digits
  have low : 0 ≤ ({ zeroed with uri := ⟨4, 4⟩ } : Request).uri.off := by decide
  have space : (Buffer.holding (ascii "GET /12/ HTTP/1.1") []).data.byte (4 + 4) = 32 := rfl
  have spec := getCallback_spec low (by decide) (by rfl) space 0 ⟨.empty, 0⟩ .succeed
  rw [spec.2.1 12 paste]
  rfl

end Cask.Server
