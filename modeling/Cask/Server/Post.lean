import Cask.Connection.Response
import Cask.Db.Insert
import Cask.Http.Inside
import Cask.Http.Split
import Cask.Lib.CString
import Cask.Server.Paste

/-! # The id of a new paste

`post_callback` of `cask.c`.  It stores the body of the request and answers with the decimal
text of the new id, which `get_callback` reads back from the uri of a later request.  The text
is printed into an array of 20 bytes, and an id of 20 digits does not fit with its terminator.
-/

namespace Cask.Server

open Storage Http Conn Database

/-! ## `post_callback` -/

/-- What a callback did: the database it left behind, and the response that it sent. -/
structure Posted where
  db : Db
  response : HttpStatus × List UInt8

/-- The bytes of `tmp` that are sent as the id.  The length is the result of `snprintf`. -/
def idBody (tmp : Vector UInt8 20) (id : Nat) : List UInt8 :=
  let (printed, len) := snprintf tmp.toList (decimal id)
  printed.take len

/-- The value that is stored: the body, with its length as a `uint32_t`. -/
def pasteOf (req : Request) (buf : Buffer) : List UInt8 :=
  buf.data.slice req.body.off.toNat (insertLength req).toNat

/-- The call of `db_insert`.  A body whose length is negative counts as one of at least 2^31 bytes, and
`write_record` copies past the buffer as soon as it has memory for the record. -/
def insertPaste (fuel : Nat) (db : Db) (calls : InsertCalls) (req : Request) (buf : Buffer) :
    Except Stop InsertResult := do
  let res ← dbInsert fuel db (pasteOf req buf) calls
  if req.body.len < 0 ∧ res.result.isSome ∧ calls.malloc then throw .sigsegv
  return res

/-- `post_callback(req, db)`; `tmp` is what the array holds before it is written to.  `id` is set
whenever `db_insert` returns `OK`. -/
def postCallback (fuel : Nat) (db : Db) (calls : InsertCalls) (tmp : Vector UInt8 20) (req : Request)
    (buf : Buffer) : Except Stop Posted :=
  if req.body.len = 0 then .ok ⟨db, .status400, ascii "Error: Zero length paste"⟩
  else
    (insertPaste fuel db calls req buf).map fun res =>
      match res.ret with
      | .err => ⟨res.db, .status500, []⟩
      | .ok => ⟨res.db, .status200, idBody tmp (res.result.getD 0)⟩

/-! ## The text of the id -/

/-- The whole id fits in front of the terminator if it has at most 19 digits. -/
theorem idBody_eq_decimal (tmp : Vector UInt8 20) {id : Nat} (short : id < 10 ^ 19) :
    idBody tmp id = decimal id := by
  have room : (decimal id).length < tmp.toList.length := by
    rw [Vector.length_toList, Nat.lt_succ_iff]
    exact (decimal_length_le (by decide)).mpr short
  exact snprintf_fits room

/-- The terminator of a longer id is sent in the place of its last digit. -/
theorem idBody_cut (tmp : Vector UInt8 20) {id : Nat} (long : 10 ^ 19 ≤ id) :
    idBody tmp id = (decimal id).take 19 ++ [0] := by
  have full : tmp.toList.length ≤ (decimal id).length := by
    rw [Vector.length_toList, ← Nat.lt_iff_add_one_le, ← Nat.not_le,
      decimal_length_le (by decide)]
    omega
  have cut := snprintf_cut (by simp) full
  simp only [Vector.length_toList] at cut
  exact cut

theorem decimal_no_nul (id : Nat) : 0 ∉ decimal id := by
  intro member
  exact absurd ((decimal_digits id).2 0 member) (by decide)

theorem idBody_eq_iff (tmp : Vector UInt8 20) (id : Nat) : idBody tmp id = decimal id ↔ id < 10 ^ 19 := by
  constructor
  · intro same
    by_contra long
    rw [idBody_cut tmp (by omega)] at same
    refine decimal_no_nul id ?_
    rw [← same]
    simp
  · exact idBody_eq_decimal tmp

/-! ## The theorem -/

/-- The range is the uri of a status line that the parser accepted in this memory. -/
def ParsedUri (data : Image) (uri : Str) : Prop :=
  ∃ req req' lineLen, parseTokens req data lineLen = (.ok, req') ∧ req'.uri = uri

theorem ParsedUri.space {data : Image} {uri : Str} (parsed : ParsedUri data uri) :
    0 ≤ uri.off ∧ data.byte (uri.off + uri.len).toNat = 32 := by
  obtain ⟨req, req', lineLen, ok, rfl⟩ := parsed
  obtain rejected | ⟨method, version, uri, within, space, accepted⟩ :=
    parseTokens_cases req data lineLen
  · rw [rejected] at ok
    cases ok
  · rw [accepted] at ok
    cases ok
    exact ⟨within.1, space⟩

/-- The response names the paste `id`: its body is the id with a `Content-Length` that matches, and
a request for the uri of the body looks up the id. -/
structure NamesPaste (id : Nat) (response : HttpStatus × List UInt8) : Prop where
  body : response = (.status200, decimal id)
  sent : ∀ version keepAlive out, Granted out.2 → ∃ head,
    content (fillResponse version keepAlive response.1 response.2 out).1 =
      head ++ (contentLength ++ ascii ": " ++ decimal (decimal id).length ++ crlf ++ crlf) ++ decimal id
  found : ∀ fuel db calls req buf, ParsedUri buf.data req.uri →
    (text buf.data req.uri = 47 :: response.2 ∨ text buf.data req.uri = 47 :: (response.2 ++ [47])) →
    (getCallback fuel db calls req buf).lookups = [id]

/-- The uri of a paste has its slash, and something behind it. -/
theorem slash_of_text {data : Image} {uri : Str} {id : Nat} (low : 0 ≤ uri.off)
    (shape : text data uri = 47 :: decimal id ∨ text data uri = 47 :: (decimal id ++ [47])) :
    2 ≤ uri.len ∧ data.byte uri.off.toNat = 47 := by
  have some : 0 < (decimal id).length := List.length_pos_of_ne_nil (decimal_digits id).1
  have length : uri.len.toNat = (text data uri).length := by simp [text]
  have long : 2 ≤ uri.len := by
    obtain bare | slash := shape
    · rw [bare, List.length_cons] at length
      omega
    · rw [slash, List.length_cons, List.length_append] at length
      omega
  refine ⟨long, ?_⟩
  rw [text_cons data low (by omega)] at shape
  obtain bare | slash := shape
  · exact (List.cons.inj bare).1
  · exact (List.cons.inj slash).1

theorem namesPaste_decimal {id : Nat} (bound : id < 2 ^ 64) : NamesPaste id (.status200, decimal id) where
  body := rfl
  sent version keepAlive out granted := by
    have filled := (fillResponse_granted out granted version keepAlive .status200 (decimal id)).content
    exact ⟨_, filled⟩
  found := by
    intro fuel db calls req buf parsed uri
    obtain ⟨low, space⟩ := parsed.space
    obtain ⟨long, slash⟩ := slash_of_text low uri
    have paste : PasteUri (text buf.data req.uri) (digitsValue (decimal id)) := by
      obtain bare | slash := uri
      · rw [bare]
        exact .bare (decimal_digits id)
      · rw [slash]
        exact .slash (decimal_digits id)
    rw [digitsValue_decimal] at paste
    rw [getCallback_paste low long slash space paste, Nat.min_eq_left (by simp only [ullongMax]; omega)]

theorem insertPaste_eq {req : Request} (low : 0 ≤ req.body.len) (fuel : Nat) (db : Db) (calls : InsertCalls)
    (buf : Buffer) : insertPaste fuel db calls req buf = dbInsert fuel db (pasteOf req buf) calls := by
  have notNegative : ¬ req.body.len < 0 := Int.not_lt.mpr low
  rw [insertPaste]
  cases dbInsert fuel db (pasteOf req buf) calls with
  | error stop => rfl
  | ok res => simp only [notNegative, false_and, if_false, bind, Except.bind, pure, Except.pure]

theorem insertPaste_ok {fuel : Nat} {db : Db} {calls : InsertCalls} {req : Request} {buf : Buffer}
    {res : InsertResult} (returned : insertPaste fuel db calls req buf = .ok res) :
    dbInsert fuel db (pasteOf req buf) calls = .ok res := by
  obtain ⟨res', inserted, last⟩ := Fuel.bind_ok returned
  split at last
  · cases last
  · cases last
    exact inserted

theorem postCallback_stored {fuel id : Nat} {db : Db} {calls : InsertCalls} {req : Request}
    {buf : Buffer} {res : InsertResult} (nonempty : req.body.len ≠ 0)
    (returned : insertPaste fuel db calls req buf = .ok res) (ok : res.ret = .ok)
    (result : res.result = some id) (tmp : Vector UInt8 20) :
    postCallback fuel db calls tmp req buf = .ok ⟨res.db, .status200, idBody tmp id⟩ := by
  rw [postCallback, if_neg nonempty, returned]
  simp [Except.map, ok, result]

/-- For every insertion that goes through, the response to the request that led to it names the new
paste exactly if the id has at most 19 digits. -/
theorem postCallback_names {fuel : Nat} {db : Db} {calls : InsertCalls} {req : Request} {buf : Buffer}
    {res : InsertResult} (nonempty : req.body.len ≠ 0)
    (returned : insertPaste fuel db calls req buf = .ok res) (ok : res.ret = .ok)
    (tmp : Vector UInt8 20) :
    res.result = some db.id ∧ db.id < 2 ^ 64 ∧
      ∃ response, postCallback fuel db calls tmp req buf = .ok ⟨res.db, response⟩ ∧
        (NamesPaste db.id response ↔ db.id < 10 ^ 19) := by
  have result := dbInsert_result (insertPaste_ok returned) ok
  refine ⟨result, db.id_lt, _, postCallback_stored nonempty returned ok result tmp, ?_⟩
  rw [← idBody_eq_iff tmp]
  constructor
  · intro names
    exact congrArg Prod.snd names.body
  · intro same
    rw [same]
    exact namesPaste_decimal db.id_lt

/-- A database file of one empty bucket whose next id is `id`. -/
def idFile (id : Nat) : Image := Image.empty.write 0 (leBytes 8 id ++ leBytes 8 1 ++ leBytes 8 dbidFree)

def postX : Buffer := .holding (ascii "POST / HTTP/1.1\r\nContent-Length: 1\r\n\r\nx") []

def postXRequest : Request := { zeroed with body := ⟨38, 1⟩ }

theorem idFile_words (id : Nat) :
    (idFile id).readNat 0 8 = id % 256 ^ 8 ∧ (idFile id).readNat 8 8 = 1 ∧
      (idFile id).readNat 16 8 = dbidFree := by
  have laid : (idFile id).Holds 0 (leBytes 8 id ++ leBytes 8 1 ++ leBytes 8 dbidFree) :=
    Image.holds_write
  obtain ⟨header, table⟩ := laid.append
  obtain ⟨first, second⟩ := header.append
  rw [leBytes_length] at second
  rw [List.length_append, leBytes_length, leBytes_length] at table
  exact ⟨first.readNat, second.readNat, table.readNat⟩

/-- The insertion into the one bucket of such a file goes through. -/
theorem insertPaste_idFile (id : Nat) : ∃ res,
    insertPaste 0 ⟨idFile id, 24⟩ .succeed postXRequest postX = .ok res ∧ res.ret = .ok := by
  rw [insertPaste_eq (by decide)]
  obtain ⟨-, numBuckets, bucket⟩ := idFile_words id
  have one : (⟨idFile id, 24⟩ : Db).numBuckets = 1 := numBuckets
  have index : (⟨idFile id, 24⟩ : Db).index = 0 := by rw [Db.index, one, Nat.mod_one]
  have free : (⟨idFile id, 24⟩ : Db).bucket (⟨idFile id, 24⟩ : Db).index = dbidFree := by
    rw [index]
    exact bucket
  have size : (idFile id).size = 24 := rfl
  have accessible : Accessible ⟨idFile id, 24⟩ := by
    refine ⟨?_, show 0 < 24 by decide, by rw [one]; decide, mapped_inside ?_⟩
    · rw [size]
      decide
    · rw [index, size]
      exact ⟨Nat.le_refl 24, Nat.le_refl 24⟩
  exact ⟨_, dbInsert_free accessible rfl free, rfl⟩

theorem postCallback_names_seven : ∃ res response,
    insertPaste 0 ⟨idFile 7, 24⟩ .succeed postXRequest postX = .ok res ∧ res.result = some 7 ∧
      postCallback 0 ⟨idFile 7, 24⟩ .succeed (.replicate 20 0) postXRequest postX =
        .ok ⟨res.db, response⟩ ∧ NamesPaste 7 response := by
  obtain ⟨res, returned, ok⟩ := insertPaste_idFile 7
  obtain ⟨result, -, response, answered, names⟩ :=
    postCallback_names (by decide) returned ok (.replicate 20 0)
  have id : (⟨idFile 7, 24⟩ : Db).id = 7 := (idFile_words 7).1
  rw [id] at result names
  exact ⟨res, response, returned, result, answered, names.mpr (by decide)⟩

/-- In a file whose next id has 20 digits the paste is stored, and the response ends with a zero byte
where the last digit of the id should be. -/
theorem post_twenty_digits : ∃ db res,
    openDb (some (idFile (10 ^ 19))) ⟨1⟩ .succeed = .ok (some db, some (idFile (10 ^ 19))) ∧
      insertPaste 0 db .succeed postXRequest postX = .ok res ∧ res.ret = .ok ∧
      res.result = some (10 ^ 19) ∧
      ∀ tmp, ∃ response, postCallback 0 db .succeed tmp postXRequest postX = .ok ⟨res.db, response⟩ ∧
        response = (.status200, ascii "1000000000000000000" ++ [0]) ∧
        ¬ NamesPaste (10 ^ 19) response := by
  obtain ⟨res, returned, ok⟩ := insertPaste_idFile (10 ^ 19)
  have id : (⟨idFile (10 ^ 19), 24⟩ : Db).id = 10 ^ 19 := (idFile_words (10 ^ 19)).1
  have result := dbInsert_result (insertPaste_ok returned) ok
  rw [id] at result
  refine ⟨⟨idFile (10 ^ 19), 24⟩, res, rfl, returned, ok, result, fun tmp => ?_⟩
  have body : idBody tmp (10 ^ 19) = ascii "1000000000000000000" ++ [0] := idBody_cut tmp (Nat.le_refl _)
  refine ⟨_, postCallback_stored (by decide) returned ok result tmp, by rw [body], fun names => ?_⟩
  have same := congrArg Prod.snd names.body
  exact absurd ((idBody_eq_iff tmp _).mp same) (Nat.lt_irrefl _)

end Cask.Server
