import Cask.Connection.Service
import Cask.Db.AppendMap
import Cask.Server.Post
import Cask.Server.Route

/-! # The pastebin

What `main` puts together: the routes, the callbacks behind them, the index page of `file.c` and
the database.  A visitor sees a list of pastes, each under the number of pastes that were there
before it.  The list is nowhere in the program; the database file and the buffers of the
connections together behave as if it were.
-/

namespace Cask.Server

open Storage Http Conn Database FirstBest Fuel

/-! ## The index page -/

/-- `errno`, as far as `map_file` tells it apart. -/
inductive Errno where
  | enoent
  | eacces
  | other
  deriving DecidableEq, Repr

inductive FileError where
  | notFound
  | noPerm
  | unknown
  deriving DecidableEq, Repr

/-- `struct file`; `data` is `NULL` unless the file was mapped. -/
structure File where
  size : Nat
  data : Option (List UInt8)
  error : Option FileError

/-- The answers to the calls of `map_file`: why `stat` and `open` failed, and whether `mmap` went
through. -/
structure MapCalls where
  stat : Option Errno
  openFile : Option Errno
  mmap : Bool
  deriving DecidableEq

def MapCalls.succeed : MapCalls := ⟨none, none, true⟩

def Errno.fileError : Errno → FileError
  | .enoent => .notFound
  | .eacces => .noPerm
  | .other => .unknown

/-- `map_file(path)`, where the file holds `content`. -/
def mapFile (content : List UInt8) (calls : MapCalls) : File :=
  match calls.stat with
  | some errno => ⟨0, none, some errno.fileError⟩
  | none =>
    match calls.openFile with
    | some errno => ⟨0, none, some errno.fileError⟩
    | none =>
      -- a mapping of no bytes is refused
      if !calls.mmap || content.length = 0 then ⟨0, none, some .unknown⟩
      else ⟨content.length, some content, none⟩

/-- `index_callback(req, file)` -/
def indexCallback (file : File) : HttpStatus × List UInt8 :=
  if file.size ≠ 0 then (.status200, (file.data.getD []).take file.size)
  else (.status200, ascii "Index.")

/-! ## Dispatch -/

/-- `route_404(req)` -/
def route404 : HttpStatus × List UInt8 := (.status404, [])

/-- The answers to the calls that a callback leads to, and what is in its array of 20 bytes. -/
structure AppCalls where
  get : GetCalls
  insert : InsertCalls
  tmp : Vector UInt8 20

/-- `(size_t)len` -/
def sizeT (len : Int) : Nat := (len % 2 ^ 64).toNat

/-- `route->cb(req, route->data)`; the routes carry the file and the database. -/
def callHandler (file : File) (fuel : Nat) (db : Db) (calls : AppCalls) (req : Request) (buf : Buffer) :
    Handler → Except Stop (HttpStatus × List UInt8 × Db)
  | .indexCallback => .ok ((indexCallback file).1, (indexCallback file).2, db)
  | .getCallback => (getCallback fuel db calls.get req buf).response.map fun res => (res.1, res.2, db)
  | .postCallback =>
    (postCallback fuel db calls.insert calls.tmp req buf).map fun res =>
      (res.response.1, res.response.2, res.db)

/-- What `read_data` does with a request that is complete: the callback of the route that matches, or
`route_404`. -/
def dispatch (file : File) (fuel : Nat) (db : Db) (calls : AppCalls) (req : Request) (buf : Buffer) :
    Except Stop (HttpStatus × List UInt8 × Db) :=
  match matchedRoute (routesOf mainRoutes) req.method (fun i => buf.data.byte (req.uri.off.toNat + i))
    (sizeT req.uri.len) with
  | some route => callHandler file fuel db calls req buf route.cb
  | none => .ok (route404.1, route404.2, db)

/-- The handler of a request, by its method and its uri. -/
def handlerOf (method : HttpMethod) (uri : List UInt8) : Option Handler :=
  match method, uri with
  | .get, [47] => some .indexCallback
  | .get, 47 :: _ => some .getCallback
  | .post, [47] => some .postCallback
  | _, _ => none

theorem handlerOf_get {method : HttpMethod} {uri : List UInt8}
    (routed : handlerOf method uri = some .getCallback) : ∃ rest, uri = 47 :: rest ∧ rest ≠ [] := by
  unfold handlerOf at routed
  split at routed
  · cases routed
  · next rest long => exact ⟨rest, rfl, fun none => long (by rw [none])⟩
  · cases routed
  · cases routed

theorem handlerOf_post {method : HttpMethod} {uri : List UInt8} :
    handlerOf method uri = some .postCallback ↔ method = .post ∧ uri = [47] := by
  constructor
  · intro routed
    unfold handlerOf at routed
    split at routed
    · cases routed
    · cases routed
    · exact ⟨rfl, rfl⟩
    · cases routed
  · rintro ⟨rfl, rfl⟩
    rfl

theorem matchedRoute_main (method : HttpMethod) {data : Image} {off len : Nat}
    (space : data.byte (off + len) = 32) :
    (matchedRoute (routesOf mainRoutes) method (fun i => data.byte (off + i)) len).map Route.cb =
      handlerOf method (data.slice off len) := by
  rw [matchedRoute, matchRoute, routesOf_items, matchLoop_eq_pick mainRoutes_proper space]
  generalize data.slice off len = uri
  simp only [mainRoutes, List.map_cons, List.map_nil, Addition.route, pick, Route.Exact, Route.Covers, strlen]
  cases uri with
  | nil => cases method <;> simp [handlerOf]
  | cons c rest =>
    by_cases slash : c = 47
    · subst slash
      cases rest <;> cases method <;> simp [handlerOf]
    · cases method <;> simp [handlerOf, slash, Ne.symm slash]

theorem sizeT_of_nat {len : Int} (low : 0 ≤ len) (high : len < 2 ^ 64) : sizeT len = len.toNat := by
  rw [sizeT, Int.emod_eq_of_lt low high]

theorem dispatch_handed {message : Message} {req : Request} {buf : Buffer} (regular : Regular message)
    (handed : Handed message buf req) (file : File) (fuel : Nat) (db : Db) (calls : AppCalls) :
    dispatch file fuel db calls req buf =
      match handlerOf message.method message.uri with
      | some handler => callHandler file fuel db calls req buf handler
      | none => .ok (route404.1, route404.2, db) := by
  have bound : req.uri.len < 2 ^ 64 := by
    have length := congrArg List.length handed.uri
    have small := regular.2.2
    simp only [text, Image.slice_length] at length
    simp only [serialise, requestLine, List.length_append] at small
    omega
  have space : buf.data.byte (req.uri.off.toNat + req.uri.len.toNat) = 32 := by
    rw [← handed.space, Int.toNat_add handed.uriOff handed.uriLen]
  have routed := matchedRoute_main req.method space
  rw [show buf.data.slice req.uri.off.toNat req.uri.len.toNat = message.uri from handed.uri,
    handed.method] at routed
  rw [dispatch, sizeT_of_nat handed.uriLen bound, handed.method, ← routed]
  cases matchedRoute (routesOf mainRoutes) message.method (fun i => buf.data.byte (req.uri.off.toNat + i))
    req.uri.len.toNat <;> rfl

/-! ## What a visitor sees -/

/-- The id in the uri of a paste. -/
def pasteId : List UInt8 → Option Nat
  | 47 :: rest =>
    let digits := if rest.getLast? = some 47 then rest.dropLast else rest
    if digits ≠ [] ∧ digits.all isDigit then some (digitsValue digits) else none
  | _ => none

theorem pasteId_eq_some {uri : List UInt8} {id : Nat} : pasteId uri = some id ↔ PasteUri uri id := by
  constructor
  · intro found
    unfold pasteId at found
    split at found
    · next rest =>
      rw [Option.ite_none_right_eq_some] at found
      obtain ⟨⟨nonempty, all⟩, value⟩ := found
      cases value
      rw [List.all_eq_true] at all
      by_cases slash : rest.getLast? = some 47
      · rw [if_pos slash] at nonempty all ⊢
        have whole : rest = rest.dropLast ++ [47] := (List.dropLast_append_getLast? 47 slash).symm
        have paste : PasteUri (47 :: (rest.dropLast ++ [47])) (digitsValue rest.dropLast) :=
          .slash ⟨nonempty, all⟩
        rwa [← whole] at paste
      · rw [if_neg slash] at nonempty all ⊢
        exact .bare ⟨nonempty, all⟩
    · cases found
  · intro paste
    cases paste with
    | @bare digits isNumber =>
      have last : digits.getLast? ≠ some 47 := by
        intro slash
        have digit := isNumber.2 47 (List.mem_of_getLast? slash)
        exact absurd digit (by decide)
      have all : digits.all isDigit = true := List.all_eq_true.mpr isNumber.2
      simp [pasteId, last, isNumber.1, all]
    | @slash digits isNumber =>
      have all : digits.all isDigit = true := List.all_eq_true.mpr isNumber.2
      simp [pasteId, isNumber.1, all]

/-- The message adds a paste. -/
def Stores (message : Message) : Prop :=
  message.method = .post ∧ message.uri = [47] ∧ message.body ≠ []

instance : DecidablePred Stores := fun _ => inferInstanceAs (Decidable (_ ∧ _ ∧ _))

/-- The pastebin: the state are the pastes, in the order in which they came. -/
def pastebin (index : List UInt8) : Service (List (List UInt8)) := fun pastes message =>
  match handlerOf message.method message.uri with
  | some .indexCallback => (.status200, index, pastes)
  | some .getCallback =>
    match pasteId message.uri with
    | none => (.status404, [], pastes)
    | some id =>
      match pastes[id]? with
      | some paste => (.status200, paste, pastes)
      | none => (.status404, ascii "Paste not found", pastes)
  | some .postCallback =>
    if message.body = [] then (.status400, ascii "Error: Zero length paste", pastes)
    else (.status200, decimal pastes.length, pastes ++ [message.body])
  | none => (.status404, [], pastes)

/-- The pastes that some messages add. -/
def posted (messages : List Message) : List (List UInt8) := (messages.filter Stores).map Message.body

/-! ## The pastes in the database -/

section Keeps

variable {n : Nat} {db : Db} {pastes : List (List UInt8)}

/-- The length of the file of a database with `n` buckets that holds the pastes. -/
def fileSize (n : Nat) (pastes : List (List UInt8)) : Nat :=
  sizeofHeader + sizeofDbid * n + recordSpace pastes

/-- The database holds the pastes, each in a bucket of its own. -/
structure Keeps (n : Nat) (db : Db) (pastes : List (List UInt8)) : Prop where
  tidy : Database.Tidy n pastes.length db
  stored : Stored pastes.length db pastes
  room : pastes.length ≤ n
  lengths : ∀ paste ∈ pastes, paste.length < 2 ^ 32
  size : db.file.size = fileSize n pastes

theorem Keeps.few (keeps : Keeps n db pastes) : n < 2 ^ 60 := by
  have present := keeps.tidy.sound.table_present
  have limit := keeps.tidy.sound.size_lt
  simp only [sizeofHeader, sizeofDbid, offLimit] at present limit
  omega

/-- A lookup finds the paste of its number, and nothing under a number that is not in use. -/
theorem Keeps.get (keeps : Keeps n db pastes) {id : Nat} (bound : id < 2 ^ 64) :
    Returns (dbGet · db id .succeed) pastes[id]? := by
  have room := keeps.room
  have few := keeps.few
  by_cases used : id < pastes.length
  · obtain ⟨holds, inside⟩ := keeps.stored id used
    rw [List.getD_eq_getElem _ _ used] at holds inside
    rw [List.getElem?_eq_getElem used]
    exact keeps.tidy.get_stored (by omega) used bound (keeps.lengths _ (List.getElem_mem used)) holds inside
  · rw [List.getElem?_eq_none (by omega)]
    by_cases empty : pastes.length ≤ id % n
    · exact keeps.tidy.get_empty empty
    · -- the bucket holds the paste of another number
      have small := Nat.mod_le id n
      have other : id % n < pastes.length := by omega
      obtain ⟨holds, -⟩ := keeps.stored (id % n) other
      rw [List.getD_eq_getElem _ _ other] at holds
      obtain ⟨-, idField, -⟩ :=
        holds_record holds (by omega) (keeps.lengths _ (List.getElem_mem other))
      apply keeps.tidy.get_other other
      rw [idField]
      omega

theorem fileSize_append (n : Nat) (pastes : List (List UInt8)) (paste : List UInt8) :
    fileSize n (pastes ++ [paste]) = fileSize n pastes + (recHdrSize + paste.length) := by
  simp [fileSize, recordSpace, Nat.add_assoc]

/-- A new paste gets the number of those that are there. -/
theorem Keeps.insert {paste : List UInt8} (keeps : Keeps n db pastes) (early : pastes.length < n)
    (nonempty : paste ≠ []) (short : paste.length < 2 ^ 32)
    (fits : fileSize n (pastes ++ [paste]) < offLimit) :
    ∃ res, Returns (dbInsert · db paste .succeed) res ∧ res.ret = .ok ∧
      res.result = some pastes.length ∧ Keeps n res.db (pastes ++ [paste]) := by
  have few := keeps.few
  have positive : 1 ≤ paste.length := List.length_pos_iff.mpr nonempty
  rw [fileSize_append, ← keeps.size] at fits
  obtain ⟨res, ended, appended⟩ := keeps.tidy.append (by omega) positive fits
  refine ⟨res, ⟨2, ended⟩, appended.ret, appended.inserted.result appended.ret, ?_, ?_, ?_, ?_, ?_⟩
  · rw [List.length_append]
    exact keeps.tidy.appended (by omega) positive short appended
  · rw [List.length_append]
    exact keeps.stored.appended keeps.tidy early appended
  · rw [List.length_append, List.length_singleton]
    exact early
  · intro other member
    obtain old | new := List.mem_append.mp member
    · exact keeps.lengths other old
    · cases List.mem_singleton.mp new
      exact short
  · rw [appended.size, keeps.size, fileSize_append]

/-- A database that has just been created holds nothing. -/
theorem keeps_created {calls : OpenCalls} {disk : Option Image} (positive : 1 ≤ n)
    (fits : fileSize n [] < 2 ^ 64) (created : openDb none ⟨n⟩ calls = .ok (some db, disk)) :
    Keeps n db [] := by
  obtain ⟨rfl, small⟩ := openDb_created (by simpa [fileSize, recordSpace] using fits) created
  refine ⟨fresh_tidy positive small, ?_, Nat.zero_le n, by simp, ?_⟩
  · intro i used
    exact absurd used (Nat.not_lt_zero i)
  · simp [freshFile_size, fileSize, recordSpace]

/-- The database of a later start of the server is the one that was closed. -/
theorem Keeps.reopened {db' : Db} {params : DbParams} {calls : OpenCalls} {disk : Option Image}
    (keeps : Keeps n db pastes) (opened : openDb (some (closeDb db)) params calls = .ok (some db', disk)) :
    Keeps n db' pastes := by
  have sound := keeps.tidy.sound
  have few := keeps.few
  have mapped : tableEnd (db.file.readNat 8 8) = db.mapSize := by
    have same : db.file.readNat 8 8 = n := sound.numBuckets
    rw [same, sound.mapSize, tableEnd]
    simp only [sizeofHeader, sizeofDbid]
    omega
  rw [openDb_again mapped opened]
  exact keeps

end Keeps

/-! ## The callbacks -/

/-- There is a bucket, and room in the file, for the paste that the message brings. -/
def HasRoom (n : Nat) (pastes : List (List UInt8)) (message : Message) : Prop :=
  Stores message → pastes.length < n ∧ fileSize n (pastes ++ [message.body]) < offLimit

section Callbacks

variable {n : Nat} {db : Db} {pastes : List (List UInt8)} {message : Message} {req : Request} {buf : Buffer}

/-- `get_callback` on a uri of at least two bytes. -/
theorem getCallback_handed (keeps : Keeps n db pastes) (handed : Handed message buf req) {rest : List UInt8}
    (shape : message.uri = 47 :: rest) (nonempty : rest ≠ []) :
    Returns (fun fuel => (getCallback fuel db .succeed req buf).response)
      (match pasteId message.uri with
      | none => (.status404, [])
      | some id => pasteResponse pastes[id]?) := by
  have positive := List.length_pos_iff.mpr nonempty
  have length : req.uri.len.toNat = rest.length + 1 := by
    have same := congrArg List.length handed.uri
    rwa [text, Image.slice_length, shape, List.length_cons] at same
  have slash : buf.data.byte req.uri.off.toNat = 47 := by
    have same := handed.uri
    rw [text_cons buf.data handed.uriOff (by omega), shape] at same
    exact (List.cons.inj same).1
  cases found : pasteId message.uri with
  | none =>
    have invalid : validateLoop buf.data req.uri (req.uri.len - 1).toNat 1 = false := by
      rw [← Bool.not_eq_true, validate_iff handed.uriOff (by omega) slash, handed.uri]
      rintro ⟨id, paste⟩
      rw [pasteId_eq_some.mpr paste] at found
      cases found
    simp only [getCallback, invalid, Bool.not_false, if_true]
    exact .const _
  | some id =>
    have paste : PasteUri (text buf.data req.uri) id := by
      rw [handed.uri]
      exact pasteId_eq_some.mp found
    simp only [getCallback_paste handed.uriOff (by omega) slash handed.space paste]
    -- a number that is too large has become one that is not in use
    have same : pastes[id]? = pastes[min id ullongMax]? := by
      have few := keeps.few
      have room := keeps.room
      by_cases large : ullongMax < id
      · simp only [ullongMax] at large ⊢
        rw [List.getElem?_eq_none (by omega), List.getElem?_eq_none (by omega)]
      · rw [Nat.min_eq_left (by omega)]
    rw [same]
    exact (keeps.get (by simp only [ullongMax]; omega)).map pasteResponse

theorem postCallback_handed (keeps : Keeps n db pastes) (regular : Regular message)
    (handed : Handed message buf req) (tmp : Vector UInt8 20)
    (room : message.body ≠ [] → pastes.length < n ∧ fileSize n (pastes ++ [message.body]) < offLimit) :
    ∃ db', Keeps n db' (if message.body = [] then pastes else pastes ++ [message.body]) ∧
      Returns (postCallback · db .succeed tmp req buf)
        ⟨db', if message.body = [] then (.status400, ascii "Error: Zero length paste")
          else (.status200, decimal pastes.length)⟩ := by
  have length : req.body.len.toNat = message.body.length := by
    have same := congrArg List.length handed.body
    rwa [text, Image.slice_length] at same
  have low := handed.bodyLen
  have limit := regular.1.limit
  by_cases empty : message.body = []
  · have zero : req.body.len = 0 := by
      rw [empty, List.length_nil] at length
      omega
    simp only [postCallback, if_pos zero, if_pos empty]
    exact ⟨db, keeps, .const _⟩
  · have positive := List.length_pos_iff.mpr empty
    have nonzero : req.body.len ≠ 0 := by omega
    have stored : pasteOf req buf = message.body := by
      have announced := insertLength_eq low (by omega)
      rw [pasteOf, ← handed.body, text]
      congr 1
      omega
    have bound : maxBody < 2 ^ 32 := by decide
    obtain ⟨early, fits⟩ := room empty
    obtain ⟨res, ⟨enough, ended⟩, ok, result, keeps'⟩ := keeps.insert early empty (by omega) fits
    have few := keeps.few
    simp only [if_neg empty]
    refine ⟨res.db, keeps', enough, fun fuel more => ?_⟩
    have returned : insertPaste fuel db .succeed req buf = .ok res := by
      rw [insertPaste_eq low, stored]
      exact ended fuel more
    dsimp only
    rw [postCallback_stored nonzero returned ok result, idBody_eq_decimal tmp (by omega)]

/-- One request: the code returns, with the response and the state of the pastebin. -/
theorem dispatch_pastebin (keeps : Keeps n db pastes) (room : HasRoom n pastes message)
    (regular : Regular message) (handed : Handed message buf req) (file : File) (tmp : Vector UInt8 20) :
    ∃ db', Keeps n db' (pastebin (indexCallback file).2 pastes message).2.2 ∧
      Returns (dispatch file · db ⟨.succeed, .succeed, tmp⟩ req buf)
        ((pastebin (indexCallback file).2 pastes message).1,
          (pastebin (indexCallback file).2 pastes message).2.1, db') := by
  simp only [dispatch_handed regular handed, pastebin]
  cases routed : handlerOf message.method message.uri with
  | none => exact ⟨db, keeps, .const _⟩
  | some handler =>
    cases handler with
    | indexCallback =>
      have found : (indexCallback file).1 = .status200 := by
        rw [indexCallback]
        split <;> rfl
      simp only [callHandler, found]
      exact ⟨db, keeps, .const _⟩
    | getCallback =>
      obtain ⟨rest, shape, nonempty⟩ := handlerOf_get routed
      have answered := getCallback_handed keeps handed shape nonempty
      simp only [callHandler]
      cases found : pasteId message.uri with
      | none =>
        rw [found] at answered
        exact ⟨db, keeps, answered.map _⟩
      | some id =>
        rw [found] at answered
        dsimp only at answered ⊢
        cases shown : pastes[id]? with
        | none =>
          rw [shown] at answered
          exact ⟨db, keeps, answered.map _⟩
        | some paste =>
          rw [shown] at answered
          exact ⟨db, keeps, answered.map _⟩
    | postCallback =>
      obtain ⟨method, uri⟩ := handlerOf_post.mp routed
      obtain ⟨db', keeps', answered⟩ :=
        postCallback_handed keeps regular handed tmp fun nonempty => room ⟨method, uri, nonempty⟩
      simp only [callHandler]
      refine ⟨db', ?_⟩
      by_cases empty : message.body = []
      · simp only [if_pos empty] at keeps' answered ⊢
        exact ⟨keeps', answered.map _⟩
      · simp only [if_neg empty] at keeps' answered ⊢
        exact ⟨keeps', answered.map _⟩

end Callbacks

/-! ## Every run of the server -/

theorem pastebin_pastes (index : List UInt8) (pastes : List (List UInt8)) (message : Message) :
    (pastebin index pastes message).2.2 = pastes ++ posted [message] := by
  have stores : Stores message ↔
      handlerOf message.method message.uri = some .postCallback ∧ message.body ≠ [] := by
    rw [handlerOf_post, and_assoc, Stores]
  simp only [pastebin, posted, List.filter_cons, List.filter_nil, decide_eq_true_eq, stores]
  cases routed : handlerOf message.method message.uri with
  | none => simp
  | some handler =>
    cases handler with
    | indexCallback => simp
    | getCallback =>
      dsimp only
      cases pasteId message.uri with
      | none => simp
      | some id => cases shown : pastes[id]? <;> simp [shown]
    | postCallback =>
      by_cases empty : message.body = []
      · simp [empty]
      · simp [empty]

theorem posted_append (messages later : List Message) :
    posted (messages ++ later) = posted messages ++ posted later := by
  simp [posted]

theorem run_pastebin (index : List UInt8) (pastes : List (List UInt8)) (messages : List Message) :
    ((pastebin index).run pastes messages).2 = pastes ++ posted messages := by
  induction messages generalizing pastes with
  | nil => simp [Service.run, posted]
  | cons message messages ih =>
    have first : posted (message :: messages) = posted [message] ++ posted messages :=
      posted_append [message] messages
    simp only [Service.run, ih, pastebin_pastes, first, List.append_assoc]

theorem fileSize_le (n : Nat) (pastes more : List (List UInt8)) :
    fileSize n pastes ≤ fileSize n (pastes ++ more) := by
  simp [fileSize, recordSpace]

/-- If all the pastes of some messages have room together, each has when it comes. -/
theorem allows_of_room {n : Nat} {pastes : List (List UInt8)} {messages : List Message} (index : List UInt8)
    (few : (pastes ++ posted messages).length ≤ n)
    (fits : fileSize n (pastes ++ posted messages) < offLimit) :
    (pastebin index).Allows (HasRoom n) pastes messages := by
  induction messages generalizing pastes with
  | nil => trivial
  | cons message messages ih =>
    have split : pastes ++ posted (message :: messages) = (pastes ++ posted [message]) ++ posted messages := by
      rw [List.append_assoc, ← posted_append]
      rfl
    rw [split] at few fits
    constructor
    · intro stores
      have one : posted [message] = [message.body] := by simp [posted, stores]
      rw [one] at few fits
      simp only [List.length_append, List.length_singleton] at few
      exact ⟨by omega, Nat.lt_of_le_of_lt (fileSize_le n _ _) fits⟩
    · rw [pastebin_pastes]
      exact ih few fits

/-- The callbacks of a server: what `dispatch` returns, whatever is in the array of `post_callback`. -/
def Follows (file : File) (callback : Callback Db) : Prop :=
  ∀ db req buf, ∃ tmp, ∀ res,
    Returns (dispatch file · db ⟨.succeed, .succeed, tmp⟩ req buf) res → callback db req buf = res

/-- A connection that waits, and the messages that arrive on it. -/
structure Client (callback : Callback Db) (c : Connection) (io : Io Db) (messages : List (Message × List Recv)) :
    Prop where
  waits : Waits c io
  regular : ∀ part ∈ messages, Regular part.1
  brings : ∀ part ∈ messages, Brings part.1 part.2
  recvs : io.recvs = (messages.map (·.2)).flatten
  clean : StopsClean callback c io (messages.map (·.1))

/-- The database of a server that was started with `n` buckets, after clients and restarts; `history`
are the messages of all clients so far. -/
inductive Lived (callback : Callback Db) (n : Nat) : Db → List Message → Prop where
  | created {db : Db} {calls : OpenCalls} {disk : Option Image}
      (created : openDb none ⟨n⟩ calls = .ok (some db, disk)) : Lived callback n db []
  | reopened {db db' : Db} {params : DbParams} {calls : OpenCalls} {disk : Option Image} {history : List Message}
      (before : Lived callback n db history)
      (opened : openDb (some (closeDb db)) params calls = .ok (some db', disk)) : Lived callback n db' history
  | visited {c c' : Connection} {io io' : Io Db} {history : List Message} {replies : List (Reply Db)}
      {messages : List (Message × List Recv)} (before : Lived callback n io.app history)
      (client : Client callback c io messages) (session : Session callback c io replies (some c', io'))
      (all : replies.length = messages.length) : Lived callback n io'.app (history ++ messages.map (·.1))

section Server

variable {file : File} {callback : Callback Db} {n : Nat} {c : Connection} {io : Io Db} {history : List Message}
  {messages : List (Message × List Recv)}

theorem Follows.implements (follows : Follows file callback) (n : Nat) :
    Implements callback (pastebin (indexCallback file).2) (Keeps n) (HasRoom n) := by
  intro db pastes message buf req keeps room regular handed
  obtain ⟨tmp, follows⟩ := follows db req buf
  obtain ⟨db', keeps', answered⟩ := dispatch_pastebin keeps room regular handed file tmp
  exact ⟨db', keeps', follows _ answered⟩

theorem Client.served {pastes : List (List UInt8)} (client : Client callback c io messages)
    (follows : Follows file callback) (keeps : Keeps n io.app pastes)
    (few : (pastes ++ posted (messages.map (·.1))).length ≤ n)
    (fits : fileSize n (pastes ++ posted (messages.map (·.1))) < offLimit) :
    ∃ replies c' io', Session callback c io replies (some c', io') ∧ replies.length = messages.length ∧
      (∀ reply result, ¬ Exchange callback c' io' reply result) ∧
      Keeps n io'.app (pastes ++ posted (messages.map (·.1))) ∧
      io'.sent = io.sent ++ (((pastebin (indexCallback file).2).run pastes (messages.map (·.1))).1.map
        keptText).flatten := by
  obtain ⟨waits, regular, brings, recvs, clean⟩ := client
  have allows := allows_of_room (indexCallback file).2 few fits
  obtain ⟨replies, c', io', session, length, waits', keeps', used, sent⟩ :=
    (follows.implements n).session [] .start waits rfl messages regular brings recvs keeps allows clean
  rw [run_pastebin] at keeps'
  refine ⟨replies, c', io', session, length, fun reply result exchange => ?_, keeps', sent⟩
  have fewer := exchange.chunks waits'.untouched
  rw [used] at fewer
  exact absurd fewer (Nat.not_lt_zero _)

theorem Lived.keeps {db : Db} (lived : Lived callback n db history) (follows : Follows file callback)
    (positive : 1 ≤ n) (few : (posted history).length ≤ n) (fits : fileSize n (posted history) < offLimit) :
    Keeps n db (posted history) := by
  induction lived with
  | created created =>
    have limit : offLimit < 2 ^ 64 := by decide
    exact keeps_created positive (Nat.lt_trans fits limit) created
  | reopened _ opened ih => exact (ih few fits).reopened opened
  | @visited c c' io io' history replies messages _ client session all ih =>
    rw [posted_append] at few fits ⊢
    rw [List.length_append] at few
    have keeps := ih (by omega) (Nat.lt_of_le_of_lt (fileSize_le n _ _) fits)
    obtain ⟨replies₁, c₁, io₁, session₁, length, stopped, keeps₁, -⟩ :=
      client.served follows keeps (by rwa [List.length_append]) fits
    cases session₁.eq_of_length stopped session (all.trans length.symm)
    exact keeps₁

/-- In every run of a server, through restarts and with any clients before, a client gets the
responses of the pastebin with the pastes of all messages so far, and nothing else, as long as no
bucket is used twice and the file stays within its limit. -/
theorem pastebin_served (follows : Follows file callback) (positive : 1 ≤ n)
    (lived : Lived callback n io.app history) (client : Client callback c io messages)
    (few : (posted (history ++ messages.map (·.1))).length ≤ n)
    (fits : fileSize n (posted (history ++ messages.map (·.1))) < offLimit) :
    ∃ replies c' io', Session callback c io replies (some c', io') ∧ replies.length = messages.length ∧
      io'.sent = io.sent ++ (((pastebin (indexCallback file).2).run (posted history)
        (messages.map (·.1))).1.map keptText).flatten ∧
      ∀ replies' result, Session callback c io replies' result → replies' <+: replies := by
  rw [posted_append] at few fits
  have before : (posted history).length ≤ n := by
    rw [List.length_append] at few
    omega
  have keeps := lived.keeps follows positive before (Nat.lt_of_le_of_lt (fileSize_le n _ _) fits)
  obtain ⟨replies, c', io', session, length, stopped, -, sent⟩ := client.served follows keeps few fits
  exact ⟨replies, c', io', session, length, sent, fun replies' result => session.prefix_of_stopped stopped⟩

end Server

/-! ### A paste and its visitor -/

open Classical in
/-- Callbacks that follow the code. -/
noncomputable def following (file : File) : Callback Db := fun db req buf =>
  if returns : ∃ res, Returns (dispatch file · db ⟨.succeed, .succeed, .replicate 20 0⟩ req buf) res then
    returns.choose
  else (.status500, [], db)

theorem follows_following (file : File) : Follows file (following file) := by
  intro db req buf
  refine ⟨.replicate 20 0, fun res returned => ?_⟩
  have returns : ∃ res, Returns (dispatch file · db ⟨.succeed, .succeed, .replicate 20 0⟩ req buf) res :=
    ⟨res, returned⟩
  rw [following, dif_pos returns]
  exact returns.choose_spec.unique returned

def postHi : Message := ⟨.post, ascii "/", .http11, [(ascii "Content-Length", ascii "2")], ascii "hi"⟩

def getZero : Message := ⟨.get, ascii "/0", .http11, [], []⟩

def postHiChunk : Chunk := ⟨serialise postHi, by decide +kernel, by decide +kernel⟩

def getZeroChunk : Chunk := ⟨serialise getZero, by decide +kernel, by decide +kernel⟩

def hiThenZero : List (Message × List Recv) :=
  [(postHi, [.data postHiChunk, .again]), (getZero, [.data getZeroChunk, .again])]

/-- A connection to a server with a new database of two buckets. -/
def visitor : Io Db :=
  ⟨(hiThenZero.map (·.2)).flatten, [], [], [], some .epollin, [], [],
    ⟨freshFile 2, sizeofHeader + sizeofDbid * 2⟩⟩

theorem postHi_plain : postHi.Plain where
  uri := by decide +kernel
  count := by decide
  keys := by
    intro header member
    cases List.mem_singleton.mp member
    refine ⟨by decide +kernel, by decide +kernel, ?_⟩
    rintro c (first | last)
    · cases first
      rfl
    · cases last
      rfl
  values := by
    intro header member
    cases List.mem_singleton.mp member
    refine ⟨by decide +kernel, ?_⟩
    rintro c (first | last)
    · cases first
      rfl
    · cases last
      rfl
  limit := by decide
  length := by
    have digits : Digits (ascii "2") := ⟨by decide, List.all_eq_true.mp (by rfl)⟩
    exact ⟨digits, rfl⟩

theorem getZero_plain : getZero.Plain :=
  ⟨by decide +kernel, by decide, by simp [getZero], by simp [getZero], by decide, rfl⟩

theorem hiThenZero_regular : ∀ part ∈ hiThenZero, Regular part.1 := by
  intro part member
  simp only [hiThenZero, List.mem_cons, List.not_mem_nil, or_false] at member
  obtain rfl | rfl := member
  · exact ⟨postHi_plain, rfl, by decide +kernel⟩
  · exact ⟨getZero_plain, rfl, by decide +kernel⟩

theorem visitor_client (file : File) : Client (following file) accepted visitor hiThenZero := by
  have waits : Waits accepted visitor :=
    ⟨⟨rfl, rfl, rfl, rfl, rfl, rfl, by simp [visitor]⟩, by simp [visitor, Granted], by simp [visitor, Polite]⟩
  have pieces : ∀ part ∈ hiThenZero, ∃ chunk, part.2 = [.data chunk, .again] ∧ chunk.bytes = serialise part.1 := by
    simp [hiThenZero, postHiChunk, getZeroChunk]
  refine ⟨waits, hiThenZero_regular, fun part member => ?_, rfl,
    stopsClean_of_pieces _ waits hiThenZero_regular pieces rfl⟩
  obtain ⟨chunk, piece, bytes⟩ := pieces part member
  rw [piece]
  exact ⟨by simpa [received] using bytes, [], chunk, rfl, by simp⟩

/-- The visitor posts `hi` and gets it back. -/
theorem pastebin_served_hi : ∃ replies c' io',
    Session (following (mapFile [] .succeed)) accepted visitor replies (some c', io') ∧
      io'.sent = keptText (.status200, ascii "0") ++ keptText (.status200, ascii "hi") := by
  have created : openDb none ⟨2⟩ .succeed = .ok (some visitor.app, some (freshFile 2)) := openDb_fresh (by decide)
  obtain ⟨replies, c', io', session, -, sent, -⟩ :=
    pastebin_served (follows_following (mapFile [] .succeed)) (by decide) (.created created)
      (visitor_client (mapFile [] .succeed)) (by decide) (by decide)
  refine ⟨replies, c', io', session, ?_⟩
  rw [sent]
  rfl

end Cask.Server
