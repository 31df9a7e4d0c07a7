import Cask.Http.Model
import Cask.Lib.CString
import Cask.Lib.FirstBest

/-! # Routes

`route.c`, and of `array.h` what the table of routes uses.  `match_route` is one pass over
the table that leaves at an exact route and otherwise keeps the longest prefix seen so far.
It compares with `strncmp` on the request buffer, where the uri has no terminator and may be
shorter than the route; the space behind the uri is what keeps a longer route from matching.
-/

namespace Cask.Server

open Storage Http FirstBest

/-! ## The table -/

/-- `array.h`: the elements and the capacity of the header; a null pointer has none of both. -/
structure DynArray (α : Type) where
  items : List α
  cap : Nat
  fits : items.length ≤ cap

def DynArray.null {α : Type} : DynArray α := ⟨[], 0, Nat.le_refl 0⟩

/-- The capacity after `array_resize(arr, sz, elmsz)`. -/
def resizedCap (sz : Nat) : Nat := if sz = 0 then 1 else sz

/-- `array_push_back(a, item)`, with the memory for it at hand. -/
def DynArray.pushBack {α : Type} (a : DynArray α) (item : α) : DynArray α where
  items := a.items ++ [item]
  cap := if a.items.length = a.cap then resizedCap (a.items.length * 2) else a.cap
  fits := by
    have fits := a.fits
    simp only [List.length_append, List.length_singleton, resizedCap]
    split
    · split <;> omega
    · omega

inductive RouteMatch where
  | matchExact
  | matchPrefix
  deriving DecidableEq, Repr

/-- `struct route` -/
structure Route (κ δ : Type) where
  method : HttpMethod
  kind : RouteMatch
  uri : CString
  len : Nat
  cb : κ
  data : δ

variable {κ δ : Type}

/-- `add_route(method, match, uri, cb, data)` -/
def addRoute (routes : DynArray (Route κ δ)) (method : HttpMethod) (kind : RouteMatch) (uri : CString)
    (cb : κ) (data : δ) : DynArray (Route κ δ) :=
  routes.pushBack ⟨method, kind, uri, strlen uri, cb, data⟩

/-! ## `match_route` -/

/-- The loop of `match_route`: the rest of the table from position `i` on, `match` and `longest`. -/
def matchLoop (method : HttpMethod) (uri : Nat → UInt8) (len : Nat) :
    List (Route κ δ) → Nat → Option Nat → Nat → Option Nat
  | [], _, found, _ => found
  | route :: routes, i, found, longest =>
    if route.method ≠ method then matchLoop method uri len routes (i + 1) found longest
    else if route.kind = .matchExact then
      -- `ROUTE_MATCH_EXACT`
      if route.len = len then
        if strncmp route.uri.byte uri route.len = 0 then some i
        else matchLoop method uri len routes (i + 1) found longest
      else matchLoop method uri len routes (i + 1) found longest
    else if strncmp route.uri.byte uri route.len = 0 ∧ route.len > longest then
      -- the first of equally long prefixes stays
      matchLoop method uri len routes (i + 1) (some i) route.len
    else matchLoop method uri len routes (i + 1) found longest

/-- `match_route(method, uri, len)`, as a position in the table. -/
def matchRoute (routes : DynArray (Route κ δ)) (method : HttpMethod) (uri : Nat → UInt8) (len : Nat) :
    Option Nat :=
  matchLoop method uri len routes.items 0 none 0

/-! ## What is to be found -/

/-- The arguments of a call of `add_route`. -/
structure Addition (κ δ : Type) where
  method : HttpMethod
  kind : RouteMatch
  uri : CString
  cb : κ
  data : δ

def Addition.route (added : Addition κ δ) : Route κ δ :=
  ⟨added.method, added.kind, added.uri, strlen added.uri, added.cb, added.data⟩

/-- The table after the calls `added`. -/
def routesOf (added : List (Addition κ δ)) : DynArray (Route κ δ) :=
  added.foldl (fun routes call => addRoute routes call.method call.kind call.uri call.cb call.data) .null

/-- A uri that routes may be added for. -/
def Addition.Proper (added : Addition κ δ) : Prop := added.uri.bytes ≠ [] ∧ 32 ∉ added.uri.bytes

/-- The route of `method` for exactly this uri. -/
def Route.Exact (method : HttpMethod) (uri : List UInt8) (route : Route κ δ) : Prop :=
  route.method = method ∧ route.kind = .matchExact ∧ route.uri.bytes = uri

/-- A route of `method` for all uris that start as this one does. -/
def Route.Covers (method : HttpMethod) (uri : List UInt8) (route : Route κ δ) : Prop :=
  route.method = method ∧ route.kind = .matchPrefix ∧ route.uri.bytes <+: uri

/-- What two routes must not share. -/
def Addition.key (added : Addition κ δ) : HttpMethod × RouteMatch × CString :=
  (added.method, added.kind, added.uri)

theorem routesOf_items (added : List (Addition κ δ)) :
    (routesOf added).items = added.map Addition.route := by
  suffices appended : ∀ routes : DynArray (Route κ δ),
      (added.foldl (fun routes call => addRoute routes call.method call.kind call.uri call.cb call.data)
        routes).items = routes.items ++ added.map Addition.route by
    simpa [routesOf, DynArray.null] using appended .null
  induction added with
  | nil => simp
  | cons call added ih =>
    intro routes
    rw [List.foldl_cons, ih]
    simp [addRoute, DynArray.pushBack, Addition.route]

/-! ## The comparison -/

section Compare

variable {data : Image} {off len : Nat}

/-- A route without spaces agrees with the buffer exactly when it is the front of the uri. -/
theorem strncmp_uri {s : CString} (noSpace : 32 ∉ s.bytes) (space : data.byte (off + len) = 32) :
    strncmp s.byte (fun i => data.byte (off + i)) (strlen s) = 0 ↔ s.bytes <+: data.slice off len := by
  have inside : ∀ i, i < strlen s → s.byte i ∈ s.bytes := by
    intro i bound
    rw [CString.byte, List.getD_eq_getElem _ _ bound]
    exact List.getElem_mem bound
  rw [strncmp_strlen]
  constructor
  · intro agree
    -- a longer route would have the space behind the uri
    have short : strlen s ≤ len := by
      by_contra long
      have same := agree len (by omega)
      rw [space] at same
      exact noSpace (same ▸ inside len (by omega))
    rw [List.prefix_iff_eq_take]
    apply List.ext_getElem
    · simp only [List.length_take, Image.slice_length]
      exact (Nat.min_eq_left short).symm
    · intro i bound bound'
      have same := agree i bound
      rw [CString.byte, List.getD_eq_getElem _ _ bound] at same
      simp [same, Image.slice]
  · rintro ⟨rest, whole⟩ i bound
    have short : strlen s ≤ len := by
      have total := congrArg List.length whole
      rw [List.length_append, Image.slice_length] at total
      simp only [strlen]
      omega
    rw [← Image.slice_getD (by omega : i < len), ← whole, List.getD_append _ _ _ _ bound]
    rfl

end Compare

/-! ## The theorem -/

instance (method : HttpMethod) (uri : List UInt8) :
    DecidablePred (Route.Exact (κ := κ) (δ := δ) method uri) :=
  fun _ => inferInstanceAs (Decidable (_ ∧ _ ∧ _))

instance (method : HttpMethod) (uri : List UInt8) :
    DecidablePred (Route.Covers (κ := κ) (δ := δ) method uri) :=
  fun _ => inferInstanceAs (Decidable (_ ∧ _ ∧ _))

section Routing

variable {method : HttpMethod} {data : Image} {off len : Nat}

/-- What the loop of `match_route` asks of a route, as a pass over the table. -/
theorem matchLoop_eq_pick {added : List (Addition κ δ)} (proper : ∀ call ∈ added, call.Proper)
    (space : data.byte (off + len) = 32) (i : Nat) (found : Option Nat) (longest : Nat) :
    matchLoop method (fun i => data.byte (off + i)) len (added.map Addition.route) i found longest =
      pick (Route.Exact method (data.slice off len)) (Route.Covers method (data.slice off len))
        (fun route => strlen route.uri) (added.map Addition.route) i found longest := by
  induction added generalizing i found longest with
  | nil => rfl
  | cons call added ih =>
    have ih := ih fun call' member => proper call' (List.mem_cons_of_mem _ member)
    have compare : strncmp call.uri.byte (fun i => data.byte (off + i)) (strlen call.uri) = 0 ↔
        call.uri.bytes <+: data.slice off len :=
      strncmp_uri (proper call List.mem_cons_self).2 space
    -- of equal length, the front of the uri is the uri
    have whole : strlen call.uri = len ∧ call.uri.bytes <+: data.slice off len ↔
        call.uri.bytes = data.slice off len := by
      constructor
      · rintro ⟨length, front⟩
        exact front.eq_of_length (by rw [Image.slice_length]; exact length)
      · intro same
        exact ⟨by rw [strlen, same, Image.slice_length], same ▸ List.prefix_refl _⟩
    simp only [List.map_cons, matchLoop, pick, Route.Exact, Route.Covers, Addition.route, compare, ih,
      gt_iff_lt]
    by_cases own : call.method = method
    · cases call.kind with
      | matchExact =>
        simp only [own, ne_eq, not_true_eq_false, if_false, if_true, true_and, reduceCtorEq, false_and,
          ← whole]
        by_cases length : strlen call.uri = len <;> simp [length]
      | matchPrefix =>
        simp only [own, ne_eq, not_true_eq_false, if_false, true_and, reduceCtorEq, false_and]
    · simp only [own, ne_eq, not_false_eq_true, if_true, if_false, false_and]

/-- `match_route`, as the route that it returns. -/
def matchedRoute (routes : DynArray (Route κ δ)) (method : HttpMethod) (uri : Nat → UInt8) (len : Nat) :
    Option (Route κ δ) :=
  (matchRoute routes method uri len).bind (routes.items[·]?)

theorem matchRoute_picked {added : List (Addition κ δ)} (proper : ∀ call ∈ added, call.Proper)
    (space : data.byte (off + len) = 32) :
    Picked (Route.Exact method (data.slice off len)) (Route.Covers method (data.slice off len))
      (fun route => strlen route.uri) (routesOf added).items
      (matchRoute (routesOf added) method (fun i => data.byte (off + i)) len) := by
  rw [matchRoute, routesOf_items, matchLoop_eq_pick proper space]
  refine pick_picked fun route member _ => ?_
  obtain ⟨call, inAdded, rfl⟩ := List.mem_map.mp member
  exact List.length_pos_of_ne_nil (proper call inAdded).1

/-- Routes whose uris have the same bytes, with the same method and kind, come from one call. -/
theorem route_unique {added : List (Addition κ δ)} (distinct : (added.map Addition.key).Nodup)
    {a b : Route κ δ} (inA : a ∈ added.map Addition.route) (inB : b ∈ added.map Addition.route)
    (method : a.method = b.method) (kind : a.kind = b.kind) (uri : a.uri.bytes = b.uri.bytes) : a = b := by
  obtain ⟨call, member, rfl⟩ := List.mem_map.mp inA
  obtain ⟨call', member', rfl⟩ := List.mem_map.mp inB
  have keys : call.key = call'.key := by
    have strings : call.uri = call'.uri := by
      cases h : call.uri
      cases h' : call'.uri
      simpa [Addition.route, h, h'] using uri
    exact Prod.ext method (Prod.ext kind strings)
  rw [List.inj_on_of_nodup_map distinct member member' keys]

variable (method) in
/-- `match_route` finds the earliest exact route of the uri, or else the earliest of the longest
prefixes of the uri, or nothing.  Where no two routes share method, kind and uri, the order of the
calls of `add_route` makes no difference. -/
theorem matchRoute_spec {added : List (Addition κ δ)} (proper : ∀ call ∈ added, call.Proper)
    (space : data.byte (off + len) = 32) :
    Picked (Route.Exact method (data.slice off len)) (Route.Covers method (data.slice off len))
        (fun route => strlen route.uri) (routesOf added).items
        (matchRoute (routesOf added) method (fun i => data.byte (off + i)) len) ∧
      ∀ reordered, added.Perm reordered → (added.map Addition.key).Nodup →
        matchedRoute (routesOf reordered) method (fun i => data.byte (off + i)) len =
          matchedRoute (routesOf added) method (fun i => data.byte (off + i)) len := by
  refine ⟨matchRoute_picked proper space, fun reordered same distinct => ?_⟩
  have proper' : ∀ call ∈ reordered, call.Proper := fun call member => proper call (same.mem_iff.mpr member)
  have tables : (routesOf added).items.Perm (routesOf reordered).items := by
    rw [routesOf_items, routesOf_items]
    exact same.map _
  symm
  refine Picked.perm tables ?_ ?_ (matchRoute_picked proper space) (matchRoute_picked proper' space)
  · rintro a inA b inB ⟨method, kind, uri⟩ ⟨method', kind', uri'⟩
    rw [routesOf_items] at inA inB
    exact route_unique distinct inA inB (method.trans method'.symm) (kind.trans kind'.symm)
      (uri.trans uri'.symm)
  · rintro a inA b inB ⟨method, kind, front⟩ ⟨method', kind', front'⟩ length
    rw [routesOf_items] at inA inB
    refine route_unique distinct inA inB (method.trans method'.symm) (kind.trans kind'.symm) ?_
    -- two fronts of one uri that are equally long
    exact (List.prefix_of_prefix_length_le front front' (Nat.le_of_eq length)).eq_of_length length

end Routing

/-! ## The routes of the server -/

/-- The callbacks that `main` registers. -/
inductive Handler where
  | indexCallback
  | getCallback
  | postCallback
  deriving DecidableEq, Repr

/-- What `main` passes along with them. -/
inductive HandlerData where
  | file
  | db
  deriving DecidableEq, Repr

/-- The calls of `add_route` in `main`. -/
def mainRoutes : List (Addition Handler HandlerData) :=
  let slash : CString := ⟨[47], by decide⟩
  [⟨.get, .matchExact, slash, .indexCallback, .file⟩, ⟨.get, .matchPrefix, slash, .getCallback, .db⟩,
    ⟨.post, .matchExact, slash, .postCallback, .db⟩]

theorem mainRoutes_proper : ∀ call ∈ mainRoutes, call.Proper := by
  simp [mainRoutes, Addition.Proper]

/-- `GET /5` goes to the paste callback, in whatever order the routes are added. -/
theorem matchRoute_spec_paste :
    Picked (Route.Exact .get (ascii "/5")) (Route.Covers .get (ascii "/5")) (fun route => strlen route.uri)
        (routesOf mainRoutes).items (some 1) ∧
      ∀ reordered, mainRoutes.Perm reordered →
        (matchedRoute (routesOf reordered) .get
          (fun i => (Buffer.holding (ascii "GET /5 HTTP/1.1") []).data.byte (4 + i)) 2).map Route.cb =
          some .getCallback := by
  have space : (Buffer.holding (ascii "GET /5 HTTP/1.1") []).data.byte (4 + 2) = 32 := rfl
  have spec := matchRoute_spec .get mainRoutes_proper space
  refine ⟨spec.1, fun reordered same => ?_⟩
  rw [spec.2 reordered same (by decide)]
  rfl

end Cask.Server
