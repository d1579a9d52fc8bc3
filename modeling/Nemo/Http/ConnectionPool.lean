import Mathlib.Data.List.Nodup
import Nemo.Infra.Lts

/-!
# The connection pool of the HTTP client

`HttpConnectionPool::getConnection` and `doRequest` in `src/net/http/http_connection.cc`. The pool keeps
the connections it has handed out: the scan takes the first one of the list, erases what stands before it,
and leaves no mark on it. A new connection is put into the list without the mutex; here this is one
step all the same.

`usedAlone_of_reachable` says in which runs a connection serves one request at a time.
-/

namespace Nemo.Http

open Function (update)
open Infra

/-- A `HttpConnection` by the number of the `make_unique` that made it. -/
abbrev ConnectionId := Nat

/-- A `HttpConnection`. Nothing sets `createTime_`. -/
structure HttpConnection where
  isConnect : Bool := true
  createTime : UInt64 := 0

/-- Where a `doRequest` is. -/
inductive PooledRequest
  /-- the scan has found no connection -/
  | connecting
  /-- it has made a connection, which is not in the list yet -/
  | created (c : ConnectionId)
  /-- `getConnection` has returned the connection -/
  | got (c : ConnectionId)
  /-- it has sent the request -/
  | sent (c : ConnectionId)
  deriving DecidableEq

/-- The connection that a request has. -/
def PooledRequest.connection : PooledRequest → Option ConnectionId
  | .connecting => none
  | .created c | .got c | .sent c => some c

/-- `HttpConnectionPool`, with the connections that have been destroyed and the requests in progress. -/
structure HttpConnectionPool (R : Type) where
  connection : ConnectionId → HttpConnection := fun _ => {}
  made : Nat := 0
  connections : List ConnectionId := []
  destroyed : List ConnectionId := []
  requests : R → Option PooledRequest := fun _ => none

/-- The steps of a request. -/
inductive RequestStep (R : Type)
  /-- the loop over the list, under the mutex -/
  | scan (r : R) (nowMillionSeconds : UInt64)
  /-- no address, no socket, or no connection -/
  | connectFails (r : R)
  | create (r : R)
  | insert (r : R)
  /-- `sendRequest`, and whether all was written -/
  | send (r : R) (ok : Bool)
  /-- `recvResponse`, and whether there is a response -/
  | receive (r : R) (ok : Bool)

namespace HttpConnectionPool

variable {R : Type}

/-- The test by which the scan erases a connection. -/
def expired (connection : ConnectionId → HttpConnection) (maxAliveTime : UInt32) (now : UInt64)
    (c : ConnectionId) : Bool :=
  !(connection c).isConnect || (connection c).createTime + maxAliveTime.toUInt64 > now

/-- What the scan erases. -/
def erased (s : HttpConnectionPool R) (maxAliveTime : UInt32) (now : UInt64) : List ConnectionId :=
  s.connections.takeWhile (expired s.connection maxAliveTime now)

/-- What the scan leaves: `validConnection` comes first. -/
def kept (s : HttpConnectionPool R) (maxAliveTime : UInt32) (now : UInt64) : List ConnectionId :=
  s.connections.dropWhile (expired s.connection maxAliveTime now)

variable [DecidableEq R]

/-- The request goes on, or ends. -/
def goOn (s : HttpConnectionPool R) (r : R) (p : Option PooledRequest) : HttpConnectionPool R :=
  { s with requests := update s.requests r p }

/-- One step. -/
def step (maxAliveTime : UInt32) (s : HttpConnectionPool R) : RequestStep R → Option (HttpConnectionPool R)
  | .scan r now =>
    match s.requests r with
    | some _ => none
    | none =>
      let kept := s.kept maxAliveTime now
      let s := { s with connections := kept, destroyed := s.erased maxAliveTime now ++ s.destroyed }
      match kept.head? with
      | some c => some (s.goOn r (some (.got c)))
      | none => some (s.goOn r (some .connecting))
  | .connectFails r =>
    match s.requests r with
    | some .connecting => some (s.goOn r none)
    | _ => none
  | .create r =>
    match s.requests r with
    | some .connecting =>
      some ({ s with connection := update s.connection s.made {}, made := s.made + 1 }.goOn r
        (some (.created s.made)))
    | _ => none
  | .insert r =>
    match s.requests r with
    | some (.created c) => some ({ s with connections := s.connections ++ [c] }.goOn r (some (.got c)))
    | _ => none
  | .send r ok =>
    match s.requests r with
    | some (.got c) =>
      if ok then
        -- `write` fails on a socket that is not connected
        if (s.connection c).isConnect then some (s.goOn r (some (.sent c))) else none
      else some (s.goOn r none)
    | _ => none
  | .receive r ok =>
    match s.requests r with
    | some (.sent c) =>
      if ok then if (s.connection c).isConnect then some (s.goOn r none) else none
      else
        some ({ s with connection := update s.connection c { s.connection c with isConnect := false } }.goOn
          r none)
    | _ => none

end HttpConnectionPool

/-- Any number of requests on a new pool. -/
def pooledRequests (R : Type) [DecidableEq R] (maxAliveTime : UInt32) :
    Lts (HttpConnectionPool R) (RequestStep R) where
  init := {}
  step := HttpConnectionPool.step maxAliveTime

section

variable {R : Type} [DecidableEq R]

/-- A request has the connection: `getConnection` has made it or returned it, and the request has not ended. -/
def HasConnection (s : HttpConnectionPool R) (r : R) (c : ConnectionId) : Prop :=
  ∃ p, s.requests r = some p ∧ p.connection = some c

/--
No connection is between the send and the receive of two requests, and none that a request has is
destroyed.
-/
structure UsedAlone (s : HttpConnectionPool R) : Prop where
  alone : ∀ r r' c, s.requests r = some (.sent c) → s.requests r' = some (.sent c) → r = r'
  alive : ∀ r c, HasConnection s r c → c ∉ s.destroyed

/-- A scan neither erases nor takes a connection that a request has. -/
def ScansFree (maxAliveTime : UInt32) (s : HttpConnectionPool R) : RequestStep R → Prop
  | .scan _ now =>
    ∀ c, c ∈ s.erased maxAliveTime now ∨ (s.kept maxAliveTime now).head? = some c → ∀ r, ¬HasConnection s r c
  | _ => True

/-! ## The invariant -/

/-- Each connection is in one place. -/
structure ConnectionsPlaced (s : HttpConnectionPool R) : Prop where
  nodup : s.connections.Nodup
  listed : ∀ c ∈ s.connections, c < s.made ∧ c ∉ s.destroyed
  destroyed : ∀ c ∈ s.destroyed, c < s.made
  has : ∀ r c, HasConnection s r c → c < s.made ∧ c ∉ s.destroyed
  created : ∀ r c, s.requests r = some (.created c) → c ∉ s.connections
  alone : ∀ r r' c, HasConnection s r c → HasConnection s r' c → r = r'

theorem placed_init {maxAliveTime : UInt32} : ConnectionsPlaced (pooledRequests R maxAliveTime).init where
  nodup := .nil
  listed := nofun
  destroyed := nofun
  has _ _ := nofun
  created _ _ := nofun
  alone _ _ _ := nofun

theorem has_goOn {s : HttpConnectionPool R} {r r' : R} {p : Option PooledRequest} {c : ConnectionId} :
    HasConnection (s.goOn r p) r' c
      ↔ (r' = r ∧ p.bind PooledRequest.connection = some c) ∨ (r' ≠ r ∧ HasConnection s r' c) := by
  simp only [HasConnection, HttpConnectionPool.goOn, Function.update_apply]
  by_cases hr : r' = r
  · simp [hr, Option.bind_eq_some_iff]
  · simp [hr]

namespace ConnectionsPlaced

variable {s : HttpConnectionPool R} (h : ConnectionsPlaced s)
include h

/-- A request goes on with a connection that nobody else has. -/
theorem goOn {r : R} {p : Option PooledRequest}
    (hp : ∀ c, p.bind PooledRequest.connection = some c →
      c < s.made ∧ c ∉ s.destroyed ∧ ∀ r', r' ≠ r → ¬HasConnection s r' c)
    (hcreated : ∀ c, p = some (.created c) → c ∉ s.connections) : ConnectionsPlaced (s.goOn r p) where
  nodup := h.nodup
  listed := h.listed
  destroyed := h.destroyed
  has r' c hc := by
    rcases has_goOn.mp hc with ⟨-, hpc⟩ | ⟨-, hc⟩
    · exact ⟨(hp c hpc).1, (hp c hpc).2.1⟩
    · exact h.has r' c hc
  created r' c hc := by
    change update s.requests r p r' = _ at hc
    rw [Function.update_apply] at hc
    split at hc
    · exact hcreated c hc
    · exact h.created r' c hc
  alone r₁ r₂ c hc₁ hc₂ := by
    rcases has_goOn.mp hc₁ with ⟨rfl, hpc⟩ | ⟨hne₁, hold₁⟩
    · rcases has_goOn.mp hc₂ with ⟨rfl, -⟩ | ⟨hne₂, hold₂⟩
      · rfl
      · exact absurd hold₂ ((hp c hpc).2.2 r₂ hne₂)
    · rcases has_goOn.mp hc₂ with ⟨rfl, hpc⟩ | ⟨-, hold₂⟩
      · exact absurd hold₁ ((hp c hpc).2.2 r₁ hne₁)
      · exact h.alone r₁ r₂ c hold₁ hold₂

/-- A request ends. -/
theorem done (r : R) : ConnectionsPlaced (s.goOn r none) := h.goOn (fun _ => nofun) fun _ => nofun

/-- A request keeps the connection it has. -/
theorem keep {r : R} {p q : PooledRequest} {c : ConnectionId} (hr : s.requests r = some p)
    (hp : p.connection = some c) (hq : q = .got c ∨ q = .sent c) : ConnectionsPlaced (s.goOn r (some q)) := by
  have hhas : HasConnection s r c := ⟨p, hr, hp⟩
  refine h.goOn (fun d hd => ?_) fun d hd => ?_
  · have hdc : d = c := by rcases hq with rfl | rfl <;> exact (Option.some.inj hd).symm
    subst hdc
    exact ⟨(h.has r d hhas).1, (h.has r d hhas).2, fun r' hne hr' => hne (h.alone r' r d hr' hhas)⟩
  · rcases hq with rfl | rfl <;> cases hd

omit [DecidableEq R] in
/-- The list is cut where nobody has what is erased. -/
theorem cut {kept erased : List ConnectionId} (hlist : s.connections = erased ++ kept)
    (hfree : ∀ c ∈ erased, ∀ r, ¬HasConnection s r c) :
    ConnectionsPlaced { s with connections := kept, destroyed := erased ++ s.destroyed } := by
  have hnodup := h.nodup
  rw [hlist] at hnodup
  obtain ⟨-, hkept, hdisjoint⟩ := List.nodup_append.mp hnodup
  have hsub : ∀ c ∈ kept, c ∈ s.connections := fun c hc => hlist ▸ List.mem_append_right _ hc
  refine ⟨hkept, fun c hc => ⟨(h.listed c (hsub c hc)).1, ?_⟩, fun c hc => ?_, fun r c hc => ?_,
    fun r c hc hmem => h.created r c hc (hsub c hmem), h.alone⟩
  · rw [List.mem_append]
    rintro (hmem | hmem)
    · exact hdisjoint c hmem c hc rfl
    · exact (h.listed c (hsub c hc)).2 hmem
  · rcases List.mem_append.mp hc with hmem | hmem
    · exact (h.listed c (hlist ▸ List.mem_append_left _ hmem)).1
    · exact h.destroyed c hmem
  · refine ⟨(h.has r c hc).1, ?_⟩
    rw [List.mem_append]
    rintro (hmem | hmem)
    · exact hfree c hmem r hc
    · exact (h.has r c hc).2 hmem

omit [DecidableEq R] in
/-- A connection is made. -/
theorem make (connection : ConnectionId → HttpConnection) :
    ConnectionsPlaced { s with connection, made := s.made + 1 } :=
  ⟨h.nodup, fun c hc => ⟨Nat.lt_succ_of_lt (h.listed c hc).1, (h.listed c hc).2⟩,
    fun c hc => Nat.lt_succ_of_lt (h.destroyed c hc),
    fun r c hc => ⟨Nat.lt_succ_of_lt (h.has r c hc).1, (h.has r c hc).2⟩, h.created, h.alone⟩

omit [DecidableEq R] in
/-- A connection that has been returned to one request is put into the list. -/
theorem list {r : R} {c : ConnectionId} (hr : s.requests r = some (.got c)) (hnew : c ∉ s.connections) :
    ConnectionsPlaced { s with connections := s.connections ++ [c] } := by
  have hhas : HasConnection s r c := ⟨_, hr, rfl⟩
  refine ⟨?_, fun d hd => ?_, h.destroyed, h.has, fun r' d hd hmem => ?_, h.alone⟩
  · refine List.nodup_append.mpr ⟨h.nodup, List.nodup_singleton c, ?_⟩
    rintro d hd _ hc rfl
    exact hnew (List.mem_singleton.mp hc ▸ hd)
  · rcases List.mem_append.mp hd with hd | hd
    · exact h.listed d hd
    · exact List.mem_singleton.mp hd ▸ h.has r c hhas
  · rcases List.mem_append.mp hmem with hmem | hmem
    · exact h.created r' d hd hmem
    · rw [List.mem_singleton.mp hmem] at hd
      have heq := h.alone r' r c ⟨_, hd, rfl⟩ hhas
      rw [heq, hr] at hd
      cases hd

omit [DecidableEq R] in
theorem usedAlone : UsedAlone s where
  alone r r' c hr hr' := h.alone r r' c ⟨_, hr, rfl⟩ ⟨_, hr', rfl⟩
  alive r c hc := (h.has r c hc).2

theorem scan {maxAliveTime : UInt32} {r : R} {now : UInt64} {s' : HttpConnectionPool R}
    (hstep : s.step maxAliveTime (.scan r now) = some s') (hfree : ScansFree maxAliveTime s (.scan r now)) :
    ConnectionsPlaced s' := by
  simp only [HttpConnectionPool.step] at hstep
  split at hstep
  · cases hstep
  have hlist : s.connections = s.erased maxAliveTime now ++ s.kept maxAliveTime now :=
    List.takeWhile_append_dropWhile.symm
  have hcut := h.cut hlist fun c hc => hfree c (.inl hc)
  split at hstep
  · next c hc =>
    cases hstep
    have hmem : c ∈ s.kept maxAliveTime now := List.mem_of_head? hc
    refine hcut.goOn (fun d hd => ?_) fun d => nofun
    obtain rfl : c = d := Option.some.inj hd
    exact ⟨(hcut.listed c hmem).1, (hcut.listed c hmem).2, fun r' _ => hfree c (.inr hc) r'⟩
  · cases hstep
    exact hcut.goOn (fun _ => nofun) fun _ => nofun

theorem step {maxAliveTime : UInt32} {a : RequestStep R} {s' : HttpConnectionPool R}
    (hstep : s.step maxAliveTime a = some s') (hfree : ScansFree maxAliveTime s a) : ConnectionsPlaced s' := by
  cases a with
  | scan r now => exact h.scan hstep hfree
  | connectFails r =>
    simp only [HttpConnectionPool.step] at hstep
    split at hstep
    · cases hstep
      exact h.done r
    · cases hstep
  | create r =>
    simp only [HttpConnectionPool.step] at hstep
    split at hstep
    · cases hstep
      -- the number of the new connection is above all others
      refine (h.make _).goOn (fun d hd => ?_) fun d hd hmem => ?_
      · obtain rfl : s.made = d := Option.some.inj hd
        refine ⟨Nat.lt_succ_self _, fun hmem => ?_, fun r' _ hr' => ?_⟩
        · exact Nat.lt_irrefl _ (h.destroyed _ hmem)
        · exact Nat.lt_irrefl _ (h.has r' _ hr').1
      · cases hd
        exact Nat.lt_irrefl _ (h.listed _ hmem).1
    · cases hstep
  | insert r =>
    simp only [HttpConnectionPool.step] at hstep
    split at hstep
    · next c hr =>
      cases hstep
      exact (h.keep hr rfl (.inl rfl)).list (Function.update_self ..) (h.created r c hr)
    · cases hstep
  | send r ok =>
    simp only [HttpConnectionPool.step] at hstep
    split at hstep
    · next c hr =>
      split at hstep
      · split at hstep
        · cases hstep
          exact h.keep hr rfl (.inr rfl)
        · cases hstep
      · cases hstep
        exact h.done r
    · cases hstep
  | receive r ok =>
    simp only [HttpConnectionPool.step] at hstep
    split at hstep
    · next c hr =>
      split at hstep
      · split at hstep
        · cases hstep
          exact h.done r
        · cases hstep
      · cases hstep
        have hsame := h.done r
        exact ⟨hsame.nodup, hsame.listed, hsame.destroyed, hsame.has, hsame.created, hsame.alone⟩
    · cases hstep

end ConnectionsPlaced

/--
If no scan erases or takes a connection that a request has, each connection serves one request at a time
and is alive as long as it does.
-/
theorem usedAlone_of_reachable {maxAliveTime : UInt32} {s : HttpConnectionPool R}
    (h : (pooledRequests R maxAliveTime).ReachableBy (ScansFree maxAliveTime) s) : UsedAlone s := by
  have hplaced : ConnectionsPlaced s := by
    refine h.invariant placed_init ?_
    intro s a s' hs hfree hstep
    exact hs.step hstep hfree
  exact hplaced.usedAlone

end

/-- A second request, made when the first has ended, gets the connection of the first. -/
theorem usedAlone_reused : ∃ s, (pooledRequests Bool 5000).Reachable s ∧
    s.requests true = some (.got 0) ∧ UsedAlone s := by
  have hscan := Lts.ReachableBy.step (M := pooledRequests Bool 5000) (P := ScansFree 5000)
    (a := .scan false 1700000000000) .init (by rintro c - r ⟨p, hp, -⟩; cases hp) rfl
  have hcreate := hscan.step (a := .create false) (by exact trivial) rfl
  have hinsert := hcreate.step (a := .insert false) (by exact trivial) rfl
  have hsend := hinsert.step (a := .send false true) (by exact trivial) rfl
  have hreceive := hsend.step (a := .receive false true) (by exact trivial) rfl
  have hagain := hreceive.step (a := .scan true 1700000000000)
    (by rintro c - r ⟨p, hp, -⟩; cases r <;> cases hp) rfl
  exact ⟨_, hagain.mono fun _ _ _ => trivial, rfl, usedAlone_of_reachable hagain⟩

/-- A second request takes the connection of the first. -/
theorem not_usedAlone : ¬∀ s, (pooledRequests Bool 5000).Reachable s → UsedAlone s := by
  intro hall
  have hrun : (pooledRequests Bool 5000).run (pooledRequests Bool 5000).init
      [.scan false 1700000000000, .create false, .insert false, .send false true,
        .scan true 1700000000000, .send true true] = some _ := rfl
  have hrun := Lts.reachable_of_run hrun
  have heq := (hall _ hrun).alone false true 0 rfl rfl
  cases heq

end Nemo.Http
