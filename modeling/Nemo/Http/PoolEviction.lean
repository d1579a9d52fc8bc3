import Mathlib.Algebra.Group.Nat.Defs
import Mathlib.Data.List.TakeWhile
import Nemo.Http.ConnectionPool

/-!
# `HttpConnectionPool::getConnection`

One call, with the scan, the connection that is made when nothing is left, and its insertion. `getConnection_run` says
that it is a run of the steps of one request. The pool knows its `maxSize_`, but the function does not look at it.

`evicts_iff` — from which pools just those connections are erased that are of no use. The test compares the wrong way
round, and so a connection that is connected is judged rightly at the very end of its time only.
-/

namespace Nemo.Http

open Function (update)
open Infra

/-- How far a new connection gets: `LookupAnyIPAddress`, `CreateTcp` and `connect`. -/
inductive Dial
  | noAddress | noSocket | notConnected | connected
  deriving DecidableEq

namespace HttpConnectionPool

variable {R : Type}

/-- `getConnection`, with the connection that it returns. -/
def getConnection (s : HttpConnectionPool R) (maxAliveTime : UInt32) (now : UInt64) (dial : Dial) :
    HttpConnectionPool R × Option ConnectionId :=
  let kept := s.kept maxAliveTime now
  let s := { s with connections := kept, destroyed := s.erased maxAliveTime now ++ s.destroyed }
  match kept.head? with
  | some c => (s, some c)
  | none =>
    match dial with
    | .connected =>
      let new := s.made
      ({ s with
          connection := update s.connection new {}
          made := s.made + 1
          connections := s.connections ++ [new] }, some new)
    | _ => (s, none)

/-- The steps that a call takes. -/
def getConnectionSteps (s : HttpConnectionPool R) (maxAliveTime : UInt32) (now : UInt64) (dial : Dial) (r : R) :
    List (RequestStep R) :=
  match (s.kept maxAliveTime now).head?, dial with
  | some _, _ => [.scan r now]
  | none, .connected => [.scan r now, .create r, .insert r]
  | none, _ => [.scan r now, .connectFails r]

section

variable {s : HttpConnectionPool R} {maxAliveTime : UInt32} {now : UInt64}

theorem getConnection_of_cons {c : ConnectionId} {rest : List ConnectionId}
    (h : s.kept maxAliveTime now = c :: rest) (dial : Dial) :
    s.getConnection maxAliveTime now dial =
      ({ s with connections := c :: rest, destroyed := s.erased maxAliveTime now ++ s.destroyed }, some c) := by
  unfold getConnection
  rw [h]
  rfl

theorem getConnection_of_nil (h : s.kept maxAliveTime now = []) (dial : Dial) :
    s.getConnection maxAliveTime now dial =
      if dial = .connected then
        ({ s with
            connection := update s.connection s.made {}
            made := s.made + 1
            connections := [s.made]
            destroyed := s.erased maxAliveTime now ++ s.destroyed }, some s.made)
      else ({ s with connections := [], destroyed := s.erased maxAliveTime now ++ s.destroyed }, none) := by
  unfold getConnection
  rw [h]
  cases dial <;> rfl

variable [DecidableEq R]

theorem goOn_requests (s : HttpConnectionPool R) (r : R) (p : Option PooledRequest) :
    (s.goOn r p).requests r = p := Function.update_self ..

theorem goOn_goOn (s : HttpConnectionPool R) (r : R) (p q : Option PooledRequest) :
    (s.goOn r p).goOn r q = s.goOn r q := by
  unfold goOn
  dsimp only
  rw [Function.update_idem]

/-- What the scan leaves. -/
def scanned (s : HttpConnectionPool R) (maxAliveTime : UInt32) (now : UInt64) : HttpConnectionPool R :=
  { s with
    connections := s.kept maxAliveTime now
    destroyed := s.erased maxAliveTime now ++ s.destroyed }

/-- The scan, by a request that has not begun. -/
theorem step_scan {s : HttpConnectionPool R} {r : R} (hr : s.requests r = none) (maxAliveTime : UInt32)
    (now : UInt64) : s.step maxAliveTime (.scan r now) =
      some ((s.scanned maxAliveTime now).goOn r
        (some ((s.kept maxAliveTime now).head?.elim .connecting .got))) := by
  simp only [step, hr]
  cases (s.kept maxAliveTime now).head? <;> rfl

theorem step_connectFails (s : HttpConnectionPool R) (maxAliveTime : UInt32) (r : R) :
    (s.goOn r (some .connecting)).step maxAliveTime (.connectFails r) = some (s.goOn r none) := by
  simp only [step, goOn_requests, goOn_goOn]

theorem step_create (s : HttpConnectionPool R) (maxAliveTime : UInt32) (r : R) :
    (s.goOn r (some .connecting)).step maxAliveTime (.create r) =
      some ({ s with connection := update s.connection s.made {}, made := s.made + 1 }.goOn r
        (some (.created s.made))) := by
  simp only [step, goOn, Function.update_self, Function.update_idem]

theorem step_insert (s : HttpConnectionPool R) (maxAliveTime : UInt32) (r : R) (c : ConnectionId) :
    (s.goOn r (some (.created c))).step maxAliveTime (.insert r) =
      some ({ s with connections := s.connections ++ [c] }.goOn r (some (.got c))) := by
  simp only [step, goOn, Function.update_self, Function.update_idem]

/-- **A call is a run of the steps of one request.** -/
theorem getConnection_run {s : HttpConnectionPool R} {r : R} (hr : s.requests r = none)
    (maxAliveTime : UInt32) (now : UInt64) (dial : Dial) :
    (pooledRequests R maxAliveTime).run s (s.getConnectionSteps maxAliveTime now dial r) =
      some ((s.getConnection maxAliveTime now dial).1.goOn r ((s.getConnection maxAliveTime now dial).2.map .got)) := by
  have hscan : (pooledRequests R maxAliveTime).step s (.scan r now) = _ := step_scan hr maxAliveTime now
  have hfails : ∀ s, (pooledRequests R maxAliveTime).step _ (.connectFails r) = _ := fun s =>
    step_connectFails s maxAliveTime r
  have hcreate : ∀ s, (pooledRequests R maxAliveTime).step _ (.create r) = _ := fun s =>
    step_create s maxAliveTime r
  have hinsert : ∀ s c, (pooledRequests R maxAliveTime).step _ (.insert r) = _ := fun s c =>
    step_insert s maxAliveTime r c
  unfold getConnectionSteps
  cases hkept : s.kept maxAliveTime now with
  | cons c rest =>
    rw [hkept] at hscan
    rw [List.head?_cons, Lts.run_cons, hscan, getConnection_of_cons hkept, scanned, hkept]
    rfl
  | nil =>
    rw [hkept] at hscan
    rw [List.head?_nil, getConnection_of_nil hkept]
    cases dial with
    | connected =>
      rw [Lts.run_cons, hscan, Option.bind_some, Lts.run_cons, List.head?_nil, Option.elim_none, hcreate,
        Option.bind_some, Lts.run_cons, hinsert, scanned, hkept]
      rfl
    | noAddress | noSocket | notConnected =>
      rw [Lts.run_cons, hscan, Option.bind_some, Lts.run_cons, List.head?_nil, Option.elim_none, hfails, scanned,
        hkept]
      rfl

end

/-! ## A pool with a time to live -/

/-- The connection is of no use: it is disconnected, or older than `maxAliveTime`. -/
def Dead (s : HttpConnectionPool R) (maxAliveTime : UInt32) (now : UInt64) (c : ConnectionId) : Prop :=
  (s.connection c).isConnect = false ∨ (s.connection c).createTime.toNat + maxAliveTime.toNat < now.toNat

/--
`s'` is the pool after a call that has returned `rt`: what stood in front of the first useful connection has been
destroyed, this connection is reused, one is made only if there is none, and the pool holds at most `maxSize`.
-/
structure Evicts (s : HttpConnectionPool R) (maxSize maxAliveTime : UInt32) (now : UInt64) (dial : Dial)
    (s' : HttpConnectionPool R) (rt : Option ConnectionId) : Prop where
  scanned : ∃ gone rest, s.connections = gone ++ rest ∧ (∀ c ∈ gone, s.Dead maxAliveTime now c) ∧
    (∀ c ∈ rest.head?, ¬s.Dead maxAliveTime now c) ∧ s'.destroyed = gone ++ s.destroyed ∧
    (∀ c ∈ rest.head?, rt = some c ∧ s'.connections = rest ∧ s'.made = s.made) ∧
    (rest = [] →
      if dial = .connected then rt = some s.made ∧ s'.connections = [s.made] ∧ s'.made = s.made + 1
      else rt = none ∧ s'.connections = [] ∧ s'.made = s.made)
  size : s'.connections.length ≤ maxSize.toNat

/--
A connection that is kept, and should be: its time ends at `now`, or so late that the sum of the test, which has 64
bits, is not above `now`.
-/
def JudgedRightly (s : HttpConnectionPool R) (maxAliveTime : UInt32) (now : UInt64) (c : ConnectionId) : Prop :=
  let expiry := (s.connection c).createTime.toNat + maxAliveTime.toNat
  expiry = now.toNat ∨ 2 ^ 64 ≤ expiry ∧ expiry - 2 ^ 64 ≤ now.toNat

/-- The connections from the first one on that is connected. -/
def fromConnected (s : HttpConnectionPool R) : List ConnectionId :=
  s.connections.dropWhile fun c => !(s.connection c).isConnect

/-- The pools of which the function takes care. -/
def Suited (s : HttpConnectionPool R) (maxSize maxAliveTime : UInt32) (now : UInt64) (dial : Dial) : Prop :=
  match s.fromConnected with
  | [] => dial = .connected → 1 ≤ maxSize.toNat
  | c :: rest => s.JudgedRightly maxAliveTime now c ∧ (c :: rest).length ≤ maxSize.toNat

/-! ## One connection -/

variable {s : HttpConnectionPool R} {maxAliveTime : UInt32} {now : UInt64} {c : ConnectionId}

theorem expired_iff : expired s.connection maxAliveTime now c = true ↔
    (s.connection c).isConnect = false ∨
      now.toNat < ((s.connection c).createTime.toNat + maxAliveTime.toNat) % 2 ^ 64 := by
  unfold expired
  rw [Bool.or_eq_true, Bool.not_eq_true', decide_eq_true_iff, gt_iff_lt, UInt64.lt_iff_toNat_lt, UInt64.toNat_add,
    UInt32.toNat_toUInt64]

/-- A connection cannot be too old and, by the test of the scan, as well. -/
theorem not_dead_of_expired (hc : (s.connection c).isConnect = true)
    (h : expired s.connection maxAliveTime now c = true) : ¬s.Dead maxAliveTime now c := by
  have hnow := now.toNat_lt
  rw [expired_iff, hc] at h
  unfold Dead
  rw [hc]
  have hmod := Nat.mod_le ((s.connection c).createTime.toNat + maxAliveTime.toNat) (2 ^ 64)
  rcases h with h | h
  · cases h
  · rintro (h' | h')
    · cases h'
    · omega

/-- The connections of which both tests say that they are of use. -/
theorem judgedRightly_iff (hc : (s.connection c).isConnect = true) : s.JudgedRightly maxAliveTime now c ↔
    ¬expired s.connection maxAliveTime now c = true ∧ ¬s.Dead maxAliveTime now c := by
  have hnow := now.toNat_lt
  have hcreate := (s.connection c).createTime.toNat_lt
  have halive := maxAliveTime.toNat_lt
  rw [expired_iff, JudgedRightly, Dead, hc]
  simp only [Bool.true_eq_false, false_or]
  omega

/-! ## The list -/

theorem connections_eq (s : HttpConnectionPool R) (maxAliveTime : UInt32) (now : UInt64) :
    s.connections = s.erased maxAliveTime now ++ s.kept maxAliveTime now :=
  List.takeWhile_append_dropWhile.symm

/-- The connections in front of the first one that is connected. -/
def disconnected (s : HttpConnectionPool R) : List ConnectionId :=
  s.connections.takeWhile fun c => !(s.connection c).isConnect

theorem connections_eq_fromConnected (s : HttpConnectionPool R) : s.connections = s.disconnected ++ s.fromConnected :=
  List.takeWhile_append_dropWhile.symm

theorem isConnect_of_mem_disconnected (hc : c ∈ s.disconnected) : (s.connection c).isConnect = false := by
  have hdis := List.mem_takeWhile_imp hc
  rwa [Bool.not_eq_true'] at hdis

/-- What is disconnected is erased. -/
theorem erased_eq (s : HttpConnectionPool R) (maxAliveTime : UInt32) (now : UInt64) :
    s.erased maxAliveTime now =
      s.disconnected ++ s.fromConnected.takeWhile (expired s.connection maxAliveTime now) := by
  rw [erased, connections_eq_fromConnected, List.takeWhile_append_of_pos]
  exact fun c hc => expired_iff.mpr (.inl (isConnect_of_mem_disconnected hc))

theorem kept_eq (s : HttpConnectionPool R) (maxAliveTime : UInt32) (now : UInt64) :
    s.kept maxAliveTime now = s.fromConnected.dropWhile (expired s.connection maxAliveTime now) := by
  rw [kept, connections_eq_fromConnected, List.dropWhile_append_of_pos]
  exact fun c hc => expired_iff.mpr (.inl (isConnect_of_mem_disconnected hc))

theorem isConnect_of_head {rest : List ConnectionId} (h : s.fromConnected = c :: rest) :
    (s.connection c).isConnect = true := by
  have hhead := List.head?_dropWhile_not (fun c => !(s.connection c).isConnect) s.connections
  rw [fromConnected] at h
  rw [h] at hhead
  simpa using hhead

/-! ## The call -/

variable {maxSize : UInt32} {dial : Dial}

theorem getConnection_destroyed (s : HttpConnectionPool R) (maxAliveTime : UInt32) (now : UInt64) (dial : Dial) :
    (s.getConnection maxAliveTime now dial).1.destroyed = s.erased maxAliveTime now ++ s.destroyed := by
  cases h : s.kept maxAliveTime now with
  | nil =>
    rw [getConnection_of_nil h]
    split <;> rfl
  | cons c rest => rw [getConnection_of_cons h]

/-- The first connected connection is judged rightly, if what the scan has erased was of no use. -/
theorem suited_of_evicts (h : s.Evicts maxSize maxAliveTime now dial (s.getConnection maxAliveTime now dial).1
    (s.getConnection maxAliveTime now dial).2) : s.Suited maxSize maxAliveTime now dial := by
  obtain ⟨⟨gone, rest, hsplit, hgone, hrest, hdestroyed, -, -⟩, hsize⟩ := h
  rw [getConnection_destroyed] at hdestroyed
  obtain rfl := List.append_cancel_right hdestroyed
  rw [connections_eq s maxAliveTime now] at hsplit
  obtain rfl := List.append_cancel_left hsplit
  have herased := erased_eq s maxAliveTime now
  have hkept := kept_eq s maxAliveTime now
  unfold Suited
  cases hfrom : s.fromConnected with
  | nil =>
    rw [hfrom] at hkept
    rw [getConnection_of_nil hkept] at hsize
    intro hdial
    rwa [if_pos hdial] at hsize
  | cons c from' =>
    rw [hfrom] at herased hkept
    have hc := isConnect_of_head hfrom
    by_cases hexpired : expired s.connection maxAliveTime now c = true
    · -- it has been erased, so that it would be too old
      rw [List.takeWhile_cons_of_pos hexpired] at herased
      have hmem : c ∈ s.erased maxAliveTime now := by
        rw [herased]
        exact List.mem_append_right _ List.mem_cons_self
      exact absurd (hgone c hmem) (not_dead_of_expired hc hexpired)
    · rw [List.dropWhile_cons_of_neg hexpired] at hkept
      rw [getConnection_of_cons hkept] at hsize
      rw [hkept] at hrest
      exact ⟨(judgedRightly_iff hc).mpr ⟨hexpired, hrest c rfl⟩, hsize⟩

theorem evicts_of_suited (h : s.Suited maxSize maxAliveTime now dial) :
    s.Evicts maxSize maxAliveTime now dial (s.getConnection maxAliveTime now dial).1
      (s.getConnection maxAliveTime now dial).2 := by
  have herased := erased_eq s maxAliveTime now
  have hkept := kept_eq s maxAliveTime now
  have hlist := connections_eq_fromConnected s
  have hgone : ∀ c ∈ s.disconnected, s.Dead maxAliveTime now c := fun c hc =>
    .inl (isConnect_of_mem_disconnected hc)
  unfold Suited at h
  cases hfrom : s.fromConnected with
  | nil =>
    rw [hfrom] at h hkept herased hlist
    rw [List.takeWhile_nil, List.append_nil] at herased
    rw [getConnection_of_nil hkept, herased]
    dsimp only at h
    split
    · next hdial =>
      refine ⟨⟨s.disconnected, [], hlist, hgone, nofun, rfl, nofun, fun _ => ?_⟩, h hdial⟩
      rw [if_pos hdial]
      exact ⟨rfl, rfl, rfl⟩
    · next hdial =>
      refine ⟨⟨s.disconnected, [], hlist, hgone, nofun, rfl, nofun, fun _ => ?_⟩, Nat.zero_le _⟩
      rw [if_neg hdial]
      exact ⟨rfl, rfl, rfl⟩
  | cons c from' =>
    rw [hfrom] at h hkept herased hlist
    obtain ⟨hjudged, hsize⟩ := h
    obtain ⟨hexpired, hdead⟩ := (judgedRightly_iff (isConnect_of_head hfrom)).mp hjudged
    rw [List.takeWhile_cons_of_neg hexpired, List.append_nil] at herased
    rw [List.dropWhile_cons_of_neg hexpired] at hkept
    rw [getConnection_of_cons hkept, herased]
    refine ⟨⟨s.disconnected, c :: from', hlist, hgone, ?_, rfl, ?_, nofun⟩, hsize⟩
    · rintro _ ⟨⟩
      exact hdead
    · rintro _ ⟨⟩
      exact ⟨rfl, rfl, rfl⟩

/--
**When `getConnection` evicts what is of no use**, and keeps the pool small: if the first connection that is connected,
if any, is judged rightly, and the list from there on, or the new connection alone, is not longer than `maxSize`.
-/
theorem evicts_iff (s : HttpConnectionPool R) (maxSize maxAliveTime : UInt32) (now : UInt64) (dial : Dial) :
    s.Evicts maxSize maxAliveTime now dial (s.getConnection maxAliveTime now dial).1
        (s.getConnection maxAliveTime now dial).2 ↔
      s.Suited maxSize maxAliveTime now dial :=
  ⟨suited_of_evicts, evicts_of_suited⟩

/-- A pool with one connection, made at `1000`. -/
def onePooled : HttpConnectionPool Unit where
  connection _ := { createTime := 1000 }
  made := 1
  connections := [0]

/-- A connection that has lived one second of five is destroyed, and another one made. -/
theorem not_evicts : ¬∀ (s : HttpConnectionPool Unit) (maxSize maxAliveTime : UInt32) (now : UInt64) (dial : Dial),
    s.Evicts maxSize maxAliveTime now dial (s.getConnection maxAliveTime now dial).1
      (s.getConnection maxAliveTime now dial).2 := by
  intro hall
  obtain ⟨hjudged, -⟩ := suited_of_evicts (hall onePooled 10 5000 2000 .connected)
  exact absurd hjudged (by unfold JudgedRightly; decide)

end HttpConnectionPool

end Nemo.Http
