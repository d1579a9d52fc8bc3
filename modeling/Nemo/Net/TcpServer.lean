import Mathlib.Data.List.Nodup
import Nemo.Net.Socket

/-!
# `TcpServer`

`bind`, `start`, `startAccept` and `stop` of `src/net/tcp_server.cc`, over the objects of `Socket`: the listening
ones in `sockets_`, and the clients that the tasks of `handleScheduler_` hold until their handlers return. A step names
the new objects, and what the kernel answers.

* `bind_eq` — the addresses that fail are those without a listening socket
* `open_iff_held` — in every run that loses nothing, an open descriptor is that of just one listening socket or
  client, and none is open when the server has stopped and its handlers have returned
-/

namespace Nemo.Net

open Function (update)
open Infra Sockets

/-- An address that is bound: the object that is made for it, its family, and the answers of the kernel. -/
structure Binding where
  x : Nat
  family : UInt32
  answer : Option Nat
  bound : Bool
  listening : Bool
  closed : Bool
  deriving DecidableEq

/-- A socket is made, bound and listens. -/
def Binding.succeeds (b : Binding) : Bool := b.answer.isSome && b.bound && b.listening

/-- The server and its process. `ssl` is that of `config_`. -/
structure TcpServer where
  process : Sockets := {}
  sockets : List Nat := []
  clients : List Nat := []
  stopped : Bool := true
  ssl : Bool := false

namespace TcpServer

variable (server : TcpServer)

/-- The attribute that `Socket::CreateTcp` makes. -/
def tcpOf (family : UInt32) : SocketAttribute := { family := family, type := 1, protocol := 0 }

/-- `bindAddress`. A socket that is not bound or does not listen is destroyed. -/
def bindAddress (b : Binding) : Option (Bool × TcpServer) := do
  let sock : Socket := { sockAttr := tcpOf b.family }
  let s ← server.process.create b.x (tcpOf b.family)
  let (bound, s) ← s.bind b.x sock b.family b.answer b.bound
  let sock ← s.socket b.x
  if bound && (s.listen sock b.listening).1 then
    some (true, { server with process := s, sockets := server.sockets ++ [b.x] })
  else (s.destroy b.x sock b.closed).map fun s => (false, { server with process := s })

/-- The loop of `bind`, with the addresses that fail. -/
def bindAll (server : TcpServer) : List Binding → Option (List Binding × TcpServer)
  | [] => some ([], server)
  | b :: bs => do
    let (success, server) ← server.bindAddress b
    let (fails, server) ← server.bindAll bs
    some (if success then fails else b :: fails, server)

/-- `bind`, with an empty vector `fails` of the caller. The function appends to what is in it. -/
def bind (bs : List Binding) (ssl : Bool) : Option (Bool × List Binding × TcpServer) :=
  (server.bindAll bs).map fun (fails, server) =>
    (fails.isEmpty, fails, if bs.length ≠ fails.length then { server with ssl := ssl } else server)

/-- A round of `startAccept`. The client is in a task from then on. -/
def accept (x y : Nat) (inCoroutine : Bool) (answer : Option Nat) (peer : Bool) : Option TcpServer :=
  if !server.stopped && server.sockets.contains x then do
    let sock ← server.process.socket x
    let (accepted, s) ← server.process.accept sock y inCoroutine answer peer
    some { server with
      process := s
      clients := if accepted then server.clients ++ [y] else server.clients }
  else none

/-- The objects are destroyed one after the other. -/
def destroyAll (ok : Nat → Bool) (s : Sockets) : List Nat → Option Sockets
  | [] => some s
  | x :: xs => do
    let sock ← s.socket x
    let s ← s.destroy x sock (ok x)
    destroyAll ok s xs

/-- `stop` -/
def stop (ok : Nat → Bool) : Option TcpServer :=
  (destroyAll ok server.process server.sockets).map fun s =>
    { server with process := s, sockets := [], stopped := true }

/-- A handler closes its client. -/
def closeClient (y : Nat) (ok : Bool) : Option TcpServer :=
  if server.clients.contains y then do
    let sock ← server.process.socket y
    let (_, s) ← server.process.close y sock ok
    some { server with process := s }
  else none

/-- A handler returns, and the task that holds its client is gone. -/
def handled (y : Nat) (ok : Bool) : Option TcpServer :=
  if server.clients.contains y then do
    let sock ← server.process.socket y
    let s ← server.process.destroy y sock ok
    some { server with process := s, clients := server.clients.filter (· ≠ y) }
  else none

inductive Event
  | bind (bs : List Binding) (ssl : Bool)
  | start
  | accept (x y : Nat) (inCoroutine : Bool) (answer : Option Nat) (peer : Bool)
  | closeClient (y : Nat) (ok : Bool)
  | handled (y : Nat) (ok : Bool)
  | stop (failed : List Nat)

def step : Event → Option TcpServer
  | .bind bs ssl => (server.bind bs ssl).map fun r => r.2.2
  | .start => some { server with stopped := false }
  | .accept x y inCoroutine answer peer => server.accept x y inCoroutine answer peer
  | .closeClient y ok => server.closeClient y ok
  | .handled y ok => server.handled y ok
  | .stop failed => server.stop fun x => !failed.contains x

/-- A new server, in a process without descriptors. -/
def serving : Lts TcpServer Event where
  init := {}
  step := step

/-- Descriptors are positive, connections are accepted in coroutines, and every `::close` succeeds. -/
def Keeps (_ : TcpServer) : Event → Prop
  | .bind bs _ => ∀ b ∈ bs, (∀ fd ∈ b.answer, fd > 0) ∧ b.closed = true
  | .start => True
  | .accept _ _ inCoroutine answer _ => ∀ fd ∈ answer, inCoroutine = true ∧ fd > 0
  | .closeClient _ ok | .handled _ ok => ok = true
  | .stop failed => failed = []

instance (server : TcpServer) (e : Event) : Decidable (server.Keeps e) := by
  unfold Keeps
  split <;> infer_instance

/-! ## Objects that are made and destroyed -/

/-- Only the object `x` is another, and it is there afterwards if `there`. -/
structure Only (x : Nat) (there : Bool) (s s' : Sockets) : Prop where
  self : (s'.socket x).isSome = there
  others : ∀ y, y ≠ x → s'.socket y = s.socket y

section

variable {s s' s'' : Sockets} {x y : Nat} {sock : Socket}

theorem Only.trans {there there' : Bool} (h : Only x there s s') (h' : Only x there' s' s'') : Only x there' s s'' :=
  ⟨h'.self, fun y hy => (h'.others y hy).trans (h.others y hy)⟩

theorem only_set (s : Sockets) (w : World) (x : Nat) (sock : Socket) :
    Only x true s (Sockets.set { s with world := w } x sock) :=
  ⟨congrArg Option.isSome (socket_set _ x sock), fun _ hy => Function.update_of_ne hy ..⟩

theorem create_only {attr : SocketAttribute} (h : s.create x attr = some s') :
    Only x true s s' ∧ s.socket x = none ∧ s'.socket x = some { sockAttr := attr } := by
  unfold create at h
  split at h
  · next hnone =>
    cases h
    exact ⟨only_set s s.world x _, hnone, socket_set ..⟩
  · cases h

theorem bind_only {family : UInt32} {answer : Option Nat} {ok b : Bool} (hs : s.socket x = some sock)
    (h : s.bind x sock family answer ok = some (b, s')) : Only x true s s' := by
  obtain ⟨⟨sock', s₁⟩, hensure, heq⟩ := Option.map_eq_some_iff.mp h
  cases heq
  unfold ensure at hensure
  split at hensure
  · cases hensure
    exact ⟨congrArg Option.isSome hs, fun _ _ => rfl⟩
  · obtain ⟨s₂, hnew, heq⟩ := Option.map_eq_some_iff.mp hensure
    cases heq
    obtain ⟨w, -, rfl⟩ := Option.map_eq_some_iff.mp hnew
    exact only_set s w x _

theorem close_only {ok b : Bool} (h : s.close x sock ok = some (b, s')) : Only x true s s' := by
  unfold close at h
  split at h
  · cases h
    exact only_set ..
  · obtain ⟨w, -, heq⟩ := Option.map_eq_some_iff.mp h
    cases heq
    exact only_set s w x _

theorem destroy_only {ok : Bool} (h : s.destroy x sock ok = some s') : Only x false s s' := by
  obtain ⟨⟨b, s₁⟩, hclose, rfl⟩ := Option.map_eq_some_iff.mp h
  refine (close_only hclose).trans ⟨?_, fun _ hy => Function.update_of_ne hy ..⟩
  exact congrArg Option.isSome (Function.update_self x none s₁.socket)

/-- An object is made for a connection that is accepted. -/
theorem accept_only {inCoroutine peer b : Bool} {answer : Option Nat}
    (h : s.accept sock y inCoroutine answer peer = some (b, s')) :
    s.socket y = none ∧ if b then Only y true s s' else s'.socket = s.socket := by
  unfold Sockets.accept at h
  split at h
  · cases h
  · next hy =>
    refine ⟨not_not.mp hy, ?_⟩
    cases hsock : sock.sockFd with
    | none =>
      rw [hsock] at h
      cases answer with
      | none =>
        cases h
        rfl
      | some newFd => cases h
    | some fd =>
      rw [hsock] at h
      obtain ⟨w, -, h⟩ := Option.bind_eq_some_iff.mp h
      cases answer with
      | none =>
        cases h
        rfl
      | some newFd =>
        dsimp only at h
        split at h
        · cases h
          exact only_set s w y _
        · cases h
          rfl

/-! ## What a server holds -/

/-- Nothing is lost: the descriptors and their contexts are right, and each open one is in an object. -/
structure Sound (s : Sockets) : Prop where
  sound : s.handles.Sound
  covered : s.handles.Covered
  tidy : Tidy false s.world

theorem Sound.does (hs : Sound s) (h : Does false s s') : Sound s' := by
  obtain ⟨hc, ht⟩ := h hs.tidy
  exact ⟨hc.sound hs.sound, hc.covered hs.covered, ht⟩

/-- The objects are the listening sockets and the clients. -/
structure Holds (server : TcpServer) : Prop where
  sound : Sound server.process
  objects : ∀ x, (server.process.socket x).isSome = true ↔ x ∈ server.sockets ∨ x ∈ server.clients
  apart : (server.sockets ++ server.clients).Nodup

variable {server server' : TcpServer}

/-- What a step takes does not change the objects that are held. -/
theorem Holds.isSome_eq_false (hs : Holds server) (hx : server.process.socket x = none) :
    x ∉ server.sockets ∧ x ∉ server.clients := by
  have := mt (hs.objects x).mpr (by rw [hx]; decide)
  exact not_or.mp this

/-- `bindAddress` makes a listening socket, or leaves nothing behind. -/
theorem bindAddress_spec {b : Binding} {success : Bool} (h : server.bindAddress b = some (success, server')) :
    success = b.succeeds ∧ server' = { server with
      process := server'.process
      sockets := if success then server.sockets ++ [b.x] else server.sockets } ∧
    server.process.socket b.x = none ∧ Only b.x success server.process server'.process := by
  obtain ⟨s₁, hcreate, h⟩ := Option.bind_eq_some_iff.mp h
  obtain ⟨⟨bound, s₂⟩, hbind, h⟩ := Option.bind_eq_some_iff.mp h
  obtain ⟨sock, hsock, h⟩ := Option.bind_eq_some_iff.mp h
  obtain ⟨honly, hnone, hsocket⟩ := create_only hcreate
  have hbound := honly.trans (bind_only hsocket hbind)
  -- what `bind` makes of the new object
  have hbind' : bound = (b.answer.isSome && b.bound) ∧ sock.sockFd = b.answer := by
    obtain ⟨⟨sock', s₃⟩, hensure, heq⟩ := Option.map_eq_some_iff.mp hbind
    obtain ⟨s₄, hnew, heq'⟩ := Option.map_eq_some_iff.mp
      (show (s₁.newSock b.x { sockAttr := tcpOf b.family } b.answer).map _ = some (sock', s₃) from hensure)
    cases heq
    cases heq'
    obtain ⟨w, -, rfl⟩ := Option.map_eq_some_iff.mp hnew
    rw [socket_set, Option.some.injEq] at hsock
    subst hsock
    refine ⟨?_, rfl⟩
    unfold Socket.isValid tcpOf
    simp
  have hsuccess : (bound && (s₂.listen sock b.listening).1) = b.succeeds := by
    unfold Sockets.listen Socket.isValid Binding.succeeds
    rw [hbind'.1, hbind'.2]
    cases b.answer <;> simp
  split at h
  · next hok =>
    cases h
    exact ⟨hok.symm.trans hsuccess, rfl, hnone, hbound⟩
  · next hfail =>
    obtain ⟨s₃, hdestroy, heq⟩ := Option.map_eq_some_iff.mp h
    cases heq
    exact ⟨(Bool.not_eq_true _ ▸ hfail).symm.trans hsuccess, rfl, hnone, hbound.trans (destroy_only hdestroy)⟩

theorem bindAddress_does {b : Binding} {success : Bool} (hk : (∀ fd ∈ b.answer, fd > 0) ∧ b.closed = true)
    (h : server.bindAddress b = some (success, server')) : Does false server.process server'.process := by
  obtain ⟨s₁, hcreate, h⟩ := Option.bind_eq_some_iff.mp h
  obtain ⟨⟨bound, s₂⟩, hbind, h⟩ := Option.bind_eq_some_iff.mp h
  obtain ⟨sock, hsock, h⟩ := Option.bind_eq_some_iff.mp h
  have hdoes : Does false server.process s₂ :=
    (create_does hcreate).trans (bind_does (create_only hcreate).2.2 (.inr hk.1) hbind)
  split at h
  · cases h
    exact hdoes
  · obtain ⟨s₃, hdestroy, heq⟩ := Option.map_eq_some_iff.mp h
    cases heq
    exact hdoes.trans (destroy_does hsock (hk.2 ▸ hdestroy))

theorem Holds.bindAddress (hs : Holds server) {b : Binding} {success : Bool}
    (hk : (∀ fd ∈ b.answer, fd > 0) ∧ b.closed = true) (h : server.bindAddress b = some (success, server')) :
    Holds server' := by
  have hsound := hs.sound.does (bindAddress_does hk h)
  obtain ⟨-, heq, hnone, hself, hothers⟩ := bindAddress_spec h
  obtain ⟨hsockets, hclients⟩ := hs.isSome_eq_false hnone
  rw [heq]
  cases success with
  | false =>
    refine ⟨hsound, fun y => ?_, hs.apart⟩
    by_cases hy : y = b.x
    · rw [hy]
      exact iff_of_false (ne_true_of_eq_false hself) (not_or.mpr ⟨hsockets, hclients⟩)
    · rw [show server'.process.socket y = server.process.socket y from hothers y hy]
      exact hs.objects y
  | true =>
    refine ⟨hsound, fun y => ?_, ?_⟩
    · by_cases hy : y = b.x
      · rw [hy]
        exact iff_of_true hself (.inl (List.mem_append_right _ (List.mem_singleton_self _)))
      · rw [show server'.process.socket y = server.process.socket y from hothers y hy, hs.objects y]
        simp [hy]
    · show ((server.sockets ++ [b.x]) ++ server.clients).Nodup
      rw [List.append_assoc, List.singleton_append, List.nodup_middle]
      exact List.nodup_cons.mpr ⟨mt List.mem_append.mp (not_or.mpr ⟨hsockets, hclients⟩), hs.apart⟩

/-- What the loop makes of the addresses. -/
theorem bindAll_spec {bs fails : List Binding} (h : server.bindAll bs = some (fails, server')) :
    fails = bs.filter (fun b => !b.succeeds) ∧ server' = { server with
      process := server'.process
      sockets := server.sockets ++ (bs.filter Binding.succeeds).map Binding.x } := by
  induction bs generalizing server fails with
  | nil =>
    cases h
    exact ⟨rfl, by rw [List.filter_nil, List.map_nil, List.append_nil]⟩
  | cons b bs ih =>
    obtain ⟨⟨success, server₁⟩, hb, h⟩ := Option.bind_eq_some_iff.mp h
    obtain ⟨⟨fails₁, server₂⟩, hbs, heq⟩ := Option.bind_eq_some_iff.mp h
    cases heq
    obtain ⟨hfails, hserver⟩ := ih hbs
    obtain ⟨hsuccess, hserver₁, -⟩ := bindAddress_spec hb
    rw [List.filter_cons, List.filter_cons, ← hsuccess, hfails]
    cases success with
    | false => exact ⟨rfl, by rw [hserver, hserver₁]; rfl⟩
    | true =>
      refine ⟨rfl, ?_⟩
      rw [hserver, hserver₁]
      simp

theorem Holds.bindAll (hs : Holds server) {bs fails : List Binding}
    (hk : ∀ b ∈ bs, (∀ fd ∈ b.answer, fd > 0) ∧ b.closed = true)
    (h : server.bindAll bs = some (fails, server')) : Holds server' := by
  induction bs generalizing server fails with
  | nil =>
    cases h
    exact hs
  | cons b bs ih =>
    obtain ⟨⟨success, server₁⟩, hb, h⟩ := Option.bind_eq_some_iff.mp h
    obtain ⟨⟨fails₁, server₂⟩, hbs, heq⟩ := Option.bind_eq_some_iff.mp h
    cases heq
    exact ih (hs.bindAddress (hk b List.mem_cons_self) hb) (fun b hb => hk b (List.mem_cons_of_mem _ hb)) hbs

theorem Holds.accept (hs : Holds server) {x : Nat} {inCoroutine peer : Bool} {answer : Option Nat}
    (hk : ∀ fd ∈ answer, inCoroutine = true ∧ fd > 0)
    (h : server.accept x y inCoroutine answer peer = some server') : Holds server' := by
  unfold TcpServer.accept at h
  split at h
  · obtain ⟨sock, -, h⟩ := Option.bind_eq_some_iff.mp h
    obtain ⟨⟨accepted, s⟩, haccept, heq⟩ := Option.bind_eq_some_iff.mp h
    cases heq
    have hsound := hs.sound.does (accept_does (.inr hk) haccept)
    obtain ⟨hnone, honly⟩ := accept_only haccept
    obtain ⟨hsockets, hclients⟩ := hs.isSome_eq_false hnone
    cases accepted with
    | false =>
      refine ⟨hsound, fun z => ?_, hs.apart⟩
      rw [show s.socket z = server.process.socket z from congrFun honly z]
      exact hs.objects z
    | true =>
      obtain ⟨hself, hothers⟩ : Only y true server.process s := honly
      refine ⟨hsound, fun z => ?_, ?_⟩
      · dsimp only
        by_cases hz : z = y
        · rw [hz]
          exact iff_of_true hself (.inr (List.mem_append_right _ (List.mem_singleton_self _)))
        · rw [hothers z hz, hs.objects z]
          simp [hz]
      · show (server.sockets ++ (server.clients ++ [y])).Nodup
        rw [← List.append_assoc, List.nodup_append_comm, List.singleton_append]
        exact List.nodup_cons.mpr ⟨mt List.mem_append.mp (not_or.mpr ⟨hsockets, hclients⟩), hs.apart⟩
  · cases h

/-- The objects of a list are gone, and no others. -/
theorem destroyAll_spec {ok : Nat → Bool} {xs : List Nat} (hok : ∀ x ∈ xs, ok x = true) {s s' : Sockets}
    (hnodup : xs.Nodup) (h : destroyAll ok s xs = some s') :
    Does false s s' ∧ ∀ x, (s'.socket x).isSome = true ↔ x ∉ xs ∧ (s.socket x).isSome = true := by
  induction xs generalizing s with
  | nil =>
    cases h
    exact ⟨.of_eq rfl rfl, fun x => (and_iff_right List.not_mem_nil).symm⟩
  | cons y xs ih =>
    obtain ⟨sock, hsock, h⟩ := Option.bind_eq_some_iff.mp h
    obtain ⟨s₁, hdestroy, h⟩ := Option.bind_eq_some_iff.mp h
    obtain ⟨hy, hnodup⟩ := List.nodup_cons.mp hnodup
    obtain ⟨hdoes, hrest⟩ := ih (fun x hx => hok x (List.mem_cons_of_mem _ hx)) hnodup h
    obtain ⟨hself, hothers⟩ := destroy_only hdestroy
    refine ⟨(destroy_does hsock (hok y List.mem_cons_self ▸ hdestroy)).trans hdoes, fun x => ?_⟩
    rw [hrest x]
    by_cases hx : x = y
    · rw [hx, hself]
      simp
    · rw [hothers x hx]
      simp [hx]

theorem Holds.stop (hs : Holds server) {ok : Nat → Bool} (hok : ∀ x, ok x = true)
    (h : server.stop ok = some server') : Holds server' := by
  obtain ⟨s, hdestroy, rfl⟩ := Option.map_eq_some_iff.mp h
  obtain ⟨hnodup, hclients, hapart⟩ := List.nodup_append.mp hs.apart
  obtain ⟨hdoes, hobjects⟩ := destroyAll_spec (fun x _ => hok x) hnodup hdestroy
  refine ⟨hs.sound.does hdoes, fun x => ?_, hclients⟩
  rw [hobjects x, hs.objects x]
  constructor
  · rintro ⟨hx, h⟩
    exact .inr (h.resolve_left hx)
  · rintro (h | h)
    · exact absurd h List.not_mem_nil
    · exact ⟨fun hx => hapart x hx x h rfl, .inr h⟩

theorem Holds.closeClient (hs : Holds server) {ok : Bool} (hok : ok = true)
    (h : server.closeClient y ok = some server') : Holds server' := by
  unfold TcpServer.closeClient at h
  split at h
  · next hy =>
    obtain ⟨sock, hsock, h⟩ := Option.bind_eq_some_iff.mp h
    obtain ⟨⟨b, s⟩, hclose, heq⟩ := Option.bind_eq_some_iff.mp h
    cases heq
    obtain ⟨hself, hothers⟩ := close_only hclose
    refine ⟨hs.sound.does (close_does hsock (hok ▸ hclose)).1, fun z => ?_, hs.apart⟩
    by_cases hz : z = y
    · rw [hz]
      exact iff_of_true hself (.inr (List.contains_iff_mem.mp hy))
    · rw [show s.socket z = server.process.socket z from hothers z hz]
      exact hs.objects z
  · cases h

theorem Holds.handled (hs : Holds server) {ok : Bool} (hok : ok = true)
    (h : server.handled y ok = some server') : Holds server' := by
  unfold TcpServer.handled at h
  split at h
  · next hy =>
    obtain ⟨sock, hsock, h⟩ := Option.bind_eq_some_iff.mp h
    obtain ⟨s, hdestroy, heq⟩ := Option.bind_eq_some_iff.mp h
    cases heq
    obtain ⟨hself, hothers⟩ := destroy_only hdestroy
    obtain ⟨-, -, hapart⟩ := List.nodup_append.mp hs.apart
    have hsockets : y ∉ server.sockets := fun h => hapart y h y (List.contains_iff_mem.mp hy) rfl
    refine ⟨hs.sound.does (destroy_does hsock (hok ▸ hdestroy)), fun z => ?_, ?_⟩
    · dsimp only
      by_cases hz : z = y
      · rw [hz, hself]
        simp [hsockets]
      · rw [hothers z hz, hs.objects z]
        simp [hz]
    · exact hs.apart.sublist (.append (.refl _) List.filter_sublist)
  · cases h

/-! ## Runs -/

theorem Holds.step {e : Event} (hs : Holds server) (he : server.Keeps e) (h : server.step e = some server') :
    Holds server' := by
  cases e with
  | bind bs ssl =>
    obtain ⟨⟨ok, fails, server₁⟩, hbind, rfl⟩ := Option.map_eq_some_iff.mp h
    obtain ⟨⟨fails', server₂⟩, hall, heq⟩ := Option.map_eq_some_iff.mp hbind
    cases heq
    have hholds := hs.bindAll he hall
    dsimp only
    split
    · exact ⟨hholds.sound, hholds.objects, hholds.apart⟩
    · exact hholds
  | start =>
    cases h
    exact ⟨hs.sound, hs.objects, hs.apart⟩
  | accept x y inCoroutine answer peer => exact hs.accept he h
  | closeClient y ok => exact hs.closeClient he h
  | handled y ok => exact hs.handled he h
  | stop failed =>
    have hfailed : failed = [] := he
    exact hs.stop (fun x => by rw [hfailed]; rfl) h

theorem holds_of_reachable (h : serving.ReachableBy Keeps server) : Holds server := by
  refine h.invariant (I := Holds) ?_ fun _ _ _ hs he hstep => hs.step he hstep
  refine ⟨⟨⟨fun _ _ hx => (by cases hx), fun _ _ _ hx => (by cases hx)⟩, fun _ hr => (by cases hr),
    .inr ⟨fun _ => rfl, fun _ _ hf => (by cases hf)⟩⟩, fun x => ?_, List.nodup_nil⟩
  exact iff_of_false (fun hx => by cases hx) (not_or.mpr ⟨List.not_mem_nil, List.not_mem_nil⟩)

/-- **The addresses that fail are those without a listening socket**, and `ssl` is taken over if there is one. -/
theorem bind_eq {bs fails : List Binding} {ssl ok : Bool} (h : server.bind bs ssl = some (ok, fails, server')) :
    ok = bs.all Binding.succeeds ∧ fails = bs.filter (fun b => !b.succeeds) ∧
    server'.sockets = server.sockets ++ (bs.filter Binding.succeeds).map Binding.x ∧
    server'.ssl = if bs.any Binding.succeeds then ssl else server.ssl := by
  obtain ⟨⟨fails', server₁⟩, hall, heq⟩ := Option.map_eq_some_iff.mp h
  cases heq
  obtain ⟨hfails, hserver⟩ := bindAll_spec hall
  have hlength : bs.length ≠ fails.length ↔ bs.any Binding.succeeds = true := by
    rw [hfails, ne_comm, Ne, List.length_filter_eq_length_iff, List.any_eq_true]
    simp
  have hempty : fails.isEmpty = bs.all Binding.succeeds := by
    rw [hfails, Bool.eq_iff_iff, List.isEmpty_iff, List.filter_eq_nil_iff, List.all_eq_true]
    simp
  refine ⟨hempty, hfails, ?_, ?_⟩
  · split
    · rw [hserver]
    · rw [hserver]
  · split
    · next hne => rw [if_pos (hlength.mp hne)]
    · next heq => rw [if_neg (mt hlength.mpr heq), hserver]

/--
**An open descriptor is that of just one listening socket or client**, in every run that loses nothing, and none is
open, and no context is left, when the server has stopped and its handlers have returned.
-/
theorem open_iff_held (h : serving.ReachableBy Keeps server) :
    (∀ fd, (server.process.world.kernel.table fd).isSome = true ↔
      ∃! x, (x ∈ server.sockets ∨ x ∈ server.clients) ∧ server.process.fdOf x = some fd) ∧
    (server.sockets = [] → server.clients = [] → ∀ fd,
      server.process.world.kernel.table fd = none ∧ server.process.world.manager fd = none) := by
  obtain ⟨⟨hsound, hcovered, htidy⟩, hobjects, -⟩ := holds_of_reachable h
  have hheld : ∀ {x fd}, server.process.fdOf x = some fd → x ∈ server.sockets ∨ x ∈ server.clients := by
    intro x fd hx
    rw [← hobjects x]
    obtain ⟨sock, hsock, -⟩ := Option.bind_eq_some_iff.mp hx
    rw [hsock]
    rfl
  have hopen : ∀ fd, (server.process.world.kernel.table fd).isSome = true ↔
      ∃! x, (x ∈ server.sockets ∨ x ∈ server.clients) ∧ server.process.fdOf x = some fd := by
    intro fd
    constructor
    · intro hfd
      obtain ⟨x, hx⟩ := hcovered fd hfd
      exact ⟨x, ⟨hheld hx, hx⟩, fun y hy => hsound.unique y x fd hy.2 hx⟩
    · rintro ⟨x, ⟨-, hx⟩, -⟩
      exact hsound.isOpen x fd hx
  refine ⟨hopen, fun hsockets hclients fd => ?_⟩
  have hnone : server.process.world.kernel.table fd = none := by
    rw [← Option.not_isSome_iff_eq_none, hopen fd, hsockets, hclients]
    rintro ⟨x, ⟨hx, -⟩, -⟩
    exact hx.elim List.not_mem_nil List.not_mem_nil
  exact ⟨hnone, (htidy.resolve_left (by decide)).1.manager_none hnone⟩

/-- One of two addresses is taken already. A client is accepted, the server stops, and the handler returns. -/
def day : List Event :=
  [.bind [⟨0, 2, some 3, true, true, true⟩, ⟨1, 2, some 4, false, true, true⟩] true, .start,
    .accept 0 2 true (some 4) true, .accept 0 3 true none true, .stop [], .closeClient 2 true, .handled 2 true]

theorem open_iff_held_day : ∃ server, serving.runBy Keeps serving.init day = some server ∧
    (server.sockets, server.clients, server.ssl) = ([], [], true) ∧
    (∀ fd, (server.process.world.kernel.table fd).isSome = true ↔
      ∃! x, (x ∈ server.sockets ∨ x ∈ server.clients) ∧ server.process.fdOf x = some fd) ∧
    (server.sockets = [] → server.clients = [] → ∀ fd,
      server.process.world.kernel.table fd = none ∧ server.process.world.manager fd = none) := by
  have hrun : (serving.runBy Keeps serving.init day).map
      (fun server => (server.sockets, server.clients, server.ssl)) = some ([], [], true) := by
    decide +kernel
  obtain ⟨server, hserver, hq⟩ := Option.map_eq_some_iff.mp hrun
  exact ⟨server, hserver, hq, open_iff_held (.of_runBy .init hserver)⟩

end

end TcpServer

end Nemo.Net
