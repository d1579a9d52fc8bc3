import Nemo.Infra.Handles
import Nemo.Net.FdMirror

/-!
# `Socket`

The objects of the class `Socket` of `src/net/socket.cc`, and the descriptors that they make with the hooked calls. An
object owns the descriptor in its `sockFd_` until it closes it. A call is one step, and names what the kernel
answers to the calls that it makes.

* `owner_open` — no descriptor is in two objects, and every object's descriptor is open, in every run in which no
  `::close` fails
* `open_iff_owned` — and every open descriptor is in just one object, and has its context, if nothing is lost on
  the way
* `release_lost` — a descriptor that goes with its stream stays open for good

After a `::close` that fails the object keeps the number of a descriptor that the kernel has released.
-/

namespace Nemo.Net

open Function (update)
open Infra

/-- A `Socket`; `-1` is none. `remoteAddress` says whether `remoteAddress_` is set. -/
structure Socket where
  sockAttr : SocketAttribute
  sockFd : Option Nat := none
  isConnect : Bool := false
  remoteAddress : Bool := false
  deriving DecidableEq

def Socket.isValid (sock : Socket) : Bool := sock.sockFd.isSome

/-- The process, with its `Socket`s. -/
structure Sockets where
  world : World := {}
  socket : Nat → Option Socket := fun _ => none

namespace Sockets

variable (s : Sockets) (x : Nat) (sock : Socket)

def set : Sockets := { s with socket := update s.socket x (some sock) }

/-- The descriptor of an object. -/
def fdOf : Option Nat := (s.socket x).bind Socket.sockFd

/-! ## The members of the class -/

/-- The constructor. -/
def create (attr : SocketAttribute) : Option Sockets :=
  if s.socket x = none then some (s.set x { sockAttr := attr }) else none

/-- `newSock`, with what `socket` answers. -/
def newSock (answer : Option Nat) : Option Sockets :=
  (s.world.step (.socket sock.sockAttr answer)).map fun world =>
    { s with world := world }.set x { sock with sockFd := answer }

/-- `CreateUdp`, `CreateUdpSocket` and their like: the socket is made at once. -/
def createUdp (attr : SocketAttribute) (answer : Option Nat) : Option Sockets := do
  let s ← s.create x attr
  let s ← s.newSock x { sockAttr := attr } answer
  some (s.set x { sockAttr := attr, sockFd := answer, isConnect := true })

/-- What `bind` and `connect` begin with: the socket is made if there is none. -/
def ensure (answer : Option Nat) : Option (Socket × Sockets) :=
  if sock.isValid then some (sock, s)
  else (s.newSock x sock answer).map fun s => ({ sock with sockFd := answer }, s)

/-- `bind`. `ok` says whether the system call succeeds. -/
def bind (family : UInt32) (answer : Option Nat) (ok : Bool) : Option (Bool × Sockets) :=
  (s.ensure x sock answer).map fun (sock, s) => (sock.isValid && family = sock.sockAttr.family && ok, s)

/-- `listen` -/
def listen (ok : Bool) : Bool × Sockets := (sock.isValid && ok, s)

/-- `close`. A failing `::close` has released the descriptor as well, and the object keeps its number. -/
def close (ok : Bool) : Option (Bool × Sockets) :=
  match sock.sockFd with
  | none => some (true, s.set x { sock with isConnect := false })
  | some fd =>
    (s.world.step (.close fd ok)).map fun world =>
      (ok, { s with world := world }.set x
        { sock with isConnect := false, sockFd := if ok then none else some fd })

/--
`connect`. `peer` is what `getpeername` answers. For another family the line of the log takes the remote address, which
may not be there.
-/
def connect (family : UInt32) (answer : Option Nat) (ok closeOk peer : Bool) : Option (Bool × Sockets) := do
  let (sock, s) ← s.ensure x sock answer
  if !sock.isValid then some (false, s)
  else if family ≠ sock.sockAttr.family then if sock.remoteAddress then some (false, s) else none
  else if !ok then (s.close x sock closeOk).map fun r => (false, r.2)
  else some (true, s.set x { sock with isConnect := true, remoteAddress := sock.remoteAddress || peer })

/--
`accept`: the new object, if its `init` finds a context of a socket for the descriptor. Otherwise it goes without it.
-/
def accept (y : Nat) (inCoroutine : Bool) (answer : Option Nat) (peer : Bool) : Option (Bool × Sockets) :=
  if s.socket y ≠ none then none
  else
    match sock.sockFd, answer with
    | none, none => some (false, s)
    -- `accept` fails for -1
    | none, some _ => none
    | some fd, _ => do
      let world ← s.world.step (.accept fd inCoroutine answer)
      let s := { s with world := world }
      match answer with
      | none => some (false, s)
      | some newFd =>
        if (world.manager newFd).any FdContext.isSocket then
          some (true, s.set y
            { sockAttr := sock.sockAttr, sockFd := some newFd, isConnect := true, remoteAddress := peer })
        else some (false, s)

/-- `getRemoteAddress` -/
def getRemoteAddress (peer : Bool) : Sockets :=
  s.set x { sock with remoteAddress := sock.remoteAddress || sock.isValid && peer }

/-- The destructor. -/
def destroy (ok : Bool) : Option Sockets :=
  (s.close x sock ok).map fun r => { r.2 with socket := update r.2.socket x none }

/--
The destructor of a `SocketStream` that was made from a `Socket::UniquePtr`. Its `owner_` is never set: the object is
released, and nobody has it.
-/
def release : Sockets := { s with socket := update s.socket x none }

/-! ## Steps -/

inductive Call
  | create (x : Nat) (attr : SocketAttribute)
  | createUdp (x : Nat) (attr : SocketAttribute) (answer : Option Nat)
  | bind (x : Nat) (family : UInt32) (answer : Option Nat) (ok : Bool)
  | listen (x : Nat) (ok : Bool)
  | connect (x : Nat) (family : UInt32) (answer : Option Nat) (ok closeOk peer : Bool)
  | accept (x y : Nat) (inCoroutine : Bool) (answer : Option Nat) (peer : Bool)
  | close (x : Nat) (ok : Bool)
  | getRemoteAddress (x : Nat) (peer : Bool)
  | destroy (x : Nat) (ok : Bool)
  | release (x : Nat)
  deriving DecidableEq

def step : Call → Option Sockets
  | .create x attr => s.create x attr
  | .createUdp x attr answer => s.createUdp x attr answer
  | .bind x family answer ok => (s.socket x).bind fun sock => (s.bind x sock family answer ok).map Prod.snd
  | .listen x ok => (s.socket x).map fun sock => (s.listen sock ok).2
  | .connect x family answer ok closeOk peer =>
    (s.socket x).bind fun sock => (s.connect x sock family answer ok closeOk peer).map Prod.snd
  | .accept x y inCoroutine answer peer =>
    (s.socket x).bind fun sock => (s.accept sock y inCoroutine answer peer).map Prod.snd
  | .close x ok => (s.socket x).bind fun sock => (s.close x sock ok).map Prod.snd
  | .getRemoteAddress x peer => (s.socket x).map fun sock => s.getRemoteAddress x sock peer
  | .destroy x ok => (s.socket x).bind fun sock => s.destroy x sock ok
  | .release x => (s.socket x).map fun _ => s.release x

/-- A process without descriptors, and the calls on its sockets. -/
def sockets : Lts Sockets Call where
  init := {}
  step := step

/-! ## Owners -/

/-- The descriptors that are open, and the objects that have them. -/
def handles : Handles Nat Nat where
  isOpen fd := (s.world.kernel.table fd).isSome
  owner := s.fdOf

/-- Every `::close` succeeds. -/
def Closes (_ : Sockets) : Call → Prop
  | .connect _ _ _ _ closeOk _ => closeOk = true
  | .close _ ok | .destroy _ ok => ok = true
  | _ => True

instance (s : Sockets) (a : Call) : Decidable (Closes s a) := by
  unfold Closes
  split <;> infer_instance

/-- Nothing is lost: descriptors are positive, connections are accepted in coroutines, every `::close` succeeds, and
no stream gives up a socket that has a descriptor. -/
def Kept (s : Sockets) : Call → Prop
  | .createUdp _ _ answer | .bind _ _ answer _ => ∀ fd ∈ answer, fd > 0
  | .connect _ _ answer _ closeOk _ => (∀ fd ∈ answer, fd > 0) ∧ closeOk = true
  | .accept _ _ inCoroutine answer _ => ∀ fd ∈ answer, inCoroutine = true ∧ fd > 0
  | .close _ ok | .destroy _ ok => ok = true
  | .release x => s.fdOf x = none
  | .create _ _ | .listen _ _ | .getRemoteAddress _ _ => True

theorem Kept.closes {s : Sockets} {a : Call} (h : Kept s a) : Closes s a := by
  cases a with
  | connect x family answer ok closeOk peer => exact And.right h
  | close x ok | destroy x ok => exact h
  | _ => trivial

/-- The contexts of the descriptors are right, or it does not matter. -/
def Tidy (lossy : Bool) (w : World) : Prop := lossy = true ∨ w.Mirrors ∧ w.Fresh

/-- What a member does to the descriptors and their contexts. -/
def Does (lossy : Bool) (s s' : Sockets) : Prop :=
  Tidy lossy s.world → s.handles.Changes lossy s'.handles ∧ Tidy lossy s'.world

section

variable {s s' s'' : Sockets} {x y : Nat} {sock sock' : Socket} {lossy : Bool} {w : World}

theorem Does.trans (h : Does lossy s s') (h' : Does lossy s' s'') : Does lossy s s'' := fun ht => by
  obtain ⟨hc, ht⟩ := h ht
  obtain ⟨hc', ht⟩ := h' ht
  exact ⟨hc.trans hc', ht⟩

/-- The same descriptors are in the same objects. -/
theorem Does.of_eq (hworld : s'.world = s.world) (howner : s'.fdOf = s.fdOf) : Does lossy s s' := fun ht => by
  have heq : s'.handles = s.handles := by
    unfold handles
    rw [hworld, howner]
  exact ⟨heq ▸ .refl, hworld ▸ ht⟩

theorem fdOf_set (s : Sockets) (x : Nat) (sock : Socket) : (s.set x sock).fdOf = update s.fdOf x sock.sockFd := by
  funext y
  unfold fdOf set
  dsimp only
  rw [Function.update_apply, Function.update_apply]
  split <;> rfl

theorem fdOf_of_socket (h : s.socket x = some sock) : s.fdOf x = sock.sockFd := by
  rw [fdOf, h]
  rfl

/-- An object with the same descriptor. -/
theorem fdOf_set_same (h : s.fdOf x = sock.sockFd) : (s.set x sock).fdOf = s.fdOf := by
  rw [fdOf_set, ← h, Function.update_eq_self]

theorem socket_set (s : Sockets) (x : Nat) (sock : Socket) : (s.set x sock).socket x = some sock :=
  Function.update_self ..

/-! ### What the kernel does -/

theorem isOpen_update (table : Nat → Option FileId) (fd : Nat) (f : Option FileId) :
    (fun d => (update table fd f d).isSome) = update (fun d => (table d).isSome) fd f.isSome := by
  funext d
  rw [Function.update_apply, Function.update_apply]
  split <;> rfl

/-- A descriptor that has been made was free. -/
theorem isOpen_of_socket {attr : SocketAttribute} {fd : Nat}
    (h : s.world.step (.socket attr (some fd)) = some w) :
    s.handles.isOpen fd = false ∧ (fun d => (w.kernel.table d).isSome) = update s.handles.isOpen fd true := by
  rw [World.step] at h
  split at h
  · next hfree =>
    cases h
    exact ⟨congrArg Option.isSome hfree, isOpen_update ..⟩
  · cases h

theorem isOpen_of_accept {l fd : Nat} {inCoroutine : Bool}
    (h : s.world.step (.accept l inCoroutine (some fd)) = some w) :
    s.handles.isOpen fd = false ∧ (fun d => (w.kernel.table d).isSome) = update s.handles.isOpen fd true := by
  rw [World.step] at h
  split at h
  · cases h
  · split at h
    · cases h
    · next hfree =>
      have hnone : s.world.kernel.table fd = none := by
        by_contra hne
        exact hfree (.inr hne)
      refine ⟨congrArg Option.isSome hnone, ?_⟩
      split at h
      · split at h
        · cases h
        · cases h
          exact isOpen_update ..
      · cases h
        exact isOpen_update ..

/-- What has been accepted is a socket. -/
theorem objectOf_of_accept {l fd : Nat} {inCoroutine : Bool}
    (h : s.world.step (.accept l inCoroutine (some fd)) = some w) :
    ∃ object, w.kernel.objectOf fd = some object ∧ object.type = .socket := by
  have hcreate : ∀ object : Object,
      (s.world.kernel.create fd object false).objectOf fd = some object := fun object => by
    unfold Kernel.objectOf Kernel.create
    dsimp only
    rw [Function.update_self, Option.map_some, Function.update_self]
  rw [World.step] at h
  split at h
  · cases h
  · split at h
    · cases h
    · split at h
      · split at h
        · cases h
        · cases h
          exact ⟨_, hcreate _, rfl⟩
      · cases h
        exact ⟨_, hcreate _, rfl⟩

theorem isOpen_of_close {fd : Nat} (h : s.world.step (.close fd true) = some w) :
    (fun d => (w.kernel.table d).isSome) = update s.handles.isOpen fd false := by
  rw [World.step, World.close] at h
  split at h
  · cases h
  · cases h
    exact isOpen_update ..

/-- A tracked call keeps the contexts right. -/
theorem Tidy.step {a : World.Call} (ht : Tidy lossy s.world) (ha : lossy = true ∨ s.world.Tracked a)
    (h : s.world.step a = some w) : Tidy lossy w := by
  rcases ht with hl | ⟨hm, hf⟩
  · exact .inl hl
  · rcases ha with hl | ha
    · exact .inl hl
    · exact .inr (World.mirrors_step hm hf ha h)

/-! ### What the members do -/

theorem create_does {attr : SocketAttribute} (h : s.create x attr = some s') : Does lossy s s' := by
  unfold create at h
  split at h
  · next hnone =>
    cases h
    exact .of_eq rfl (fdOf_set_same (by rw [fdOf, hnone]; rfl))
  · cases h

/-- `newSock` opens a descriptor for an object that has none. -/
theorem newSock_does {answer : Option Nat} (hx : s.fdOf x = none) (hk : lossy = true ∨ ∀ fd ∈ answer, fd > 0)
    (h : s.newSock x sock answer = some s') :
    Does lossy s s' ∧ s'.socket x = some { sock with sockFd := answer } := by
  obtain ⟨w, hw, rfl⟩ := Option.map_eq_some_iff.mp h
  refine ⟨fun ht => ?_, socket_set ..⟩
  cases answer with
  | none =>
    cases hw
    exact Does.of_eq rfl (fdOf_set_same hx) ht
  | some fd =>
    obtain ⟨hfree, hopen⟩ := isOpen_of_socket hw
    refine ⟨?_, ht.step (hk.imp_right fun hk => hk fd rfl) hw⟩
    have heq : (set { s with world := w } x { sock with sockFd := some fd }).handles = s.handles.opened x fd := by
      unfold handles Handles.opened
      rw [fdOf_set]
      exact congrArg (fun o => Handles.mk o _) hopen
    rw [heq]
    exact .opened .refl hfree hx

theorem ensure_does {answer : Option Nat} (hs : s.socket x = some sock)
    (hk : lossy = true ∨ ∀ fd ∈ answer, fd > 0) (h : s.ensure x sock answer = some (sock', s')) :
    Does lossy s s' ∧ s'.socket x = some sock' := by
  unfold ensure at h
  split at h
  · cases h
    exact ⟨.of_eq rfl rfl, hs⟩
  · next hvalid =>
    obtain ⟨s₁, hnew, heq⟩ := Option.map_eq_some_iff.mp h
    cases heq
    refine newSock_does ?_ hk hnew
    rw [fdOf_of_socket hs]
    exact Option.not_isSome_iff_eq_none.mp hvalid

theorem createUdp_does {attr : SocketAttribute} {answer : Option Nat} (hk : lossy = true ∨ ∀ fd ∈ answer, fd > 0)
    (h : s.createUdp x attr answer = some s') : Does lossy s s' := by
  obtain ⟨s₁, hcreate, h⟩ := Option.bind_eq_some_iff.mp h
  obtain ⟨s₂, hnew, h⟩ := Option.bind_eq_some_iff.mp h
  cases h
  have hs₁ : s₁.fdOf x = none := by
    unfold create at hcreate
    split at hcreate
    · cases hcreate
      rw [fdOf_set, Function.update_self]
    · cases hcreate
  obtain ⟨hdoes, hsocket⟩ := newSock_does hs₁ hk hnew
  exact ((create_does hcreate).trans hdoes).trans (.of_eq rfl (fdOf_set_same
    (show s₂.fdOf x = answer from fdOf_of_socket hsocket)))

theorem close_does {b : Bool} (hs : s.socket x = some sock) (h : s.close x sock true = some (b, s')) :
    Does lossy s s' ∧ s'.fdOf x = none := by
  have hx := fdOf_of_socket hs
  unfold close at h
  split at h
  · next hfd =>
    cases h
    rw [hfd] at hx
    refine ⟨.of_eq rfl (fdOf_set_same (hx.trans hfd.symm)), ?_⟩
    rw [fdOf_set, Function.update_self]
    exact hfd
  · next fd hfd =>
    rw [hfd] at hx
    obtain ⟨w, hw, heq⟩ := Option.map_eq_some_iff.mp h
    cases heq
    have htracked : s.world.Tracked (.close fd true) := trivial
    refine ⟨fun ht => ⟨?_, ht.step (.inr htracked) hw⟩, ?_⟩
    · have heq : (set { s with world := w } x { sock with isConnect := false, sockFd := none }).handles =
          s.handles.closed x fd := by
        unfold handles Handles.closed
        rw [fdOf_set]
        exact congrArg (fun o => Handles.mk o _) (isOpen_of_close hw)
      exact (congrArg (Handles.Changes lossy s.handles) heq).mpr (.closed .refl hx)
    · rw [fdOf_set, Function.update_self]
      rfl

/-- An object that is gone, with or without its descriptor. -/
theorem drop_does (hk : lossy = true ∨ s.fdOf x = none) : Does lossy s (s.release x) := fun ht => by
  have heq : (s.release x).handles = s.handles.dropped x := by
    unfold handles Handles.dropped release fdOf
    congr 1
    funext y
    dsimp only
    rw [Function.update_apply, Function.update_apply]
    split <;> rfl
  exact ⟨heq ▸ .dropped .refl hk, ht⟩

theorem destroy_does (hs : s.socket x = some sock) (h : s.destroy x sock true = some s') : Does lossy s s' := by
  obtain ⟨⟨b, s₁⟩, hclose, rfl⟩ := Option.map_eq_some_iff.mp h
  obtain ⟨hdoes, hnone⟩ := close_does hs hclose
  exact hdoes.trans (drop_does (.inr hnone))

theorem connect_does {family : UInt32} {answer : Option Nat} {ok peer b : Bool} (hs : s.socket x = some sock)
    (hk : lossy = true ∨ ∀ fd ∈ answer, fd > 0)
    (h : s.connect x sock family answer ok true peer = some (b, s')) : Does lossy s s' := by
  obtain ⟨⟨sock₁, s₁⟩, hensure, h⟩ := Option.bind_eq_some_iff.mp h
  obtain ⟨hdoes, hs₁⟩ := ensure_does hs hk hensure
  refine hdoes.trans ?_
  dsimp only at h
  split at h
  · cases h
    exact .of_eq rfl rfl
  · split at h
    · split at h
      · cases h
        exact .of_eq rfl rfl
      · cases h
    · split at h
      · obtain ⟨⟨b', s₂⟩, hclose, heq⟩ := Option.map_eq_some_iff.mp h
        cases heq
        exact (close_does hs₁ hclose).1
      · cases h
        exact .of_eq rfl (fdOf_set_same (show s₁.fdOf x = sock₁.sockFd from fdOf_of_socket hs₁))

/-- A connection is in the new object, or it is lost. -/
theorem accept_does {inCoroutine peer b : Bool} {answer : Option Nat}
    (hk : lossy = true ∨ ∀ fd ∈ answer, inCoroutine = true ∧ fd > 0)
    (h : s.accept sock y inCoroutine answer peer = some (b, s')) : Does lossy s s' := by
  unfold accept at h
  split at h
  · cases h
  · next hy =>
    have hnone : s.fdOf y = none := by rw [fdOf, not_not.mp hy]; rfl
    cases hsock : sock.sockFd with
    | none =>
      rw [hsock] at h
      cases answer with
      | none =>
        cases h
        exact .of_eq rfl rfl
      | some newFd => cases h
    | some fd =>
      rw [hsock] at h
      obtain ⟨w, hw, h⟩ := Option.bind_eq_some_iff.mp h
      cases answer with
      | none =>
        cases h
        cases hw
        exact .of_eq rfl rfl
      | some newFd =>
        intro ht
        have htidy : Tidy lossy w := ht.step (hk.imp_right fun hk => hk newFd rfl) hw
        obtain ⟨hfree, hopen⟩ := isOpen_of_accept hw
        dsimp only at h
        split at h
        · cases h
          refine ⟨?_, htidy⟩
          have heq : (set { s with world := w } y
              { sockAttr := sock.sockAttr, sockFd := some newFd, isConnect := true, remoteAddress := peer }).handles =
              s.handles.opened y newFd := by
            unfold handles Handles.opened
            rw [fdOf_set]
            exact congrArg (fun o => Handles.mk o _) hopen
          exact (congrArg (Handles.Changes lossy s.handles) heq).mpr (.opened .refl hfree hnone)
        · next hinit =>
          cases h
          refine ⟨?_, htidy⟩
          have heq : handles { s with world := w } = s.handles.strayed newFd := by
            unfold handles Handles.strayed
            exact congrArg (fun o => Handles.mk o _) hopen
          refine (congrArg (Handles.Changes lossy s.handles) heq).mpr (.strayed .refl ?_ hfree)
          -- the context of the descriptor is the one that the hook has made
          rcases htidy with hl | ⟨hm, -⟩
          · exact hl
          · obtain ⟨object, hobject, htype⟩ := objectOf_of_accept hw
            obtain ⟨c, hc, rfl⟩ := Option.map_eq_some_iff.mp ((hm newFd).trans hobject)
            refine absurd ?_ hinit
            rw [hc]
            exact decide_eq_true htype

/-! ## Runs -/

theorem bind_does {family : UInt32} {answer : Option Nat} {ok b : Bool} (hs : s.socket x = some sock)
    (hk : lossy = true ∨ ∀ fd ∈ answer, fd > 0) (h : s.bind x sock family answer ok = some (b, s')) :
    Does lossy s s' := by
  obtain ⟨⟨sock₁, s₁⟩, hensure, heq⟩ := Option.map_eq_some_iff.mp h
  cases heq
  exact (ensure_does hs hk hensure).1

/-- Every call opens and closes, and loses only what may be lost. -/
theorem step_does {a : Call} (hc : Closes s a) (hk : lossy = true ∨ Kept s a) (h : s.step a = some s') :
    Does lossy s s' := by
  cases a with
  | create x attr => exact create_does h
  | createUdp x attr answer => exact createUdp_does hk h
  | bind x family answer ok =>
    obtain ⟨sock, hs, h⟩ := Option.bind_eq_some_iff.mp h
    obtain ⟨⟨b, s₁⟩, hbind, rfl⟩ := Option.map_eq_some_iff.mp h
    exact bind_does hs hk hbind
  | listen x ok =>
    obtain ⟨sock, hs, rfl⟩ := Option.map_eq_some_iff.mp h
    exact .of_eq rfl rfl
  | connect x family answer ok closeOk peer =>
    obtain ⟨sock, hs, h⟩ := Option.bind_eq_some_iff.mp h
    obtain ⟨⟨b, s₁⟩, hconnect, rfl⟩ := Option.map_eq_some_iff.mp h
    obtain rfl : closeOk = true := hc
    exact connect_does hs (hk.imp_right And.left) hconnect
  | accept x y inCoroutine answer peer =>
    obtain ⟨sock, hs, h⟩ := Option.bind_eq_some_iff.mp h
    obtain ⟨⟨b, s₁⟩, haccept, rfl⟩ := Option.map_eq_some_iff.mp h
    exact accept_does hk haccept
  | close x ok =>
    obtain ⟨sock, hs, h⟩ := Option.bind_eq_some_iff.mp h
    obtain ⟨⟨b, s₁⟩, hclose, rfl⟩ := Option.map_eq_some_iff.mp h
    obtain rfl : ok = true := hc
    exact (close_does hs hclose).1
  | getRemoteAddress x peer =>
    obtain ⟨sock, hs, rfl⟩ := Option.map_eq_some_iff.mp h
    exact .of_eq rfl (fdOf_set_same (show s.fdOf x = sock.sockFd from fdOf_of_socket hs))
  | destroy x ok =>
    obtain ⟨sock, hs, h⟩ := Option.bind_eq_some_iff.mp h
    obtain rfl : ok = true := hc
    exact destroy_does hs h
  | release x =>
    obtain ⟨sock, hs, rfl⟩ := Option.map_eq_some_iff.mp h
    exact drop_does hk

theorem step_changes {a : Call} (hc : Closes s a) (h : s.step a = some s') :
    s.handles.Changes true s'.handles :=
  (step_does hc (.inl rfl) h (.inl rfl)).1

instance (s : Sockets) (a : Call) : Decidable (Kept s a) := by
  unfold Kept
  split <;> infer_instance

/-- A server that accepts a connection at 5 and closes it, and a client that gets its number. -/
def serving : List Call :=
  [.createUdp 0 World.tcp (some 3), .create 1 World.tcp, .bind 1 2 (some 4) true, .listen 1 true,
    .accept 1 2 true (some 5) true, .close 2 true, .create 3 World.tcp, .connect 3 2 (some 5) true true true,
    .destroy 2 true, .accept 1 2 true (some 6) false, .destroy 0 true]

theorem sound_of_reachable (h : sockets.ReachableBy Closes s) : s.handles.Sound :=
  h.invariant (I := fun s => s.handles.Sound)
    ⟨fun _ _ hx => (by cases hx), fun _ _ _ hx => (by cases hx)⟩
    fun _ _ _ hs hc hstep => (step_changes hc hstep).sound hs

/-- **No descriptor is in two objects, and every object's descriptor is open**, as long as no `::close` fails. -/
theorem owner_open (h : sockets.ReachableBy Closes s) {x fd : Nat} (hx : s.fdOf x = some fd) :
    (s.world.kernel.table fd).isSome = true ∧ ∀ y, s.fdOf y = some fd → y = x := by
  have hsound := sound_of_reachable h
  exact ⟨hsound.isOpen x fd hx, fun y hy => hsound.unique y x fd hy hx⟩

/-- A stream goes with its socket, and the socket behind it is accepted outside of a coroutine. -/
theorem owner_open_lossy : ∃ s, sockets.runBy Closes sockets.init
    [.create 1 World.tcp, .bind 1 2 (some 4) true, .accept 1 2 true (some 5) true, .release 2,
      .accept 1 2 false (some 6) true] = some s ∧
    [s.fdOf 1, s.fdOf 2] = [some 4, none] ∧ s.handles.isOpen 5 = true ∧ s.handles.isOpen 6 = true ∧
    (s.world.kernel.table 4).isSome = true ∧ ∀ y, s.fdOf y = some 4 → y = 1 := by
  have hrun : (sockets.runBy Closes sockets.init
      [.create 1 World.tcp, .bind 1 2 (some 4) true, .accept 1 2 true (some 5) true, .release 2,
        .accept 1 2 false (some 6) true]).map
      (fun s => ([s.fdOf 1, s.fdOf 2], s.handles.isOpen 5, s.handles.isOpen 6)) =
      some ([some 4, none], true, true) := by
    decide +kernel
  obtain ⟨s, hs, hq⟩ := Option.map_eq_some_iff.mp hrun
  rw [Prod.mk.injEq, Prod.mk.injEq] at hq
  have hfd : s.fdOf 1 = some 4 := List.head_eq_of_cons_eq hq.1
  exact ⟨s, hs, hq.1, hq.2.1, hq.2.2, owner_open (.of_runBy .init hs) hfd⟩

theorem kept_invariant (h : sockets.ReachableBy Kept s) :
    s.handles.Covered ∧ s.world.Mirrors ∧ s.world.Fresh := by
  refine h.invariant (I := fun s => s.handles.Covered ∧ s.world.Mirrors ∧ s.world.Fresh)
    ⟨fun _ hr => (by cases hr), fun _ => rfl, fun _ _ hf => (by cases hf)⟩ ?_
  intro s a s' ⟨hcov, htidy⟩ ha hstep
  obtain ⟨hc, htidy⟩ : s.handles.Changes false s'.handles ∧ _ := step_does ha.closes (.inr ha) hstep (.inr htidy)
  exact ⟨hc.covered hcov, htidy.resolve_left (by decide)⟩

/-- **Every open descriptor is in just one object, and has its context**, in every run that loses nothing. -/
theorem open_iff_owned (h : sockets.ReachableBy Kept s) :
    (∀ fd, (s.world.kernel.table fd).isSome = true ↔ ∃! x, s.fdOf x = some fd) ∧ s.world.Mirrors := by
  obtain ⟨hcov, hm, -⟩ := kept_invariant h
  have hsound := sound_of_reachable (h.mono fun _ _ => Kept.closes)
  refine ⟨fun fd => ⟨fun hopen => ?_, fun ⟨x, hx, _⟩ => hsound.isOpen x fd hx⟩, hm⟩
  obtain ⟨x, hx⟩ := hcov fd hopen
  exact ⟨x, hx, fun y hy => hsound.unique y x fd hy hx⟩

theorem open_iff_owned_serving : ∃ s, sockets.runBy Kept sockets.init serving = some s ∧
    [s.fdOf 0, s.fdOf 1, s.fdOf 2, s.fdOf 3] = [none, some 4, some 6, some 5] ∧
    (∀ fd, (s.world.kernel.table fd).isSome = true ↔ ∃! x, s.fdOf x = some fd) ∧ s.world.Mirrors := by
  have hrun : (sockets.runBy Kept sockets.init serving).map
      (fun s => [s.fdOf 0, s.fdOf 1, s.fdOf 2, s.fdOf 3]) = some [none, some 4, some 6, some 5] := by
    decide +kernel
  obtain ⟨s, hs, hq⟩ := Option.map_eq_some_iff.mp hrun
  exact ⟨s, hs, hq, open_iff_owned (.of_runBy .init hs)⟩

/--
**A descriptor that goes with its stream stays open** in every run from there on, and no object gets it again, as
long as no `::close` fails.
-/
theorem release_lost (h : sockets.ReachableBy Closes s) {x fd : Nat} (hx : s.fdOf x = some fd) {s' : Sockets}
    (hlater : ({ sockets with init := s.release x } : Lts Sockets Call).ReachableBy Closes s') :
    s'.handles.Lost fd := by
  have hsound := sound_of_reachable h
  have hrelease : (s.release x).handles.Lost fd := by
    refine ⟨hsound.isOpen x fd hx, fun y hy => ?_⟩
    by_cases hyx : y = x
    · subst hyx
      have hnone : (s.release y).fdOf y = none := by
        unfold fdOf release
        dsimp only
        rw [Function.update_self]
        rfl
      rw [show (s.release y).fdOf y = some fd from hy] at hnone
      cases hnone
    · have hsame : (s.release x).fdOf y = s.fdOf y := by
        unfold fdOf release
        dsimp only
        rw [Function.update_of_ne hyx]
      exact hyx (hsound.unique y x fd (hsame.symm.trans hy) hx)
  exact hlater.invariant (I := fun s => s.handles.Lost fd) hrelease
    fun _ _ _ hs hc hstep => (step_changes hc hstep).lost hs

/-- Every object is gone, and the descriptor of the stream is not. -/
theorem release_lost_destroyed : ∃ s s', sockets.runBy Closes sockets.init
      [.create 1 World.tcp, .bind 1 2 (some 4) true, .accept 1 2 true (some 5) true] = some s ∧
    ({ sockets with init := s.release 2 } : Lts Sockets Call).runBy Closes (s.release 2) [.destroy 1 true] =
      some s' ∧
    [s'.socket 1, s'.socket 2] = [none, none] ∧ s'.handles.Lost 5 := by
  have hrun : (sockets.runBy Closes sockets.init
      [.create 1 World.tcp, .bind 1 2 (some 4) true, .accept 1 2 true (some 5) true]).map
      (fun s => (s.fdOf 2, (({ sockets with init := s.release 2 } : Lts Sockets Call).runBy Closes (s.release 2)
        [.destroy 1 true]).map fun s' => [s'.socket 1, s'.socket 2])) = some (some 5, some [none, none]) := by
    decide +kernel
  obtain ⟨s, hs, hq⟩ := Option.map_eq_some_iff.mp hrun
  rw [Prod.mk.injEq] at hq
  obtain ⟨s', hs', hq'⟩ := Option.map_eq_some_iff.mp hq.2
  exact ⟨s, s', hs, hs', hq', release_lost (.of_runBy .init hs) hq.1 (.of_runBy .init hs')⟩

end

end Sockets

end Nemo.Net
