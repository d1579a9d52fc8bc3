import Mathlib.Logic.Function.Basic
import Nemo.Infra.Lts

/-!
# `FdManager` and the descriptor table

The hooks of `src/net/io/hook.cc` that make, copy and close descriptors or set `O_NONBLOCK`, with
`FdContext` and `FdManager` of `src/util/file_descriptor.cc`, beside the part of the kernel that they
talk to: a table from descriptors to open files, which duplicates share.

A call is one step, and names what the kernel answers. Hooks are enabled. A negative descriptor is
an argument with which the system call fails, and the hooks do nothing then.
-/

namespace Nemo.Net

open Function (update)

abbrev FileId := Nat

/-! ## The kernel -/

/-- `O_NONBLOCK`, which is `SOCK_NONBLOCK` as well. -/
def oNonBlock : UInt32 := 0x800

def hasNonBlock (flags : UInt32) : Bool := flags &&& oNonBlock != 0

/-- `FdContext::FdType` -/
inductive FdType
  | socket | pipe | plain | unknown
  deriving DecidableEq, Repr

structure SocketAttribute where
  family : UInt32 := -1
  type : UInt32 := -1
  protocol : UInt32 := -1
  deriving DecidableEq, Repr

/-- What a descriptor refers to, and the arguments with which it was made. -/
structure Object where
  type : FdType
  socketAttr : SocketAttribute := {}
  sendTimeout : Int := 0
  recvTimeout : Int := 0
  deriving DecidableEq, Repr

structure Kernel where
  table : Nat → Option FileId := fun _ => none
  object : FileId → Object := fun _ => { type := .unknown }
  nonBlocking : FileId → Bool := fun _ => false
  nextFile : FileId := 0

namespace Kernel

variable (k : Kernel)

/-- A new open file at the free descriptor `fd`. -/
def create (fd : Nat) (object : Object) (nonBlocking : Bool) : Kernel :=
  { table := update k.table fd (some k.nextFile)
    object := update k.object k.nextFile object
    nonBlocking := update k.nonBlocking k.nextFile nonBlocking
    nextFile := k.nextFile + 1 }

/-- `newfd` refers to what `oldfd` refers to. What it referred to before is closed. -/
def duplicate (oldfd newfd : Nat) : Kernel :=
  { k with table := update k.table newfd (k.table oldfd) }

def close (fd : Nat) : Kernel := { k with table := update k.table fd none }

def setNonBlocking (fd : Nat) (on : Bool) : Kernel :=
  match k.table fd with
  | some f => { k with nonBlocking := update k.nonBlocking f on }
  | none => k

/-- The object of an open descriptor. -/
def objectOf (fd : Nat) : Option Object := (k.table fd).map k.object

/-- `O_NONBLOCK` of an open descriptor. -/
def flagOf (fd : Nat) : Option Bool := (k.table fd).map k.nonBlocking

end Kernel

/-! ## Contexts -/

structure FdContext where
  fd : Nat
  type : FdType
  isNonBlocking : Bool
  socketAttr : SocketAttribute := {}
  sendTimeout : Int := 0
  recvTimeout : Int := 0
  tcpConnectTimeout : Int := 0
  deriving DecidableEq, Repr

namespace FdContext

variable (c : FdContext)

def isSocket : Bool := c.type = .socket

def onSetNonBlocking (isNonBlocking : Bool) : FdContext := { c with isNonBlocking := isNonBlocking }

def clone (newFd : Nat) : FdContext :=
  { fd := newFd
    type := c.type
    isNonBlocking := c.isNonBlocking
    socketAttr := c.socketAttr
    tcpConnectTimeout := c.tcpConnectTimeout
    recvTimeout := c.recvTimeout
    sendTimeout := c.sendTimeout }

end FdContext

/-- `FdManager::fdContexts_` -/
abbrev FdManager := Nat → Option FdContext

/-- `add`: `emplace` does nothing when there is a context. -/
def FdManager.add (m : FdManager) (c : FdContext) : FdManager :=
  match m c.fd with
  | some _ => m
  | none => update m c.fd (some c)

def FdManager.erase (m : FdManager) (fd : Nat) : FdManager := update m fd none

/-! ## Hooks -/

/-- The kernel, the contexts, and the `NonBlockingGuard`s with their `nonblocking_`. -/
structure World where
  kernel : Kernel := {}
  manager : FdManager := fun _ => none
  guard : Nat → Option (Nat × Bool) := fun _ => none

namespace World

variable (w : World)

/-- A hook makes a descriptor, and a context with the flag `false` for it if `tracked`. -/
def create (fd : Nat) (object : Object) (nonBlocking tracked : Bool) : World :=
  { w with
    kernel := w.kernel.create fd object nonBlocking
    manager :=
      if tracked then
        w.manager.add
          { fd := fd, type := object.type, isNonBlocking := false, socketAttr := object.socketAttr }
      else w.manager }

/-- `socketpair`, `pipe` and `pipe2` make two descriptors. -/
def createPair (fds : Nat × Nat) (object : Object) (nonBlocking : Bool) : Option World :=
  if w.kernel.table fds.1 = none ∧ w.kernel.table fds.2 = none ∧ fds.1 ≠ fds.2 then
    some ((w.create fds.1 object nonBlocking true).create fds.2 object nonBlocking true)
  else none

/-- The end of the hooks that duplicate: the context is cloned, if there is one. -/
def duplicate (oldfd newfd : Nat) : World :=
  { w with
    kernel := w.kernel.duplicate oldfd newfd
    manager :=
      match w.manager oldfd with
      | some c => w.manager.add (c.clone newfd)
      | none => w.manager }

/-- `dup` and `fcntl` with `F_DUPFD` or `F_DUPFD_CLOEXEC`: the kernel chooses a free number. -/
def dup (oldfd newfd : Nat) : Option World :=
  if (w.kernel.table oldfd).isSome ∧ w.kernel.table newfd = none then some (w.duplicate oldfd newfd)
  else none

/-- `dup2` and `dup3`. -/
def dup2 (oldfd newfd : Nat) : Option World :=
  if (w.kernel.table oldfd).isSome then
    some (if oldfd = newfd then w else w.duplicate oldfd newfd)
  else none

/--
`close`. The context goes first, whatever the system call will say. Linux releases an open descriptor whatever
`close` answers; for one that is not open it cannot answer 0.
-/
def close (fd : Nat) (ok : Bool) : Option World :=
  if ok ∧ (w.kernel.table fd).isNone then none
  else
    some { w with
      kernel := w.kernel.close fd
      manager := if (w.manager fd).isSome then w.manager.erase fd else w.manager }

def onSetNonBlocking (fd : Nat) (on : Bool) : World :=
  match w.manager fd with
  | some c => { w with manager := update w.manager fd (some (c.onSetNonBlocking on)) }
  | none => w

/--
`fcntl` with `F_SETFL`, and `ioctl` with `FIONBIO`: the context is set before the system call. The call fails
for a descriptor that is not open.
-/
def setFlag (fd : Nat) (on ok : Bool) : World :=
  let w := w.onSetNonBlocking fd on
  { w with kernel := if ok then w.kernel.setNonBlocking fd on else w.kernel }

/-- The bit `O_NONBLOCK` of what `fcntl` returns for `F_GETFL`. All bits of `-1` are set. -/
def getFlag (fd : Nat) (ok : Bool) : Bool :=
  let arg := if ok then (w.kernel.flagOf fd).getD true else true
  match w.manager fd with
  | some c => if c.isSocket then c.isNonBlocking else arg
  | none => arg

/-- `FdContext::setNonBlocking`. `getOk` and `setOk` say whether its two system calls succeed. -/
def setNonBlocking (fd : Nat) (on getOk setOk : Bool) : World :=
  if on = w.getFlag fd getOk then w
  else (w.setFlag fd on setOk).onSetNonBlocking fd on

/-- `DoIo` waits in `Poll` before the system call, in a coroutine with hooks enabled. -/
def suspends (fd : Nat) : Bool :=
  match w.manager fd with
  | some c => !c.isNonBlocking && c.type != .plain
  | none => false

/-! ## Steps -/

inductive Call
  | socket (attr : SocketAttribute) (answer : Option Nat)
  | socketpair (attr : SocketAttribute) (answer : Option (Nat × Nat))
  | accept (fd : Nat) (inCoroutine : Bool) (answer : Option Nat)
  | pipe (answer : Option (Nat × Nat))
  | pipe2 (flags : UInt32) (answer : Option (Nat × Nat))
  | dup (oldfd : Nat) (answer : Option Nat)
  | dup2 (oldfd newfd : Nat) (ok : Bool)
  | dup3 (oldfd newfd : Nat) (ok : Bool)
  | dupfd (oldfd : Nat) (answer : Option Nat)
  | close (fd : Nat) (ok : Bool)
  | setfl (fd : Nat) (flags : UInt32) (ok : Bool)
  | fionbio (fd : Nat) (on ok : Bool)
  /-- the constructor of `NonBlockingGuard` -/
  | guard (g fd : Nat) (getOk setOk : Bool)
  /-- the destructor -/
  | unguard (g : Nat) (getOk setOk : Bool)
  deriving DecidableEq

def step : Call → Option World
  | .socket _ none | .socketpair _ none | .pipe none | .pipe2 _ none | .dup _ none
  | .dupfd _ none | .accept _ _ none | .dup2 _ _ false | .dup3 _ _ false => some w
  | .socket attr (some fd) =>
    if w.kernel.table fd = none then
      some (w.create fd { type := .socket, socketAttr := attr } (hasNonBlock attr.type) (fd > 0))
    else none
  | .socketpair attr (some fds) =>
    w.createPair fds { type := .socket, socketAttr := attr } (hasNonBlock attr.type)
  | .accept s inCoroutine (some fd) =>
    match w.kernel.objectOf s with
    | none => none
    | some listener =>
      if listener.type ≠ .socket ∨ w.kernel.table fd ≠ none then none
      else
        let object := { type := .socket, socketAttr := listener.socketAttr }
        if inCoroutine then
          match w.manager s with
          | none => none
          | some c =>
            let w' := w.create fd object false false
            some { w' with
              manager :=
                if fd > 0 then
                  w.manager.add
                    { fd := fd, type := .socket, isNonBlocking := false, socketAttr := c.socketAttr }
                else w.manager }
        else some (w.create fd object false false)
  | .pipe (some fds) => w.createPair fds { type := .pipe } false
  | .pipe2 flags (some fds) => w.createPair fds { type := .pipe } (hasNonBlock flags)
  | .dup oldfd (some newfd) | .dupfd oldfd (some newfd) => w.dup oldfd newfd
  | .dup2 oldfd newfd true => w.dup2 oldfd newfd
  | .dup3 oldfd newfd true => if oldfd = newfd then none else w.dup2 oldfd newfd
  | .close fd ok => w.close fd ok
  | .setfl fd flags ok =>
    if ok ∧ (w.kernel.table fd).isNone then none else some (w.setFlag fd (hasNonBlock flags) ok)
  | .fionbio fd on ok =>
    if ok ∧ (w.kernel.table fd).isNone then none else some (w.setFlag fd on ok)
  | .guard g fd getOk setOk =>
    match w.manager fd, w.guard g with
    | some c, none =>
      let w := if c.isNonBlocking then w else w.setNonBlocking fd true getOk setOk
      some { w with guard := update w.guard g (some (fd, c.isNonBlocking)) }
    | _, _ => none
  | .unguard g getOk setOk =>
    match w.guard g with
    | some (fd, nonblocking) =>
      -- the guard points to a context that is still there
      if (w.manager fd).isNone then none
      else
        let w := if nonblocking then w else w.setNonBlocking fd false getOk setOk
        some { w with guard := update w.guard g none }
    | none => none

end World

/-- A process without descriptors, and its calls. -/
def descriptors : Infra.Lts World World.Call where
  init := {}
  step := World.step

end Nemo.Net
