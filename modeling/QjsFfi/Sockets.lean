import QjsFfi.SocketAddresses
import Mathlib.Data.PNat.Notation

namespace QjsFfi

def AF_INET : ℤ := 2
def SOCK_STREAM : ℤ := 1
def SOCK_DGRAM : ℤ := 2
def IPPROTO_UDP : ℤ := 17
def SOL_SOCKET : ℤ := 1
def SO_REUSEADDR : ℤ := 2
def EINPROGRESS : ℕ+ := 115

inductive SysResult where
  | ok (n : ℕ)
  | failed (e : ℕ+)
  deriving DecidableEq

-- call() returns the int of the C function; os.read and os.write turn a failure
-- into its negated error number.
def SysResult.viaCall : SysResult → ℤ | .ok n => n | .failed _ => -1
def SysResult.viaOs : SysResult → ℤ | .ok n => n | .failed e => -(e : ℕ)

def SysResult.error : SysResult → Option ℕ+ | .ok _ => none | .failed e => some e

inductive NativeCall where
  | connect (fd : BitVec 32) (addr : List UInt8) (len : ℕ)
  | setsockopt (fd : BitVec 32) (level optname value : ℤ) (len : ℕ)
  | bind (fd : BitVec 32) (addr : List UInt8) (len : ℕ)
  | listen (fd : BitVec 32) (backlog : JSNumber)
  | accept (fd : BitVec 32) (addr : List UInt8) (len : ℕ)
  | read (fd : BitVec 32) (offset len : ℕ)
  | write (fd : BitVec 32) (offset len : ℕ)
  | recvfrom (fd : BitVec 32) (args : List ℤ)
  | sendto (fd : BitVec 32) (args : List ℤ)
  | close (fd : BitVec 32)
  deriving DecidableEq

def NativeCall.fd : NativeCall → BitVec 32
  | .connect fd _ _ | .setsockopt fd _ _ _ _ | .bind fd _ _ | .listen fd _ | .accept fd _ _ | .read fd _ _ | .write fd _ _
  | .recvfrom fd _ | .sendto fd _ | .close fd => fd

def NativeCall.closes : NativeCall → Bool | .close _ => true | _ => false

-- The object syscall has the twelve functions and no property errno.
def syscall_errno : Option ℤ := none

-- The properties of a Socket; none is undefined.
structure Socket where
  type : Option ℤ
  fd : JSNumber
  remote : Option sockaddr_in
  local_ : Option sockaddr_in
  errno : Option ℤ
  connecting : Bool
  destroyed : Bool
  pending : Bool

-- A method that does not throw: the object after it, its native calls, what it
-- returns, and the Socket an accept has made with the descriptor it was for.
structure Returned where
  socket : Socket
  calls : List NativeCall
  ret : ℤ
  accepted : Option (Socket × ℤ)

section Methods
variable (engine : List Char → JSNumber)

def Socket.type_ (proto : ℤ) : ℤ := if proto = IPPROTO_UDP ∨ proto = SOCK_DGRAM then SOCK_DGRAM else SOCK_STREAM

def Socket.new (proto : ℤ) (native : SysResult) : Socket :=
  let address := sockaddr_in.new engine (some AF_INET) none (.number none)
  {type := some (Socket.type_ proto),fd := some native.viaCall,remote := some address,local_ := some address,errno := none,
    connecting := false,destroyed := false,pending := true}

-- Object.create(Socket.prototype, {fd: {v: ret}, ...}): descriptors without a
-- value define the properties as undefined.
def Socket.created : Socket :=
  {type := none,fd := none,remote := none,local_ := none,errno := none,connecting := false,destroyed := false,pending := false}

def addressed (a : sockaddr_in) (addr : Option AddressValue) (port : Option JSNumber) : sockaddr_in :=
  let a := match addr with | some addr => a.set_sin_addr engine addr | none => a
  match port with | some port => a.set_sin_port port | none => a

-- An undefined remote has no sin_addr, sin_port or byteLength: a TypeError.
def Socket.connect (s : Socket) (addr : Option AddressValue) (port : Option JSNumber) (native : SysResult) : Option Returned := do
  let remote := addressed engine (← s.remote) addr port
  let s := {s with remote := some remote}
  let s := if native.viaCall = -1 then
      let s := {s with errno := syscall_errno}
      if s.errno = some ((EINPROGRESS : ℕ) : ℤ) then {s with connecting := true} else s
    else s
  pure ⟨s,[.connect (ToInt32 s.fd) remote.bytes remote.bytes.length],native.viaCall,none⟩

-- setsockopt gets the descriptor as it is, and call() refuses undefined.
def Socket.bind (s : Socket) (addr : Option AddressValue) (port : Option JSNumber) (native : SysResult) : Option Returned := do
  let local_ := addressed engine (← s.local_) addr port
  let s := {s with local_ := some local_}
  let fd ← s.fd
  let s := if native.viaCall = -1 then {s with errno := syscall_errno} else s
  pure ⟨s,[.setsockopt (ToInt32 (some fd)) SOL_SOCKET SO_REUSEADDR 1 4,.bind (ToInt32 s.fd) local_.bytes local_.bytes.length],
    native.viaCall,none⟩

def Socket.listen (s : Socket) (backlog : JSNumber) (native : SysResult) : Option Returned :=
  let t := if native.viaCall = -1 then {s with errno := syscall_errno} else s
  some ⟨t,[.listen (ToInt32 s.fd) backlog],native.viaCall,none⟩

def Socket.accept (s : Socket) (remote : Option (List UInt8)) (native : SysResult) : Option Returned :=
  let remote := remote.getD (sockaddr_in.new engine (some AF_INET) none (.number none)).bytes
  let calls := [NativeCall.accept (ToInt32 s.fd) remote remote.length]
  if native.viaCall = -1 then some ⟨{s with errno := syscall_errno},calls,native.viaCall,none⟩
  else some ⟨s,calls,native.viaCall,some (Socket.created,native.viaCall)⟩

def toIndex (n : JSNumber) : Option ℕ := if 0 ≤ n.getD 0 then some (n.getD 0).toNat else none

def osSpan (size : ℕ) (offset len : JSNumber) : Option (ℕ × ℕ) := do
  let pos ← toIndex offset
  let len ← toIndex len
  if pos+len ≤ size then pure (pos,len) else none

def Socket.close (s : Socket) : Option Returned :=
  some ⟨{s with destroyed := true},[.close (ToInt32 s.fd)],0,none⟩

inductive ReadArgument where
  | absent
  | number (n : ℤ)
  | buffer (size : ℕ) (offset len : JSNumber)
  | object

def Socket.readBuffer (s : Socket) (size : ℕ) (offset len : JSNumber) (native : SysResult) : Option Returned := do
  let (pos,n) ← osSpan size offset len
  let ret := native.viaOs
  let calls := [NativeCall.read (ToInt32 s.fd) pos n]
  if ret < 0 then pure ⟨{s with errno := syscall_errno},calls,ret,none⟩
  else if ret = 0 then do
    let closed ← s.close
    pure ⟨closed.socket,calls++closed.calls,ret,none⟩
  else pure ⟨s,calls,ret,none⟩

-- Without a buffer, read calls itself with one and no length.
def Socket.read (s : Socket) (arg : ReadArgument) (native : SysResult) : Option Returned :=
  match arg with
  | .absent => s.readBuffer 1024 none none native
  | .number n => if 0 ≤ n ∧ n < 2^31 then s.readBuffer n.toNat none none native else none
  | .buffer size offset len => s.readBuffer size offset len native
  | .object => none

def Socket.write (s : Socket) (size : Option ℕ) (offset len : JSNumber) (native : SysResult) : Option Returned := do
  let (pos,n) ← osSpan (← size) offset len
  let ret := native.viaOs
  let t := if ret = -1 then {s with errno := syscall_errno} else s
  pure ⟨t,[.write (ToInt32 s.fd) pos n],ret,none⟩

-- call() refuses an undefined argument; a null one is 0.
def Socket.recvfrom (s : Socket) (buf len : Option ℤ) (flags src_addr addrlen : Option ℤ) (native : SysResult) : Option Returned := do
  let fd ← s.fd
  let args := [← buf,← len,flags.getD 0,src_addr.getD 0,addrlen.getD 0]
  pure ⟨s,[.recvfrom (ToInt32 (some fd)) args],native.viaCall,none⟩

def Socket.sendto (s : Socket) (buf len : Option ℤ) (flags : Option ℤ) (dest_addr : Option (ℤ × ℕ)) (addrlen : Option ℤ)
    (native : SysResult) : Option Returned := do
  let addrlen ← addrlen.or (dest_addr.map (fun d => (d.2 : ℤ)))
  let fd ← s.fd
  let args := [← buf,← len,flags.getD 0,((dest_addr.map Prod.fst).getD 0),addrlen]
  pure ⟨s,[.sendto (ToInt32 (some fd)) args],native.viaCall,none⟩

inductive Operation where
  | connect (addr : Option AddressValue) (port : Option JSNumber) (native : SysResult)
  | bind (addr : Option AddressValue) (port : Option JSNumber) (native : SysResult)
  | listen (backlog : JSNumber) (native : SysResult)
  | accept (remote : Option (List UInt8)) (native : SysResult)
  | read (arg : ReadArgument) (native : SysResult)
  | write (size : Option ℕ) (offset len : JSNumber) (native : SysResult)
  | recvfrom (buf len flags src_addr addrlen : Option ℤ) (native : SysResult)
  | sendto (buf len flags : Option ℤ) (dest_addr : Option (ℤ × ℕ)) (addrlen : Option ℤ) (native : SysResult)
  | close

def Operation.run (s : Socket) : Operation → Option Returned
  | .connect addr port native => s.connect engine addr port native
  | .bind addr port native => s.bind engine addr port native
  | .listen backlog native => s.listen backlog native
  | .accept remote native => s.accept engine remote native
  | .read arg native => s.read arg native
  | .write size offset len native => s.write size offset len native
  | .recvfrom buf len flags src_addr addrlen native => s.recvfrom buf len flags src_addr addrlen native
  | .sendto buf len flags dest_addr addrlen native => s.sendto buf len flags dest_addr addrlen native
  | .close => s.close

end Methods

end QjsFfi
