import QjsFfi.TelnetBuffers
import QjsFfi.SocketHistories
import QjsFfi.DescriptorSets

namespace QjsFfi
open Buffers Histories

inductive Arrival where
  | data (bytes : List UInt8)
  | failed (e : ℕ+)

def Arrival.upTo (n : ℕ) : Arrival → List UInt8 | .data bytes => bytes.take n | .failed _ => []
def Arrival.result (n : ℕ) : Arrival → SysResult | .data bytes => .ok (bytes.take n).length | .failed e => .failed e

inductive Acceptance where
  | taken (k : ℕ)
  | failed (e : ℕ+)

def Acceptance.upTo (n : ℕ) : Acceptance → ℕ | .taken k => min k n | .failed _ => 0
def Acceptance.result (n : ℕ) : Acceptance → SysResult | .taken k => .ok (min k n) | .failed e => .failed e

structure TelnetTurn where
  select : fd_set → fd_set → fd_set × fd_set
  written : Acceptance
  accepted : SysResult
  arrived : Arrival
  termWritten : Acceptance
  keyed : Arrival

-- What conn holds: nothing yet, the socket itself, what accept has returned, or
-- the -1 of an accept that failed.
inductive Conn where | undefined | sock | accepted (s : Socket) | failed

-- The variables of main in the loop, and what has gone through them: the bytes
-- placed into outBuf, those sock.write has taken, those typed, and for each read
-- from stdin how many were typed before and how many it asked for.
structure Telnet where
  sock : Socket
  conn : Conn
  inLen : ℕ
  inBuf : List UInt8
  outLen : ℤ
  outBuf : List UInt8
  rfds : fd_set
  wfds : fd_set
  handshake : ℕ
  termSent : Bool
  placed : List UInt8
  sent : List UInt8
  typed : List UInt8
  keyReads : List (ℕ × ℕ)

def Telnet.start (sock : Socket) : Telnet :=
  {sock := sock,conn := .undefined,inLen := 0,inBuf := List.replicate 128 0,outLen := 0,outBuf := List.replicate 1024 0,
    rfds := .new,wfds := .new,handshake := 0,termSent := false,placed := [],sent := [],typed := [],keyReads := []}

-- +conn
def Telnet.connNumber (s : Telnet) : JSNumber :=
  match s.conn with
  | .undefined => none
  | .sock => s.sock.fd
  | .accepted t => t.fd
  | .failed => some (-1)

def STDIN_FILENO : JSNumber := some 0

def Telnet.watch (s : Telnet) : Option (fd_set × fd_set) := do
  let rfds := FD_ZERO .theSet .undefined s.rfds
  let wfds := FD_ZERO .theSet .undefined s.wfds
  let wfds ← FD_CLR s.sock.fd wfds
  let rfds ← FD_SET s.sock.fd rfds
  if s.sock.connecting ∨ s.outLen ≠ 0 then (FD_SET s.sock.fd wfds).map (rfds,·)
  else if s.inLen < s.inBuf.length then (FD_SET STDIN_FILENO rfds).map (·,wfds)
  else some (rfds,wfds)

def Shrinks (after before : fd_set) : Prop :=
  ∀ fd : ℕ, fd < FD_SETSIZE → FD_ISSET (some fd) after = some true → FD_ISSET (some fd) before = some true

section Iteration
variable (engine : List Char → JSNumber) (memory : List UInt8 → ℕ → UInt8)

-- [outBuf, outLen] = Append(outBuf, outLen, ...chars)
def Telnet.append (s : Telnet) (chars : List AppendArgument) : Option Telnet := do
  let (outBuf,outLen) ← Append memory s.outBuf s.outLen chars
  pure {s with outBuf := outBuf,outLen := outLen,placed := s.placed++chars.flatMap AppendArgument.bytes}

def Telnet.send (s : Telnet) (b : List UInt8) (n : ℤ) (native : Acceptance) : Option (Telnet × ℤ) := do
  let r ← s.sock.write (some b.length) (some 0) (some n) (native.result n.toNat)
  pure ({s with sock := r.socket,sent := s.sent++b.take (native.upTo n.toNat)},r.ret)

def clearScreen : List UInt16 := [0x1b,0x5b,0x32,0x4a]

-- The screen is cleared after the first write (the signal handlers set up there
-- do not run while the loop does).
def Telnet.greet (s : Telnet) : Option Telnet :=
  if s.handshake = 0 then s.append memory [.string clearScreen] else some s

def Telnet.advance (s : Telnet) : Telnet := if s.handshake < 4 then {s with handshake := s.handshake+1} else s

def Telnet.flush (t : TelnetTurn) (s : Telnet) : Option Telnet :=
  if 0 < s.outLen then do
    let (s,ret) ← s.send s.outBuf s.outLen t.written
    if 0 < ret then
      let s := {s with outLen := 0}
      (s.greet memory).map Telnet.advance
    else some s
  else some {s with conn := .sock}

def Telnet.meet (listening : Bool) (t : TelnetTurn) (s : Telnet) : Option Telnet :=
  if listening then do
    let r ← s.sock.accept engine none t.accepted
    pure {s with sock := r.socket,conn := match r.accepted with | some (socket,_) => .accepted socket | none => .failed}
  else some {s with conn := .sock}

-- A read of the handshake goes to the front of outBuf and sets outLen.
def Telnet.handshakeRead (t : TelnetTurn) (s : Telnet) : Option Telnet := do
  let n := s.outBuf.length
  let r ← s.sock.read (.buffer n (some 0) (some n)) (t.arrived.result n)
  pure {s with sock := r.socket,outBuf := patch s.outBuf 0 (t.arrived.upTo n),outLen := r.ret,placed := s.placed++t.arrived.upTo n}

def termReply : List UInt8 :=
  [0xff,0xfa,0x18,0x00,0x58,0x54,0x45,0x52,0x4d,0x2d,0x32,0x35,0x36,0x43,0x4f,0x4c,0x4f,0x52,0xff,0xf0,0x1b,0x5b,0x32,0x4a]

-- SendTerm sends the first time only.
def Telnet.sendTerm (t : TelnetTurn) (s : Telnet) : Option Telnet :=
  if s.termSent then some s
  else do
    let (s,_) ← s.send termReply termReply.length t.termWritten
    pure {s with termSent := true}

-- The text of BufferToString(data, start, length): up to the first zero.
def shown (data : List UInt8) (start : ℕ) : List UInt8 := (data.drop start).takeWhile (fun b => b ≠ 0)

def skipped (chars : List UInt8) : ℕ :=
  (if chars.take 2 = [0xff,0xf2] then 2 else 0)+(if chars.take 3 = [0xff,0xfe,1] then 3 else 0)

-- What SendTerm answers: a ff fe in the text shown.
def asksTerm (chars : List UInt8) : Prop := 2 ≤ chars.length-skipped chars ∧ [0xff,0xfe] <:+: shown chars (skipped chars)

instance : Decidable (asksTerm chars) := inferInstanceAs (Decidable (_ ∧ _))

def Telnet.relay (t : TelnetTurn) (s : Telnet) : Option Telnet := do
  let r ← s.sock.read (.buffer 1024 (some 0) (some 1024)) (t.arrived.result 1024)
  let s := {s with sock := r.socket}
  if 0 < r.ret then
    if asksTerm (t.arrived.upTo 1024) then s.sendTerm t else some s
  else some {s with conn := .undefined}

-- The loop over the characters typed; exit(1) ends main.
def Telnet.type (s : Telnet) : List UInt8 → Option Telnet
  | [] => some s
  | 0x11 :: _ => none
  | 0xff :: 0xf2 :: 0x03 :: rest => do (← s.append memory [.number (some 3)]).type rest
  | c :: rest => do (← s.append memory [.number (some (c.toNat : ℤ))]).type rest

def Telnet.keyboard (t : TelnetTurn) (s : Telnet) : Option Telnet :=
  let room := s.inBuf.length-s.inLen
  let chars := t.keyed.upTo room
  let s := {s with keyReads := s.keyReads++[(s.typed.length,room)]}
  if chars = [] then some s
  else {s with inLen := s.inLen+chars.length,inBuf := patch s.inBuf s.inLen chars,typed := s.typed++chars}.type memory chars

def Telnet.writing (t : TelnetTurn) (s : Telnet) : Option Telnet := do
  if ← FD_ISSET s.sock.fd s.wfds then s.flush memory t else some s

def Telnet.meeting (listening : Bool) (t : TelnetTurn) (s : Telnet) : Option Telnet := do
  if ← FD_ISSET s.sock.fd s.rfds then s.meet engine listening t else some s

def Telnet.reading (t : TelnetTurn) (s : Telnet) : Option Telnet := do
  if ← FD_ISSET s.connNumber s.rfds then
    if s.handshake < 4 then s.handshakeRead t else s.relay t
  else some s

def Telnet.typing (t : TelnetTurn) (s : Telnet) : Option Telnet := do
  if ← FD_ISSET STDIN_FILENO s.rfds then s.keyboard memory t else some s

def Telnet.respond (listening : Bool) (t : TelnetTurn) (s : Telnet) : Option Telnet := do
  let s ← s.writing memory t
  let s ← s.meeting engine listening t
  let s ← s.reading t
  s.typing memory t

def Telnet.polled (s : Telnet) (t : TelnetTurn) (sets : fd_set × fd_set) : Telnet :=
  {s with rfds := (t.select sets.1 sets.2).1,wfds := (t.select sets.1 sets.2).2}

def Telnet.iterate (listening : Bool) (t : TelnetTurn) (s : Telnet) : Option Telnet :=
  if s.sock.destroyed then none
  else do
    let sets ← s.watch
    (s.polled t sets).respond engine memory listening t

inductive TelnetStep (listening : Bool) (s : Telnet) (t : TelnetTurn) (next : Telnet) : Prop where
  | turn : (∀ sets, s.watch = some sets → Shrinks (s.polled t sets).rfds sets.1 ∧ Shrinks (s.polled t sets).wfds sets.2) →
      s.iterate engine memory listening t = some next → TelnetStep listening s t next

inductive TelnetSocket : Bool → Socket → Prop where
  | connected : (Socket.new engine 0 created).connect engine addr port native = some r → TelnetSocket false r.socket
  | listening : (Socket.new engine 0 created).bind engine addr port native = some r →
      r.socket.listen (some 5) second = some q → TelnetSocket true q.socket

-- A run of main's loop on a socket, up to some loop head: the do while loop is
-- entered with a socket that is not destroyed.
structure TelnetRun (listening : Bool) (sock : Socket) (turns : List TelnetTurn) (s : Telnet) : Prop where
  opened : TelnetSocket engine listening sock
  ran : Runs (TelnetStep engine memory listening) (.start sock) turns s

end Iteration

theorem shrinks_refl (s : fd_set) : Shrinks s s := fun _ _ set => set

theorem shrinks_new (s : fd_set) : Shrinks .new s := by
  intro fd inside set
  rw [fresh_represents.tested fd (size_fixed _ ▸ inside)] at set
  simp at set

theorem append_parts {s : Telnet} (ran : s.append memory chars = some next) :
    ∃ outBuf outLen, Append memory s.outBuf s.outLen chars = some (outBuf,outLen) ∧
      next = {s with outBuf := outBuf,outLen := outLen,placed := s.placed++chars.flatMap AppendArgument.bytes} := by
  obtain ⟨⟨outBuf,outLen⟩,appended,ran⟩ := Option.bind_eq_some_iff.mp ran
  exact ⟨outBuf,outLen,appended,(Option.some.inj ran).symm⟩

theorem write_ret {s : Socket} (wrote : s.write size offset len native = some r) : r.ret = native.viaOs := by
  obtain ⟨bytes,_,wrote⟩ := Option.bind_eq_some_iff.mp wrote
  obtain ⟨span,_,wrote⟩ := Option.bind_eq_some_iff.mp wrote
  cases Option.some.inj wrote
  rfl

theorem readBuffer_ret {s : Socket} (ran : s.readBuffer size offset len native = some r) : r.ret = native.viaOs := by
  obtain ⟨span,_,ran⟩ := Option.bind_eq_some_iff.mp ran
  dsimp only at ran
  split at ran
  · cases Option.some.inj ran
    rfl
  · split at ran <;> cases Option.some.inj ran <;> rfl

theorem accepted_positive (native : Acceptance) (n : ℕ) : 0 < (native.result n).viaOs ↔ 0 < native.upTo n := by
  cases native with
  | taken k => simp [Acceptance.result,Acceptance.upTo,SysResult.viaOs]
  | failed e => simp [Acceptance.result,Acceptance.upTo,SysResult.viaOs]

theorem upTo_length (a : Arrival) (n : ℕ) : (a.upTo n).length ≤ n := by
  cases a with
  | data bytes =>
    simp only [Arrival.upTo,List.length_take]
    omega
  | failed e => exact Nat.zero_le n

theorem send_parts {s : Telnet} (ran : s.send b n native = some (next,ret)) :
    ∃ sock, next = {s with sock := sock,sent := s.sent++b.take (native.upTo n.toNat)} ∧ ret = (native.result n.toNat).viaOs := by
  obtain ⟨r,wrote,ran⟩ := Option.bind_eq_some_iff.mp ran
  cases Option.some.inj ran
  exact ⟨_,rfl,write_ret wrote⟩

theorem greet_cases {s : Telnet} (ran : s.greet memory = some next) : next = s ∨ s.append memory [.string clearScreen] = some next := by
  unfold Telnet.greet at ran
  split at ran
  · exact .inr ran
  · exact .inl (Option.some.inj ran).symm

theorem flush_cases {s : Telnet} (ran : s.flush memory t = some next) :
    next = {s with conn := .sock} ∨
    (0 < s.outLen ∧ t.written.upTo s.outLen.toNat = 0 ∧ ∃ sock, next = {s with sock := sock}) ∨
    (0 < s.outLen ∧ 0 < t.written.upTo s.outLen.toNat ∧ ∃ sock greeted,
      Telnet.greet memory {s with sock := sock,sent := s.sent++s.outBuf.take (t.written.upTo s.outLen.toNat),outLen := 0} = some greeted ∧
      next = greeted.advance) := by
  unfold Telnet.flush at ran
  split at ran
  · rename_i pending
    obtain ⟨⟨middle,ret⟩,wrote,ran⟩ := Option.bind_eq_some_iff.mp ran
    obtain ⟨sock,rfl,rfl⟩ := send_parts wrote
    have positive := accepted_positive t.written s.outLen.toNat
    dsimp only at ran
    split at ran
    · rename_i took
      obtain ⟨greeted,greeting,advanced⟩ := Option.map_eq_some_iff.mp ran
      exact .inr (.inr ⟨pending,positive.mp took,sock,greeted,greeting,advanced.symm⟩)
    · rename_i refused
      have nothing : t.written.upTo s.outLen.toNat = 0 := Nat.eq_zero_of_not_pos (mt positive.mpr refused)
      cases Option.some.inj ran
      refine .inr (.inl ⟨pending,nothing,sock,?_⟩)
      rw [nothing,List.take_zero,List.append_nil]
  · exact .inl (Option.some.inj ran).symm

theorem meet_parts {s : Telnet} (ran : s.meet engine listening t = some next) :
    ∃ sock conn, next = {s with sock := sock,conn := conn} := by
  unfold Telnet.meet at ran
  split at ran
  · obtain ⟨r,_,ran⟩ := Option.bind_eq_some_iff.mp ran
    exact ⟨_,_,(Option.some.inj ran).symm⟩
  · exact ⟨_,_,(Option.some.inj ran).symm⟩

theorem handshakeRead_parts {s : Telnet} (ran : s.handshakeRead t = some next) :
    ∃ sock, next = {s with
      sock := sock,outBuf := patch s.outBuf 0 (t.arrived.upTo s.outBuf.length),
      outLen := (t.arrived.result s.outBuf.length).viaOs,placed := s.placed++t.arrived.upTo s.outBuf.length} := by
  obtain ⟨r,read,ran⟩ := Option.bind_eq_some_iff.mp ran
  rw [← readBuffer_ret read]
  exact ⟨r.socket,(Option.some.inj ran).symm⟩

theorem sendTerm_cases {s : Telnet} (ran : s.sendTerm t = some next) :
    next = s ∨ (s.termSent = false ∧ ∃ sock,
      next = {s with sock := sock,sent := s.sent++termReply.take (t.termWritten.upTo termReply.length),termSent := true}) := by
  unfold Telnet.sendTerm at ran
  split at ran
  · exact .inl (Option.some.inj ran).symm
  · rename_i first
    obtain ⟨⟨middle,ret⟩,wrote,ran⟩ := Option.bind_eq_some_iff.mp ran
    obtain ⟨sock,rfl,_⟩ := send_parts wrote
    exact .inr ⟨Bool.eq_false_of_not_eq_true first,sock,(Option.some.inj ran).symm⟩

theorem relay_cases {s : Telnet} (ran : s.relay t = some next) :
    ∃ sock, (asksTerm (t.arrived.upTo 1024) ∧ Telnet.sendTerm t {s with sock := sock} = some next) ∨
      ∃ conn, next = {s with sock := sock,conn := conn} := by
  obtain ⟨r,_,ran⟩ := Option.bind_eq_some_iff.mp ran
  refine ⟨r.socket,?_⟩
  dsimp only at ran
  split at ran
  · split at ran
    · rename_i asks
      exact .inl ⟨asks,ran⟩
    · exact .inr ⟨s.conn,(Option.some.inj ran).symm⟩
  · exact .inr ⟨.undefined,(Option.some.inj ran).symm⟩

theorem type_keeps (holds : Telnet → Prop) {s : Telnet}
    (keeps : ∀ s chars next, holds s → s.append memory chars = some next → holds next)
    (start : holds s) (ran : s.type memory chars = some next) : holds next := by
  induction s,chars using Telnet.type.induct with
  | case1 s => exact Option.some.inj ran ▸ start
  | case2 s rest => cases ran
  | case3 s rest ih =>
    obtain ⟨middle,appended,ran⟩ := Option.bind_eq_some_iff.mp ran
    exact ih middle (keeps s _ middle start appended) ran
  | case4 s c rest other plain ih =>
    rw [Telnet.type.eq_4 memory s c rest other plain] at ran
    obtain ⟨middle,appended,ran⟩ := Option.bind_eq_some_iff.mp ran
    exact ih middle (keeps s _ middle start appended) ran

theorem keyboard_cases {s : Telnet} {chars : List UInt8} (ran : s.keyboard memory t = some next)
    (got : t.keyed.upTo (s.inBuf.length-s.inLen) = chars) :
    let reads := s.keyReads++[(s.typed.length,s.inBuf.length-s.inLen)]
    next = {s with keyReads := reads} ∨ Telnet.type memory {s with
      inLen := s.inLen+chars.length,inBuf := patch s.inBuf s.inLen chars,
      typed := s.typed++chars,keyReads := reads} chars = some next := by
  subst got
  unfold Telnet.keyboard at ran
  dsimp only at ran
  split at ran
  · exact .inl (Option.some.inj ran).symm
  · exact .inr ran

theorem writing_cases {s : Telnet} (ran : s.writing memory t = some next) :
    next = s ∨ (FD_ISSET s.sock.fd s.wfds = some true ∧ s.flush memory t = some next) := by
  obtain ⟨ready,set,ran⟩ := Option.bind_eq_some_iff.mp ran
  split at ran
  · rename_i yes
    exact .inr ⟨yes ▸ set,ran⟩
  · exact .inl (Option.some.inj ran).symm

theorem meeting_parts {s : Telnet} (ran : s.meeting engine listening t = some next) :
    ∃ sock conn, next = {s with sock := sock,conn := conn} := by
  obtain ⟨ready,_,ran⟩ := Option.bind_eq_some_iff.mp ran
  split at ran
  · exact meet_parts ran
  · exact ⟨_,_,(Option.some.inj ran).symm⟩

theorem reading_cases {s : Telnet} (ran : s.reading t = some next) :
    next = s ∨ (FD_ISSET s.connNumber s.rfds = some true ∧
      (s.handshake < 4 ∧ s.handshakeRead t = some next ∨ 4 ≤ s.handshake ∧ s.relay t = some next)) := by
  obtain ⟨ready,set,ran⟩ := Option.bind_eq_some_iff.mp ran
  split at ran
  · rename_i yes
    refine .inr ⟨yes ▸ set,?_⟩
    split at ran
    · rename_i early
      exact .inl ⟨early,ran⟩
    · rename_i late
      exact .inr ⟨Nat.le_of_not_lt late,ran⟩
  · exact .inl (Option.some.inj ran).symm

theorem typing_cases {s : Telnet} (ran : s.typing memory t = some next) : next = s ∨ s.keyboard memory t = some next := by
  obtain ⟨ready,_,ran⟩ := Option.bind_eq_some_iff.mp ran
  split at ran
  · exact .inr ran
  · exact .inl (Option.some.inj ran).symm

theorem iterate_parts {s : Telnet} (ran : s.iterate engine memory listening t = some next) :
    s.sock.destroyed = false ∧ ∃ sets a b c, s.watch = some sets ∧ (s.polled t sets).writing memory t = some a ∧
      a.meeting engine listening t = some b ∧ b.reading t = some c ∧ c.typing memory t = some next := by
  unfold Telnet.iterate at ran
  split at ran
  · cases ran
  · rename_i open_
    obtain ⟨sets,watched,ran⟩ := Option.bind_eq_some_iff.mp ran
    obtain ⟨a,writing,ran⟩ := Option.bind_eq_some_iff.mp ran
    obtain ⟨b,meeting,ran⟩ := Option.bind_eq_some_iff.mp ran
    obtain ⟨c,reading,typing⟩ := Option.bind_eq_some_iff.mp ran
    exact ⟨by simpa using open_,sets,a,b,c,watched,writing,meeting,reading,typing⟩

theorem TelnetRun.snoc (run : TelnetRun engine memory listening sock turns s) (step : TelnetStep engine memory listening s t next) :
    TelnetRun engine memory listening sock (turns++[t]) next := ⟨run.opened,.snoc run.ran step⟩

theorem TelnetRun.unique (one : TelnetRun engine memory listening sock turns s) (two : TelnetRun engine memory listening sock turns t) :
    s = t := by
  refine Runs.unique ?_ one.ran two.ran
  rintro a turn b c ⟨_,first⟩ ⟨_,second⟩
  exact Option.some.inj (first.symm.trans second)

end QjsFfi
