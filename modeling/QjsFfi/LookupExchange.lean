import QjsFfi.Automata
import QjsFfi.DnsLookup
import QjsFfi.ResolverConfig
import QjsFfi.SocketAddressing

namespace QjsFfi
open Buffers DnsMessages Histories Automata

inductive Reception where
  | datagram (d : List UInt8) (sender : sockaddr_in)
  | failed (e : ℕ+)

def Reception.data : Reception → Option (List UInt8) | .datagram d _ => some d | .failed _ => none
def Reception.result : Reception → SysResult | .datagram d _ => .ok (d.take 1024).length | .failed e => .failed e

-- The kernel writes the address of the sender over the sixteen bytes of remote.
def Reception.written (remote : sockaddr_in) : Reception → sockaddr_in | .datagram _ sender => sender | .failed _ => remote

structure ExchangeTurn where
  select : fd_set → fd_set → fd_set × fd_set
  sendto : SysResult
  data : ℤ
  slen : ℤ
  reception : Reception

def ExchangeTurn.plain (t : ExchangeTurn) : LookupTurn := ⟨t.select,t.sendto.viaCall,t.reception.data⟩

inductive Demand where
  | writable (sendto : SysResult)
  | readable (reception : Reception)

structure Exchanged where
  demand : Demand
  sent : Option (List UInt8 × sockaddr_in)

structure Traffic where
  lookup : Lookup
  socket : Socket
  remote : sockaddr_in
  calls : List NativeCall
  exchanged : List Exchanged

structure LookupBuffers where
  outBuf : ℤ
  remote : ℤ

section Loop
variable (buffers : LookupBuffers) (outBuf : List UInt8)

def Traffic.send (t : ExchangeTurn) (s : Traffic) : Option Traffic :=
  if 0 < s.lookup.outLen then do
    let r ← s.socket.sendto (some buffers.outBuf) (some s.lookup.outLen) (some 0) (some (buffers.remote,s.remote.bytes.length)) none t.sendto
    pure {s with
      lookup := s.lookup.send outBuf r.ret,socket := r.socket,calls := s.calls++r.calls,
      exchanged := s.exchanged++[⟨.writable t.sendto,some (outBuf.take s.lookup.outLen,s.remote)⟩]}
  else some s

-- A datagram that is not empty closes the socket.
def Traffic.receive (t : ExchangeTurn) (s : Traffic) : Option Traffic := do
  let r ← s.socket.recvfrom (some t.data) (some 1024) (some 0) (some buffers.remote) (some t.slen) t.reception.result
  let s := {s with
    lookup := s.lookup.receive t.reception.data,socket := r.socket,remote := t.reception.written s.remote,calls := s.calls++r.calls,
    exchanged := s.exchanged++[⟨.readable t.reception,none⟩]}
  if 0 < r.ret then do
    let closed ← s.socket.close
    pure {s with socket := closed.socket,calls := s.calls++closed.calls}
  else pure s

def Traffic.polled (s : Traffic) (t : ExchangeTurn) (sets : fd_set × fd_set) : Traffic :=
  {s with lookup := {s.lookup with rfds := (t.select sets.1 sets.2).1,wfds := (t.select sets.1 sets.2).2}}

def Traffic.writing (t : ExchangeTurn) (s : Traffic) : Option Traffic := do
  if ← FD_ISSET s.socket.fd s.lookup.wfds then s.send buffers outBuf t else some s

def Traffic.reading (t : ExchangeTurn) (s : Traffic) : Option Traffic := do
  if ← FD_ISSET s.socket.fd s.lookup.rfds then s.receive buffers t else some s

def Traffic.turn (t : ExchangeTurn) (s : Traffic) : Option Traffic := do
  let sets ← s.lookup.watch s.socket.fd
  let s ← (s.polled t sets).writing buffers outBuf t
  s.reading buffers t

inductive TrafficStep (s : Traffic) (t : ExchangeTurn) (next : Traffic) : Prop where
  | turn : s.lookup.answer = none → s.turn buffers outBuf t = some next → TrafficStep s t next

end Loop

def Traffic.start (outLen : ℕ) (bound : Returned) (server : sockaddr_in) : Traffic :=
  ⟨.start outLen,bound.socket,server,bound.calls,[]⟩

-- The exchange a lookup is for: the query goes to the target until it has been taken
-- once, and what is received sets the target and, when it is not empty, the answer.
structure Exchange where
  pending : Bool
  target : sockaddr_in
  answer : Option (List Char)

def Exchange.start (server : sockaddr_in) : Exchange := ⟨true,server,none⟩

def Exchange.receive (x : Exchange) : Reception → Exchange
  | .failed _ => x
  | .datagram d sender => {x with target := sender,answer := if d = [] then none else some (dotted (sliceLast 4 (d.take 1024)))}

def Exchange.next (query : List UInt8) (x : Exchange) : Demand → Option (Exchange × Option (List UInt8 × sockaddr_in))
  | .writable sendto =>
    if x.answer = none ∧ x.pending then some ({x with pending := !decide (0 < sendto.viaCall)},some (query,x.target)) else none
  | .readable reception => if x.answer = none then some (x.receive reception,none) else none

inductive Demand.Calls (buffers : LookupBuffers) (fd : BitVec 32) (outLen : ℕ) : Demand → NativeCall → Prop where
  | sendto : Calls buffers fd outLen (.writable native) (.sendto fd [buffers.outBuf,outLen,0,buffers.remote,16])
  | recvfrom : Calls buffers fd outLen (.readable reception) (.recvfrom fd [data,1024,0,buffers.remote,slen])

def closingCall (fd : BitVec 32) (answer : Option (List Char)) : List NativeCall := if answer.isSome then [.close fd] else []

structure Exchanging (buffers : LookupBuffers) (outBuf : List UInt8) (outLen : ℕ) (server : sockaddr_in) (opening : List NativeCall)
    (fd : ℤ) (s : Traffic) (x : Exchange) : Prop where
  answers : feed (Exchange.next (outBuf.take outLen)) (.start server) (s.exchanged.map Exchanged.demand) =
    some (x,s.exchanged.map Exchanged.sent)
  number : s.socket.fd = some fd
  length : s.lookup.outLen = if x.pending then outLen else 0
  target : s.remote = x.target
  answer : s.lookup.answer = x.answer
  calls : ∃ natives, List.Forall₂ (Demand.Calls buffers (ToInt32 (some fd)) outLen) (s.exchanged.map Exchanged.demand) natives ∧
    s.calls = opening++natives++closingCall (ToInt32 (some fd)) x.answer

section Parts
variable {buffers : LookupBuffers} {outBuf : List UInt8} {outLen : ℕ} {server : sockaddr_in} {opening : List NativeCall} {fd : ℤ}

theorem exchanging_start (bound : Returned) (number : bound.socket.fd = some fd) :
    Exchanging buffers outBuf outLen server bound.calls fd (.start outLen bound server) (.start server) := by
  refine ⟨rfl,number,rfl,rfl,rfl,[],.nil,?_⟩
  simp [Traffic.start,Exchange.start,closingCall]

theorem exchanging_polled (exchanging : Exchanging buffers outBuf outLen server opening fd s x) (t : ExchangeTurn) (sets : fd_set × fd_set) :
    Exchanging buffers outBuf outLen server opening fd (s.polled t sets) x :=
  ⟨exchanging.answers,exchanging.number,exchanging.length,exchanging.target,exchanging.answer,exchanging.calls⟩

theorem Exchanging.more (exchanging : Exchanging buffers outBuf outLen server opening fd s x) (open_ : x.answer = none)
    (next : x.next (outBuf.take outLen) e.demand = some (y,e.sent)) (call : e.demand.Calls buffers (ToInt32 (some fd)) outLen c)
    (last : u.exchanged = s.exchanged++[e]) (calls : u.calls = s.calls++c :: closingCall (ToInt32 (some fd)) y.answer)
    (number : u.socket.fd = s.socket.fd) (length : u.lookup.outLen = if y.pending then outLen else 0) (target : u.remote = y.target)
    (answer : u.lookup.answer = y.answer) : Exchanging buffers outBuf outLen server opening fd u y := by
  obtain ⟨natives,each,all⟩ := exchanging.calls
  refine ⟨?_,number.trans exchanging.number,length,target,answer,natives++[c],?_,?_⟩
  · rw [last,List.map_append,List.map_append]
    exact feed_append exchanging.answers (feed_one next)
  · rw [last,List.map_append]
    exact List.rel_append each (.cons call .nil)
  · rw [calls,all,open_]
    simp [closingCall]

theorem traffic_send_gives {s : Traffic} (number : s.socket.fd = some fd) (t : ExchangeTurn) :
    s.send buffers outBuf t = some (if 0 < s.lookup.outLen then {s with
      lookup := s.lookup.send outBuf t.sendto.viaCall
      calls := s.calls++[.sendto (ToInt32 (some fd)) [buffers.outBuf,s.lookup.outLen,0,buffers.remote,16]]
      exchanged := s.exchanged++[⟨.writable t.sendto,some (outBuf.take s.lookup.outLen,s.remote)⟩]} else s) := by
  unfold Traffic.send
  split
  · simp only [Socket.sendto,number,Option.none_or,Option.map_some,Option.getD_some,s.remote.whole]
    rfl
  · rfl

theorem traffic_receive_gives {s : Traffic} (number : s.socket.fd = some fd) (t : ExchangeTurn) :
    ∃ u, s.receive buffers t = some u ∧ u.exchanged = s.exchanged++[⟨.readable t.reception,none⟩] ∧ u.socket.fd = s.socket.fd ∧
      u.lookup = s.lookup.receive t.reception.data ∧ u.remote = t.reception.written s.remote ∧
      u.calls = s.calls++.recvfrom (ToInt32 (some fd)) [t.data,1024,0,buffers.remote,t.slen] ::
        (if 0 < t.reception.result.viaCall then [.close (ToInt32 (some fd))] else []) := by
  simp only [Traffic.receive,Socket.recvfrom,number,Option.getD_some,Option.bind_eq_bind,Option.bind_some,Option.pure_def]
  split
  · refine ⟨_,rfl,rfl,number,rfl,rfl,?_⟩
    rw [← number]
    exact List.append_assoc ..
  · exact ⟨_,rfl,rfl,number,rfl,rfl,rfl⟩

theorem exchanging_send (exchanging : Exchanging buffers outBuf outLen server opening fd s x) (open_ : x.answer = none)
    (ran : s.send buffers outBuf t = some u) :
    ∃ y, y.answer = none ∧ Exchanging buffers outBuf outLen server opening fd u y := by
  rw [traffic_send_gives exchanging.number] at ran
  cases Option.some.inj ran
  split
  · rename_i positive
    have pending : x.pending = true := by
      by_contra off
      rw [exchanging.length,if_neg off] at positive
      exact Nat.lt_irrefl _ positive
    have whole : s.lookup.outLen = outLen := exchanging.length.trans (if_pos pending)
    let y : Exchange := {x with pending := !decide (0 < t.sendto.viaCall)}
    have next : x.next (outBuf.take outLen) (.writable t.sendto) = some (y,some (outBuf.take outLen,x.target)) := if_pos ⟨open_,pending⟩
    rw [← whole,← exchanging.target] at next
    refine ⟨y,open_,exchanging.more open_ (whole ▸ next) .sendto rfl ?_ rfl ?_ exchanging.target ?_⟩
    · rw [whole]
      simp [y,open_,closingCall]
    · have sent : (s.lookup.send outBuf t.sendto.viaCall).outLen = if 0 < t.sendto.viaCall then 0 else s.lookup.outLen := by
        rw [Lookup.send,if_pos positive]
      rw [sent,whole]
      by_cases taken : 0 < t.sendto.viaCall <;> simp [y,taken]
    · exact (send_answer outBuf _ _).trans exchanging.answer
  · exact ⟨x,open_,exchanging⟩

theorem filled_data (d : List UInt8) :
    (patch (List.replicate 1024 0) 0 (d.take 1024)).take (d.take 1024).length = d.take 1024 := by
  have front := take_patch (b := List.replicate 1024 0) (Nat.zero_le _) (d.take 1024)
  rwa [Nat.zero_add,List.take_zero,List.nil_append] at front

theorem received_exchange {s : Lookup} {x : Exchange} (r : Reception) (open_ : x.answer = none) (answer : s.answer = x.answer) :
    (s.receive r.data).outLen = s.outLen ∧ (s.receive r.data).answer = (x.receive r).answer ∧
      (if 0 < r.result.viaCall then [NativeCall.close n] else []) = closingCall n (x.receive r).answer ∧ (x.receive r).pending = x.pending ∧
      r.written x.target = (x.receive r).target := by
  cases r with
  | failed e =>
    refine ⟨rfl,answer,?_,rfl,rfl⟩
    rw [Exchange.receive,open_]
    rfl
  | datagram d sender =>
    simp only [Lookup.receive,Reception.data,filled_data]
    cases d with
    | nil => exact ⟨rfl,answer.trans open_,rfl,rfl,rfl⟩
    | cons b rest => exact ⟨rfl,rfl,if_pos (Int.natCast_pos.mpr (Nat.succ_pos _)),rfl,rfl⟩

theorem exchanging_receive (exchanging : Exchanging buffers outBuf outLen server opening fd s x) (open_ : x.answer = none)
    (ran : s.receive buffers t = some u) : ∃ y, Exchanging buffers outBuf outLen server opening fd u y := by
  obtain ⟨_,got,last,number,lookup,remote,calls⟩ := traffic_receive_gives exchanging.number t
  cases ran.symm.trans got
  have next : x.next (outBuf.take outLen) (.readable t.reception) = some (x.receive t.reception,none) := if_pos open_
  obtain ⟨length,answer,closed,pending,target⟩ := received_exchange (n := ToInt32 (some fd)) t.reception open_ exchanging.answer
  rw [closed] at calls
  refine ⟨_,exchanging.more open_ next .recvfrom last calls number ?_ ?_ ?_⟩
  · rw [lookup,length,pending,exchanging.length]
  · rw [remote,exchanging.target,target]
  · rw [lookup,answer]

theorem exchanging_turn (exchanging : Exchanging buffers outBuf outLen server opening fd s x) (step : TrafficStep buffers outBuf s t u) :
    ∃ y, Exchanging buffers outBuf outLen server opening fd u y := by
  obtain ⟨unanswered,ran⟩ := step
  have open_ : x.answer = none := exchanging.answer.symm.trans unanswered
  obtain ⟨sets,_,ran⟩ := Option.bind_eq_some_iff.mp ran
  obtain ⟨middle,writing,reading⟩ := Option.bind_eq_some_iff.mp ran
  have polled := exchanging_polled exchanging t sets
  have written : ∃ y, y.answer = none ∧ Exchanging buffers outBuf outLen server opening fd middle y := by
    obtain ⟨writable,_,writing⟩ := Option.bind_eq_some_iff.mp writing
    split at writing
    · exact exchanging_send polled open_ writing
    · cases Option.some.inj writing
      exact ⟨x,open_,polled⟩
  obtain ⟨y,still,between⟩ := written
  obtain ⟨readable,_,reading⟩ := Option.bind_eq_some_iff.mp reading
  split at reading
  · exact exchanging_receive between still reading
  · cases Option.some.inj reading
    exact ⟨y,between⟩

theorem exchanging_run {bound : Returned} (number : bound.socket.fd = some fd)
    (run : Runs (TrafficStep buffers outBuf) (.start outLen bound server) turns s) :
    ∃ x, Exchanging buffers outBuf outLen server bound.calls fd s x := by
  induction run with
  | nil => exact ⟨_,exchanging_start bound number⟩
  | snoc _ step ih =>
    obtain ⟨x,exchanging⟩ := ih
    exact exchanging_turn exchanging step

def Lookup.sets (s : Lookup) : fd_set × fd_set := (s.rfds,s.wfds)

theorem send_sets (outBuf : List UInt8) (result : ℤ) (s : Lookup) : (s.send outBuf result).sets = s.sets := by
  unfold Lookup.send
  split <;> rfl

theorem receive_sets (arrived : Option (List UInt8)) (s : Lookup) : (s.receive arrived).sets = s.sets := by
  cases arrived with
  | none => rfl
  | some datagram =>
    dsimp only [Lookup.receive]
    split <;> rfl

-- The loop without its traffic is the loop of lookup.
theorem traffic_plain {s : Traffic} (number : s.socket.fd = some fd) (step : TrafficStep buffers outBuf s t u) :
    LookupStep (some fd) outBuf s.lookup t.plain u.lookup := by
  obtain ⟨unanswered,ran⟩ := step
  obtain ⟨⟨rfds,wfds⟩,watched,ran⟩ := Option.bind_eq_some_iff.mp ran
  obtain ⟨middle,writing,reading⟩ := Option.bind_eq_some_iff.mp ran
  obtain ⟨writable,set,writing⟩ := Option.bind_eq_some_iff.mp writing
  obtain ⟨readable,also,reading⟩ := Option.bind_eq_some_iff.mp reading
  have polled : (s.polled t (rfds,wfds)).socket.fd = some fd := number
  have written : middle.socket.fd = some fd ∧ middle.lookup = (if writable then
      (s.polled t (rfds,wfds)).lookup.send outBuf t.sendto.viaCall else (s.polled t (rfds,wfds)).lookup) := by
    split at writing
    · rename_i yes
      rw [if_pos yes]
      rw [traffic_send_gives polled] at writing
      cases Option.some.inj writing
      split
      · exact ⟨number,rfl⟩
      · rename_i nothing
        refine ⟨number,?_⟩
        rw [Lookup.send,if_neg nothing]
    · rename_i no
      cases Option.some.inj writing
      rw [if_neg no]
      exact ⟨number,rfl⟩
  obtain ⟨still,lookup⟩ := written
  have kept : middle.lookup.rfds = (t.select rfds wfds).1 := by
    rw [lookup]
    split
    · exact congrArg Prod.fst (send_sets ..)
    · rfl
  have read : u.lookup = if readable then middle.lookup.receive t.reception.data else middle.lookup := by
    split at reading
    · rename_i yes
      obtain ⟨_,got,_,_,lookup,_⟩ := traffic_receive_gives still t
      cases reading.symm.trans got
      rw [if_pos yes]
      exact lookup
    · rename_i no
      cases Option.some.inj reading
      rw [if_neg no]
  rw [number] at watched
  rw [kept,still] at also
  have first : FD_ISSET (some fd) (t.select rfds wfds).2 = some writable := number ▸ set
  refine .turn unanswered ?_
  simp only [Lookup.turn,watched,ExchangeTurn.plain,Option.bind_eq_bind,Option.bind_some,first,also]
  rw [read,lookup]
  rfl

theorem plain_run {bound : Returned} (number : bound.socket.fd = some fd)
    (run : Runs (TrafficStep buffers outBuf) (.start outLen bound server) turns s) :
    Runs (LookupStep (some fd) outBuf) (.start outLen) (turns.map ExchangeTurn.plain) s.lookup := by
  induction run with
  | nil => exact .nil
  | snoc before step ih =>
    obtain ⟨_,exchanging⟩ := exchanging_run number before
    rw [List.map_append]
    exact .snoc ih (traffic_plain exchanging.number step)

theorem watch_ready (inside : n < FD_SETSIZE) (s : Lookup) : ∃ r w, s.watch (some (n : ℕ)) = some (r,w) ∧
    FD_ISSET (some (n : ℕ)) r = some true ∧ (s.outLen ≠ 0 → FD_ISSET (some (n : ℕ)) w = some true) := by
  obtain ⟨w,cleared,_⟩ := FD_CLR_members inside (FD_ZERO .theSet .undefined s.wfds)
  obtain ⟨r,set,members⟩ := FD_SET_members inside (FD_ZERO .theSet .undefined s.rfds)
  have present : FD_ISSET (some (n : ℕ)) r = some true := by
    rw [FD_ISSET_member inside,members,if_pos rfl]
  simp only [Lookup.watch,cleared,set,Option.bind_eq_bind,Option.bind_some]
  split
  · obtain ⟨v,also,written⟩ := FD_SET_members inside w
    refine ⟨r,v,by rw [also]; rfl,present,fun _ => ?_⟩
    rw [FD_ISSET_member inside,written,if_pos rfl]
  · rename_i nothing
    obtain ⟨v,also,written⟩ := FD_SET_members inside r
    refine ⟨v,w,by rw [also]; rfl,?_,fun pending => absurd pending nothing⟩
    rw [FD_ISSET_member inside,written,if_pos rfl]

theorem new_unset (inside : n < FD_SETSIZE) : FD_ISSET (some (n : ℕ)) .new = some false := by
  have tested := fresh_represents.tested n (size_fixed _ ▸ inside)
  simpa using tested

theorem turn_gives {s : Traffic} (watched : s.lookup.watch s.socket.fd = some sets)
    (writing : (s.polled t sets).writing buffers outBuf t = some middle) (reading : middle.reading buffers t = some u) :
    s.turn buffers outBuf t = some u := by
  rw [Traffic.turn,watched]
  exact (congrArg (Option.bind · _) writing).trans reading

theorem exchanging_possible {n : ℕ} (exchanging : Exchanging buffers outBuf outLen server opening n s x) (inside : n < FD_SETSIZE)
    (filled : 0 < outLen) (next : x.next (outBuf.take outLen) demand = some (y,o)) :
    ∃ t u, TrafficStep buffers outBuf s t u ∧ u.exchanged = s.exchanged++[⟨demand,o⟩] := by
  obtain ⟨r,w,watched,readable,writable⟩ := watch_ready inside s.lookup
  have number := exchanging.number
  have polled : ∀ t sets, (s.polled t sets).socket.fd = some (n : ℤ) := fun _ _ => number
  cases demand with
  | writable native =>
    obtain ⟨⟨open_,pending⟩,same⟩ := Option.ite_none_right_eq_some.mp next
    cases same
    have whole : s.lookup.outLen = outLen := exchanging.length.trans (if_pos pending)
    let t : ExchangeTurn := ⟨fun _ wfds => (.new,wfds),native,0,0,.failed 1⟩
    have set : FD_ISSET (some (n : ℕ)) (s.polled t (r,w)).lookup.wfds = some true := writable (by omega)
    have sent := @traffic_send_gives buffers outBuf n _ (polled t (r,w)) t
    rw [if_pos (show 0 < (s.polled t (r,w)).lookup.outLen from whole ▸ filled)] at sent
    have handed : s.exchanged++[⟨.writable native,some (outBuf.take (s.polled t (r,w)).lookup.outLen,s.remote)⟩] =
        s.exchanged++[⟨.writable native,some (outBuf.take outLen,x.target)⟩] := by
      rw [show (s.polled t (r,w)).lookup.outLen = outLen from whole,exchanging.target]
    obtain ⟨middle,sent,still,rfds,last⟩ : ∃ middle, (s.polled t (r,w)).send buffers outBuf t = some middle ∧
        middle.socket.fd = some (n : ℤ) ∧ middle.lookup.rfds = .new ∧
        middle.exchanged = s.exchanged++[Exchanged.mk (.writable native) (some (outBuf.take outLen,x.target))] := ⟨_,sent,number,congrArg Prod.fst (send_sets ..),handed⟩
    have writing : (s.polled t (r,w)).writing buffers outBuf t = some middle := by
      rw [Traffic.writing,polled,set]
      exact sent
    have reading : middle.reading buffers t = some middle := by
      rw [Traffic.reading,still,rfds,new_unset inside]
      rfl
    exact ⟨t,middle,.turn (exchanging.answer.trans open_) (turn_gives (number.symm ▸ watched) writing reading),last⟩
  | readable reception =>
    obtain ⟨open_,same⟩ := Option.ite_none_right_eq_some.mp next
    cases same
    let t : ExchangeTurn := ⟨fun rfds _ => (rfds,.new),.failed 1,0,0,reception⟩
    obtain ⟨u,got,last,_⟩ := traffic_receive_gives (polled t (r,w)) t
    have unset : FD_ISSET (some (n : ℕ)) (s.polled t (r,w)).lookup.wfds = some false := new_unset inside
    have set : FD_ISSET (some (n : ℕ)) (s.polled t (r,w)).lookup.rfds = some true := readable
    have writing : (s.polled t (r,w)).writing buffers outBuf t = some (s.polled t (r,w)) := by
      rw [Traffic.writing,polled,unset]
      rfl
    have reading : (s.polled t (r,w)).reading buffers t = some u := by
      rw [Traffic.reading,polled,set]
      exact got
    exact ⟨t,u,.turn (exchanging.answer.trans open_) (turn_gives (number.symm ▸ watched) writing reading),last⟩

theorem exchanging_reaches {n : ℕ} {bound : Returned} (number : bound.socket.fd = some (n : ℤ)) (inside : n < FD_SETSIZE) (filled : 0 < outLen)
    (ran : feed (Exchange.next (outBuf.take outLen)) (.start server) demands = some (x,sent)) :
    ∃ turns s, Runs (TrafficStep buffers outBuf) (.start outLen bound server) turns s ∧
      s.exchanged.map Exchanged.demand = demands ∧ s.exchanged.map Exchanged.sent = sent := by
  induction demands using List.reverseRecOn generalizing x sent with
  | nil =>
    cases ran
    exact ⟨[],_,.nil,rfl,rfl⟩
  | append_singleton demands demand ih =>
    obtain ⟨y,front,back,early,late,rfl⟩ := feed_split ran
    obtain ⟨turns,s,before,same,sent⟩ := ih early
    obtain ⟨z,o,rest,first,nothing,rfl⟩ := feed_uncons late
    cases nothing
    obtain ⟨w,exchanging⟩ := exchanging_run number before
    have answers := exchanging.answers
    rw [same,early] at answers
    cases answers
    obtain ⟨t,u,step,last⟩ := exchanging_possible exchanging inside filled first
    refine ⟨turns++[t],u,.snoc before step,?_,?_⟩
    · rw [last,List.map_append,same,List.map_singleton]
    · rw [last,List.map_append,sent,List.map_singleton]

end Parts

theorem query_filled {domain : JSText} (built : buildQuery domain = some (outBuf,outLen)) : 0 < outLen := by
  unfold buildQuery Copy at built
  obtain ⟨⟨copied,n⟩,made,built⟩ := Option.bind_eq_some_iff.mp built
  obtain ⟨_,same⟩ := Option.ite_none_left_eq_some.mp made
  have length := congrArg Prod.snd (Option.some.inj same)
  have kept := congrArg Prod.snd (Option.some.inj built)
  simp [queryNumbers] at length kept
  omega

-- What the network sees of a lookup is the exchange and nothing else: the query to the
-- server until it has been taken, to whoever has sent an empty datagram from then on,
-- and the first datagram that is not empty ends it.
theorem lookup_exchange {engine : List Char → JSNumber} (resolvConf : List Char) {domain : JSText} {outBuf : List UInt8} {outLen n : ℕ}
    {bound : Returned} (built : buildQuery domain = some (outBuf,outLen)) (opened : lookupBind engine port (.ok n) native = some bound)
    (buffers : LookupBuffers) : let server := lookupRemote engine (servers resolvConf)
    (∀ turns s, Runs (TrafficStep buffers outBuf) (.start outLen bound server) turns s →
      LookupRun domain (some n) (turns.map ExchangeTurn.plain) s.lookup ∧
      ∃ x natives, feed (Exchange.next (outBuf.take outLen)) (.start server) (s.exchanged.map Exchanged.demand) =
          some (x,s.exchanged.map Exchanged.sent) ∧ s.lookup.answer = x.answer ∧
        List.Forall₂ (Demand.Calls buffers (ToInt32 (some n)) outLen) (s.exchanged.map Exchanged.demand) natives ∧
        s.calls = bound.calls++natives++closingCall (ToInt32 (some n)) x.answer) ∧
    (n < FD_SETSIZE → ∀ demands x sent, feed (Exchange.next (outBuf.take outLen)) (.start server) demands = some (x,sent) →
      ∃ turns s, Runs (TrafficStep buffers outBuf) (.start outLen bound server) turns s ∧
        s.exchanged.map Exchanged.demand = demands ∧ s.exchanged.map Exchanged.sent = sent) := by
  have number : bound.socket.fd = some (n : ℤ) := by
    obtain ⟨_,_,_,_,same,_⟩ := bind_parts opened
    exact same
  refine ⟨?_,?_⟩
  · intro turns s run
    obtain ⟨x,exchanging⟩ := exchanging_run number run
    obtain ⟨natives,each,calls⟩ := exchanging.calls
    exact ⟨.run built (plain_run number run),x,natives,exchanging.answers,exchanging.answer,each,calls⟩
  · intro inside demands x sent ran
    exact exchanging_reaches number inside (query_filled built) ran

theorem exchange_strays (query : List UInt8) (server stray : sockaddr_in) :
    feed (Exchange.next query) (.start server)
        [.writable (.failed 101),.readable (.datagram [] stray),.writable (.ok 19),.readable (.datagram [1,2,3,4] stray)] =
      some (⟨false,stray,some (dotted [1,2,3,4])⟩,[some (query,server),none,some (query,stray),none]) := rfl

-- The first sendto fails and an empty datagram comes from 10.0.0.9: the query goes there.
theorem lookup_exchange_strayed : ∃ (turns : List ExchangeTurn) (s : Traffic) (query : List UInt8) (server stray : sockaddr_in),
    LookupRun [0x61] (some 3) (turns.map ExchangeTurn.plain) s.lookup ∧ server.bytes = InetAddress.encode ⟨2,53,Octets.none⟩ ∧
      stray.bytes = InetAddress.encode ⟨2,7,⟨10,0,0,9⟩⟩ ∧
      s.exchanged.map Exchanged.sent = [some (query,server),none,some (query,stray),none] ∧
      s.lookup.answer = some (dotted [1,2,3,4]) ∧ s.calls.length = 7 := by
  obtain ⟨outBuf,built,_⟩ := buildQuery_bytes (show ([0x61] : JSText).length ≤ 253 by simp)
  have colon : ∀ text : List Char, ':' ∈ text → (fun _ => none : List Char → JSNumber) text = none := fun _ _ => rfl
  obtain ⟨bound,opened,opening⟩ := bind_unnamed colon 4000 (.ok 3) (.ok 0)
  obtain ⟨sound,complete⟩ := lookup_exchange [] built opened ⟨0x4000,0x3000⟩
  let stray : sockaddr_in := ⟨InetAddress.encode ⟨2,7,⟨10,0,0,9⟩⟩,rfl⟩
  obtain ⟨turns,s,run,demands,sent⟩ := complete (by decide) _ _ _ (exchange_strays _ _ stray)
  obtain ⟨ran,x,natives,answers,answer,each,calls⟩ := sound turns s run
  rw [demands] at answers each
  rw [sent,exchange_strays] at answers
  cases answers
  have length := each.length_eq
  refine ⟨turns,s,_,_,stray,ran,remote_missing _,rfl,sent,answer,?_⟩
  rw [calls,opening,List.length_append,List.length_append,← length]
  rfl

end QjsFfi
