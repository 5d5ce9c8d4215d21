import QjsFfi.SocketHistories

namespace QjsFfi
open Histories Buffers Numerals

def elementOctets (a : List JSNumber) : Octets :=
  ⟨ToUint8 (element a 0),ToUint8 (element a 1),ToUint8 (element a 2),ToUint8 (element a 3)⟩

def numberOctets (n : ℕ) : Octets := ⟨.ofNat (n/2^24%256),.ofNat (n/2^16%256),.ofNat (n/2^8%256),.ofNat (n%256)⟩

def AddressValue.octets (engine : List Char → JSNumber) : AddressValue → Octets
  | .string text => elementOctets ((text.splitOnP addressSeparator).map (toNumber engine))
  | .array a => elementOctets a
  | .number n => numberOctets (ToUint32 n).toNat

-- A Socket by what connect and bind are for: where to, where from, and the addresses
-- that have been handed to the kernel.
structure Addresses where
  remote : InetAddress
  local_ : InetAddress
  connected : List InetAddress
  bound : List InetAddress

def Addresses.start : Addresses := ⟨⟨2,0,⟨0,0,0,0⟩⟩,⟨2,0,⟨0,0,0,0⟩⟩,[],[]⟩

def InetAddress.given (engine : List Char → JSNumber) (f : InetAddress) (addr : Option AddressValue) (port : Option JSNumber) : InetAddress :=
  {f with octets := (addr.map (AddressValue.octets engine)).getD f.octets,port := (port.map ToUint16).getD f.port}

def Addresses.operation (engine : List Char → JSNumber) (a : Addresses) : Operation → Addresses
  | .connect addr port _ => {a with remote := a.remote.given engine addr port,connected := a.connected++[a.remote.given engine addr port]}
  | .bind addr port _ => {a with local_ := a.local_.given engine addr port,bound := a.bound++[a.local_.given engine addr port]}
  | _ => a

def Addresses.event (engine : List Char → JSNumber) (i : ℕ) (a : Addresses) : SocketEvent → Addresses
  | .returned j op => if j = i then a.operation engine op else a
  | _ => a

def NativeCall.connects : NativeCall → Option (List UInt8 × ℕ) | .connect _ addr len => some (addr,len) | _ => none
def NativeCall.binds : NativeCall → Option (List UInt8 × ℕ) | .bind _ addr len => some (addr,len) | _ => none

def InetAddress.wire (f : InetAddress) : List UInt8 × ℕ := (f.encode,16)

structure SocketAddressed (a : Addresses) (e : SocketEntry) : Prop where
  fd : ∃ fd, e.socket.fd = some fd
  remote : ∃ r, e.socket.remote = some r ∧ r.bytes = a.remote.encode
  local_ : ∃ r, e.socket.local_ = some r ∧ r.bytes = a.local_.encode
  connected : e.calls.filterMap NativeCall.connects = a.connected.map InetAddress.wire
  bound : e.calls.filterMap NativeCall.binds = a.bound.map InetAddress.wire

section Records
variable {engine : List Char → JSNumber}

theorem number_octets (n : ℕ) : bigEndian 4 n = (numberOctets n).list := by
  simp [bigEndian,bytes,numberOctets,Octets.list,Nat.div_div_eq_div_mul]

theorem set_sin_addr_octets (s : sockaddr_in) (addr : AddressValue) :
    (s.set_sin_addr engine addr).bytes = patch s.bytes 4 (addr.octets engine).list := by
  cases addr with
  | string text => rfl
  | array a => rfl
  | number n => exact congrArg (patch s.bytes 4) (number_octets _)

theorem addressed_encode {a : sockaddr_in} {f : InetAddress} (encoded : a.bytes = f.encode) (addr : Option AddressValue)
    (port : Option JSNumber) : (addressed engine a addr port).bytes = (f.given engine addr port).encode := by
  have located : ∀ s : sockaddr_in, ∀ g : InetAddress, s.bytes = g.encode → ∀ v, (s.set_sin_addr engine v).bytes =
      {g with octets := v.octets engine}.encode := by
    intro s g same v
    rw [set_sin_addr_octets,same]
    exact patch_encode g (.addr .array (v.octets engine))
  have numbered : ∀ s : sockaddr_in, ∀ g : InetAddress, s.bytes = g.encode → ∀ n, (s.set_sin_port n).bytes =
      {g with port := ToUint16 n}.encode := by
    intro s g same n
    have stored : (s.set_sin_port n).bytes = patch s.bytes 2 (bigEndian 2 (ToUint16 n).toNat) := rfl
    rw [stored,same]
    exact patch_encode g (.port (ToUint16 n))
  cases addr with
  | none =>
    cases port with
    | none => exact encoded
    | some n => exact numbered a f encoded n
  | some v =>
    cases port with
    | none => exact located a f encoded v
    | some n => exact numbered _ _ (located a f encoded v) n

end Records

structure Unaddressed (s : Socket) (r : Returned) : Prop where
  fd : r.socket.fd = s.fd
  remote : r.socket.remote = s.remote
  local_ : r.socket.local_ = s.local_
  calls : ∀ c ∈ r.calls, c.connects = none ∧ c.binds = none

section Operations
variable {engine : List Char → JSNumber} {s : Socket} {r : Returned}

theorem Unaddressed.one {t : Socket} {c : NativeCall} (fd : t.fd = s.fd) (remote : t.remote = s.remote) (own : t.local_ = s.local_)
    (call : c.connects = none ∧ c.binds = none) : Unaddressed s ⟨t,[c],ret,accepted⟩ := by
  refine ⟨fd,remote,own,?_⟩
  intro d member
  rw [List.mem_singleton.mp member]
  exact call

theorem listen_unaddressed (ran : s.listen backlog native = some r) : Unaddressed s r := by
  cases Option.some.inj ran
  refine .one ?_ ?_ ?_ ⟨rfl,rfl⟩ <;> split <;> rfl

theorem accept_unaddressed (ran : s.accept engine remote native = some r) : Unaddressed s r := by
  unfold Socket.accept at ran
  dsimp only at ran
  split at ran
  · cases Option.some.inj ran
    exact .one rfl rfl rfl ⟨rfl,rfl⟩
  · cases Option.some.inj ran
    exact .one rfl rfl rfl ⟨rfl,rfl⟩

theorem readBuffer_unaddressed (ran : s.readBuffer size offset len native = some r) : Unaddressed s r := by
  obtain ⟨⟨pos,n⟩,_,ran⟩ := Option.bind_eq_some_iff.mp ran
  dsimp only at ran
  split at ran
  · cases Option.some.inj ran
    exact .one rfl rfl rfl ⟨rfl,rfl⟩
  · split at ran
    · cases Option.some.inj ran
      refine ⟨rfl,rfl,rfl,?_⟩
      intro c member
      simp only [List.mem_append,List.mem_singleton] at member
      rcases member with rfl | rfl
      · exact ⟨rfl,rfl⟩
      · exact ⟨rfl,rfl⟩
    · cases Option.some.inj ran
      exact .one rfl rfl rfl ⟨rfl,rfl⟩

theorem read_unaddressed (ran : s.read arg native = some r) : Unaddressed s r := by
  cases arg with
  | absent => exact readBuffer_unaddressed ran
  | number n =>
    simp only [Socket.read] at ran
    split at ran
    · exact readBuffer_unaddressed ran
    · cases ran
  | buffer size offset len => exact readBuffer_unaddressed ran
  | object => cases ran

theorem write_unaddressed (ran : s.write size offset len native = some r) : Unaddressed s r := by
  obtain ⟨bytes,_,ran⟩ := Option.bind_eq_some_iff.mp ran
  obtain ⟨⟨pos,n⟩,_,ran⟩ := Option.bind_eq_some_iff.mp ran
  cases Option.some.inj ran
  refine .one ?_ ?_ ?_ ⟨rfl,rfl⟩ <;> split <;> rfl

theorem recvfrom_unaddressed (ran : s.recvfrom buf len flags src_addr addrlen native = some r) : Unaddressed s r := by
  obtain ⟨fd,_,ran⟩ := Option.bind_eq_some_iff.mp ran
  obtain ⟨b,_,ran⟩ := Option.bind_eq_some_iff.mp ran
  obtain ⟨l,_,ran⟩ := Option.bind_eq_some_iff.mp ran
  cases Option.some.inj ran
  exact .one rfl rfl rfl ⟨rfl,rfl⟩

theorem sendto_unaddressed (ran : s.sendto buf len flags dest_addr addrlen native = some r) : Unaddressed s r := by
  obtain ⟨addrlen,_,ran⟩ := Option.bind_eq_some_iff.mp ran
  obtain ⟨fd,_,ran⟩ := Option.bind_eq_some_iff.mp ran
  obtain ⟨b,_,ran⟩ := Option.bind_eq_some_iff.mp ran
  obtain ⟨l,_,ran⟩ := Option.bind_eq_some_iff.mp ran
  cases Option.some.inj ran
  exact .one rfl rfl rfl ⟨rfl,rfl⟩

theorem SocketAddressed.unaddressed {e : SocketEntry} (addressed : SocketAddressed a e) (alone : Unaddressed e.socket r) :
    SocketAddressed a (e.after r) := by
  have silent : ∀ f : NativeCall → Option (List UInt8 × ℕ), (∀ c ∈ r.calls, f c = none) → (e.calls++r.calls).filterMap f = e.calls.filterMap f := by
    intro f nothing
    rw [List.filterMap_append,List.filterMap_eq_nil_iff.mpr nothing,List.append_nil]
  refine ⟨?_,?_,?_,?_,?_⟩
  · obtain ⟨fd,own⟩ := addressed.fd
    exact ⟨fd,alone.fd.trans own⟩
  · obtain ⟨record,own,bytes⟩ := addressed.remote
    exact ⟨record,alone.remote.trans own,bytes⟩
  · obtain ⟨record,own,bytes⟩ := addressed.local_
    exact ⟨record,alone.local_.trans own,bytes⟩
  · exact (silent _ (fun c member => (alone.calls c member).1)).trans addressed.connected
  · exact (silent _ (fun c member => (alone.calls c member).2)).trans addressed.bound

theorem connect_parts (ran : s.connect engine addr port native = some r) : ∃ record, s.remote = some record ∧
    r.socket.fd = s.fd ∧ r.socket.local_ = s.local_ ∧ r.socket.remote = some (addressed engine record addr port) ∧
      r.calls = [.connect (ToInt32 s.fd) (addressed engine record addr port).bytes (addressed engine record addr port).bytes.length] := by
  obtain ⟨record,own,ran⟩ := Option.bind_eq_some_iff.mp ran
  cases Option.some.inj ran
  refine ⟨record,own,?_,?_,?_,?_⟩ <;> split <;> simp [syscall_errno]

theorem bind_parts (ran : s.bind engine addr port native = some r) : ∃ record fd, s.local_ = some record ∧ s.fd = some fd ∧
    r.socket.fd = s.fd ∧ r.socket.remote = s.remote ∧ r.socket.local_ = some (addressed engine record addr port) ∧
      r.calls = [.setsockopt (ToInt32 (some fd)) SOL_SOCKET SO_REUSEADDR 1 4,
        .bind (ToInt32 s.fd) (addressed engine record addr port).bytes (addressed engine record addr port).bytes.length] := by
  obtain ⟨record,own,ran⟩ := Option.bind_eq_some_iff.mp ran
  obtain ⟨fd,number,ran⟩ := Option.bind_eq_some_iff.mp ran
  cases Option.some.inj ran
  refine ⟨record,fd,own,number,?_,?_,?_,?_⟩ <;> split <;> rfl

theorem connect_addressed {e : SocketEntry} (addressed : SocketAddressed a e) (ran : e.socket.connect engine addr port native = some r) :
    SocketAddressed (a.operation engine (.connect addr port native)) (e.after r) := by
  obtain ⟨record,own,fd,local_,remote,calls⟩ := connect_parts ran
  obtain ⟨_,same,bytes⟩ := addressed.remote
  cases own.symm.trans same
  have encoded := @addressed_encode engine _ _ bytes addr port
  refine ⟨?_,⟨_,remote,encoded⟩,?_,?_,?_⟩
  · obtain ⟨n,number⟩ := addressed.fd
    exact ⟨n,fd.trans number⟩
  · obtain ⟨other,kept,held⟩ := addressed.local_
    exact ⟨other,local_.trans kept,held⟩
  · have last : r.calls.filterMap NativeCall.connects = [(a.remote.given engine addr port).wire] := by
      rw [calls,encoded]
      rfl
    have whole : (e.calls++r.calls).filterMap NativeCall.connects = (a.connected++[a.remote.given engine addr port]).map InetAddress.wire := by
      rw [List.filterMap_append,addressed.connected,last,List.map_append]
      rfl
    exact whole
  · have unbound : r.calls.filterMap NativeCall.binds = [] := by
      rw [calls]
      rfl
    have whole : (e.calls++r.calls).filterMap NativeCall.binds = a.bound.map InetAddress.wire := by
      rw [List.filterMap_append,addressed.bound,unbound,List.append_nil]
    exact whole

theorem bind_addressed {e : SocketEntry} (addressed : SocketAddressed a e) (ran : e.socket.bind engine addr port native = some r) :
    SocketAddressed (a.operation engine (.bind addr port native)) (e.after r) := by
  obtain ⟨record,n,own,number,fd,remote,local_,calls⟩ := bind_parts ran
  obtain ⟨_,same,bytes⟩ := addressed.local_
  cases own.symm.trans same
  have encoded := @addressed_encode engine _ _ bytes addr port
  refine ⟨⟨n,fd.trans number⟩,?_,⟨_,local_,encoded⟩,?_,?_⟩
  · obtain ⟨other,kept,held⟩ := addressed.remote
    exact ⟨other,remote.trans kept,held⟩
  · have unconnected : r.calls.filterMap NativeCall.connects = [] := by
      rw [calls]
      rfl
    have whole : (e.calls++r.calls).filterMap NativeCall.connects = a.connected.map InetAddress.wire := by
      rw [List.filterMap_append,addressed.connected,unconnected,List.append_nil]
    exact whole
  · have last : r.calls.filterMap NativeCall.binds = [(a.local_.given engine addr port).wire] := by
      rw [calls,encoded]
      rfl
    have whole : (e.calls++r.calls).filterMap NativeCall.binds = (a.bound++[a.local_.given engine addr port]).map InetAddress.wire := by
      rw [List.filterMap_append,addressed.bound,last,List.map_append]
      rfl
    exact whole

theorem SocketAddressed.operation {e : SocketEntry} (addressed : SocketAddressed a e) (ran : Operation.run engine e.socket op = some r) :
    SocketAddressed (a.operation engine op) (e.after r) := by
  cases op with
  | connect addr port native => exact connect_addressed addressed ran
  | bind addr port native => exact bind_addressed addressed ran
  | listen backlog native => exact addressed.unaddressed (listen_unaddressed ran)
  | accept remote native => exact addressed.unaddressed (accept_unaddressed ran)
  | read arg native => exact addressed.unaddressed (read_unaddressed ran)
  | write size offset len native => exact addressed.unaddressed (write_unaddressed ran)
  | recvfrom buf len flags src_addr addrlen native => exact addressed.unaddressed (recvfrom_unaddressed ran)
  | sendto buf len flags dest_addr addrlen native => exact addressed.unaddressed (sendto_unaddressed ran)
  | close =>
    cases Option.some.inj ran
    exact addressed.unaddressed (.one rfl rfl rfl ⟨rfl,rfl⟩)

theorem constructed_addressed (engine : List Char → JSNumber) (proto : ℤ) (native : SysResult) :
    SocketAddressed .start ⟨.new engine proto native,native.viaCall,true,[]⟩ :=
  ⟨⟨_,rfl⟩,⟨_,rfl,rfl⟩,⟨_,rfl,rfl⟩,rfl,rfl⟩

end Operations

def addressesOf (engine : List Char → JSNumber) (i : ℕ) (history : List SocketEvent) : Addresses :=
  history.foldl (Addresses.event engine i) .start

theorem addressesOf_snoc (engine : List Char → JSNumber) (i : ℕ) (history : List SocketEvent) (event : SocketEvent) :
    addressesOf engine i (history++[event]) = (addressesOf engine i history).event engine i event := List.foldl_concat ..

structure WorldAddressed (engine : List Char → JSNumber) (history : List SocketEvent) (w : List SocketEntry) : Prop where
  made : ∀ i e, w[i]? = some e → e.built = true → SocketAddressed (addressesOf engine i history) e
  later : ∀ i, w[i]? = none → addressesOf engine i history = .start

theorem step_addressed (kept : WorldAddressed engine history w) (step : SocketStep engine w event next) :
    WorldAddressed engine (history++[event]) next := by
  cases step with
  | constructed =>
    rename_i proto native
    have same : ∀ i, addressesOf engine i (history++[.constructed proto native]) = addressesOf engine i history :=
      fun i => addressesOf_snoc engine i history _
    refine ⟨?_,?_⟩
    · intro i e found built
      rw [same]
      rcases Nat.lt_or_ge i w.length with old | new
      · rw [List.getElem?_append_left old] at found
        exact kept.made i e found built
      · rw [List.getElem?_append_right new] at found
        rw [kept.later i (List.getElem?_eq_none new),List.mem_singleton.mp (List.mem_of_getElem? found)]
        exact constructed_addressed engine proto native
    · intro i missing
      rw [same]
      apply kept.later
      rw [List.getElem?_eq_none_iff,List.length_append] at missing
      exact List.getElem?_eq_none (by omega)
  | returned there ran =>
    rename_i j d r op
    refine ⟨?_,?_⟩
    · intro i e found built
      rw [addressesOf_snoc]
      rcases Nat.lt_or_ge i w.length with old | new
      · rw [List.getElem?_append_left (by simpa using old)] at found
        by_cases same : j = i
        · subst same
          rw [List.getElem?_set_self old] at found
          cases Option.some.inj found
          have own : Addresses.event engine j (addressesOf engine j history) (.returned j op) =
              (addressesOf engine j history).operation engine op := if_pos rfl
          rw [own]
          exact (kept.made j d there built).operation ran
        · rw [List.getElem?_set_ne same] at found
          have other : Addresses.event engine i (addressesOf engine i history) (.returned j op) = addressesOf engine i history := if_neg same
          rw [other]
          exact kept.made i e found built
      · rw [List.getElem?_append_right (by simpa using new)] at found
        obtain ⟨made,_,rfl⟩ := List.mem_map.mp (List.mem_of_getElem? found)
        cases built
    · intro i missing
      have inside := (List.getElem?_eq_some_iff.mp there).1
      rw [List.getElem?_eq_none_iff,List.length_append,List.length_set] at missing
      have other : Addresses.event engine i (addressesOf engine i history) (.returned j op) = addressesOf engine i history := if_neg (by omega)
      rw [addressesOf_snoc,other]
      exact kept.later i (List.getElem?_eq_none (by omega))
  | threw there ran =>
    rename_i j d op
    have same : ∀ i, addressesOf engine i (history++[.threw j op]) = addressesOf engine i history := fun i => addressesOf_snoc engine i history _
    refine ⟨?_,?_⟩
    · intro i e found built
      rw [same]
      exact kept.made i e found built
    · intro i missing
      rw [same]
      exact kept.later i missing

-- Under any sequence of operations, each connect and each bind of a Socket hands the
-- kernel sixteen bytes: AF_INET, and the port and the address that were given last.
theorem socket_addresses (run : SocketRun engine history w) (found : w[i]? = some e) (built : e.built = true) :
    SocketAddressed (addressesOf engine i history) e := by
  have kept : WorldAddressed engine history w := by
    refine Runs.invariant ⟨?_,?_⟩ ?_ run
    · intro i e found
      simp at found
    · exact fun _ _ => rfl
    · intro _ _ _ _ _ kept step
      exact step_addressed kept step
  exact kept.made i e found built

theorem socket_addresses_twice : ∃ e : SocketEntry, e.calls.filterMap NativeCall.connects =
    [(InetAddress.encode ⟨2,0,⟨10,0,0,1⟩⟩,16),(InetAddress.encode ⟨2,23,⟨10,0,0,1⟩⟩,16)] ∧
      e.calls.filterMap NativeCall.binds = [(InetAddress.encode ⟨2,80,⟨0,0,0,0⟩⟩,16)] := by
  have made : SocketRun (fun _ => none) [.constructed 0 (.ok 3)] _ := .snoc .nil .constructed
  have bound : SocketRun (fun _ => none) ([.constructed 0 (.ok 3)]++[.returned 0 (.bind none (some (some 80)) (.ok 0))]) _ :=
    .snoc made (.returned rfl rfl)
  have tried : SocketRun (fun _ => none) ([.constructed 0 (.ok 3)]++[.returned 0 (.bind none (some (some 80)) (.ok 0))]++
      [.returned 0 (.connect (some (.array [some 10,some 0,some 0,some 1])) none (.failed EINPROGRESS))]) _ := .snoc bound (.returned rfl rfl)
  have again : SocketRun (fun _ => none) ([.constructed 0 (.ok 3)]++[.returned 0 (.bind none (some (some 80)) (.ok 0))]++
      [.returned 0 (.connect (some (.array [some 10,some 0,some 0,some 1])) none (.failed EINPROGRESS))]++
      [.returned 0 (.connect none (some (some 23)) (.ok 0))]) _ := .snoc tried (.returned rfl rfl)
  have addressed := socket_addresses (i := 0) again rfl rfl
  exact ⟨_,addressed.connected,addressed.bound⟩

end QjsFfi
