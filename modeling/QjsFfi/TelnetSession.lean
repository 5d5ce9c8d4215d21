import QjsFfi.TelnetOutput

namespace QjsFfi
open Buffers Histories

inductive TerminalWrite where
  | cursor (shown : Bool)
  | data (bytes : List UInt8)

def TerminalWrite.bytes : TerminalWrite → List UInt8
  | .cursor true => [0x1b,0x5b,0x33,0x34,0x68,0x1b,0x5b,0x3f,0x32,0x35,0x68]
  | .cursor false => [0x1b,0x5b,0x3f,0x32,0x35,0x6c]
  | .data bytes => bytes

def TerminalWrite.received : TerminalWrite → Option (List UInt8) | .data bytes => some bytes | .cursor _ => none

structure Console where
  telnet : Telnet
  received : List (List UInt8)
  terminal : List TerminalWrite

-- What write(STDOUT_FILENO, data, start, length) takes out of data; none is a RangeError.
def relayed (chunk : List UInt8) : Option (List UInt8) := do
  let (start,length) ← osSpan 1024 (some (skipped chunk)) (some ((chunk.length : ℤ)-skipped chunk))
  pure (slice (patch (List.replicate 1024 0) 0 chunk) start length)

section Iteration
variable (engine : List Char → JSNumber) (memory : List UInt8 → ℕ → UInt8)

def Console.take (chunk : List UInt8) (s : Console) : Console :=
  if chunk = [] then s else {s with received := s.received++[chunk]}

def Console.relay (chunk : List UInt8) (s : Console) : Option Console :=
  if chunk = [] then some s
  else do
    let data ← relayed chunk
    pure {s with terminal := s.terminal++[.cursor false,.data data]}

def Console.reading (t : TelnetTurn) (s : Console) : Option Console := do
  let ready ← FD_ISSET s.telnet.connNumber s.telnet.rfds
  let telnet ← s.telnet.reading t
  let next := {s with telnet := telnet}
  if ready then
    if s.telnet.handshake < 4 then pure (next.take (t.arrived.upTo s.telnet.outBuf.length))
    else (next.take (t.arrived.upTo 1024)).relay (t.arrived.upTo 1024)
  else pure next

def Console.typing (t : TelnetTurn) (s : Console) : Option Console := do
  let ready ← FD_ISSET STDIN_FILENO s.telnet.rfds
  let telnet ← s.telnet.typing memory t
  let next := {s with telnet := telnet}
  if ready ∧ t.keyed.upTo (s.telnet.inBuf.length-s.telnet.inLen) ≠ [] then pure {next with terminal := s.terminal++[.cursor true]}
  else pure next

def Console.iterate (listening : Bool) (t : TelnetTurn) (s : Console) : Option Console :=
  if s.telnet.sock.destroyed then none
  else do
    let sets ← s.telnet.watch
    let a ← (s.telnet.polled t sets).writing memory t
    let b ← a.meeting engine listening t
    let c ← Console.reading t {s with telnet := b}
    c.typing memory t

inductive ConsoleStep (listening : Bool) (s : Console) (t : TelnetTurn) (next : Console) : Prop where
  | turn : (∀ sets, s.telnet.watch = some sets →
      Shrinks (s.telnet.polled t sets).rfds sets.1 ∧ Shrinks (s.telnet.polled t sets).wfds sets.2) →
      s.iterate engine memory listening t = some next → ConsoleStep listening s t next

structure ConsoleRun (listening : Bool) (sock : Socket) (turns : List TelnetTurn) (s : Console) : Prop where
  opened : TelnetSocket engine listening sock
  ran : Runs (ConsoleStep engine memory listening) ⟨.start sock,[],[]⟩ turns s

end Iteration

inductive SessionEvent where
  | accepted
  | received (chunk : List UInt8)
  | typed (chars : List UInt8)

def SessionEvent.chunk : SessionEvent → Option (List UInt8) | .received chunk => some chunk | _ => none
def SessionEvent.keys : SessionEvent → List UInt8 | .typed chars => chars | _ => []

-- What typing places: ff f2 03 stands for 03.
def placedKeys : List UInt8 → List UInt8
  | [] => []
  | 0xff :: 0xf2 :: 0x03 :: rest => 0x03 :: placedKeys rest
  | c :: rest => c :: placedKeys rest

-- What a session is for. Until four writes have been accepted what is read is placed
-- into the output, from then on it is shown without a leading command; what is typed
-- is always placed, and the screen is cleared after the first write.
structure Session where
  accepted : ℕ
  placed : List UInt8
  terminal : List TerminalWrite
  asked : Bool

def Session.start : Session := ⟨0,[],[],false⟩

def Session.next (s : Session) : SessionEvent → Session
  | .accepted => {s with accepted := s.accepted+1,placed := s.placed++if s.accepted = 0 then [0x1b,0x5b,0x32,0x4a] else []}
  | .received chunk =>
    if s.accepted < 4 then {s with placed := s.placed++chunk}
    else {s with terminal := s.terminal++[.cursor false,.data (chunk.drop (skipped chunk))],asked := s.asked || asksTerm chunk}
  | .typed chars => {s with placed := s.placed++placedKeys chars,terminal := s.terminal++[.cursor true]}

def sessionOf (events : List SessionEvent) : Session := events.foldl Session.next .start

theorem sessionOf_snoc (events : List SessionEvent) (event : SessionEvent) :
    sessionOf (events++[event]) = (sessionOf events).next event := List.foldl_concat ..

theorem next_early {s : Session} (few : s.accepted < 4) (chunk : List UInt8) :
    s.next (.received chunk) = {s with placed := s.placed++chunk} := if_pos few

theorem next_late {s : Session} (many : ¬ s.accepted < 4) (chunk : List UInt8) : s.next (.received chunk) = {s with
    terminal := s.terminal++[.cursor false,.data (chunk.drop (skipped chunk))],asked := s.asked || asksTerm chunk} := if_neg many

structure Follows (events : List SessionEvent) (s : Console) : Prop where
  handshake : s.telnet.handshake = min 4 (sessionOf events).accepted
  placed : s.telnet.placed = (sessionOf events).placed
  asked : s.telnet.termSent = (sessionOf events).asked
  terminal : s.terminal = (sessionOf events).terminal
  received : s.received = events.filterMap SessionEvent.chunk
  typed : s.telnet.typed = events.flatMap SessionEvent.keys

theorem session_split (events : List SessionEvent) : ∃ early late, events.filterMap SessionEvent.chunk = early++late ∧
    (sessionOf events).terminal.filterMap TerminalWrite.received = late.map (fun chunk => chunk.drop (skipped chunk)) ∧
    ((sessionOf events).accepted < 4 → late = []) := by
  induction events using List.reverseRecOn with
  | nil => exact ⟨[],[],rfl,rfl,fun _ => rfl⟩
  | append_singleton events event ih =>
    obtain ⟨early,late,chunks,shown,unheard⟩ := ih
    rw [sessionOf_snoc,List.filterMap_append,chunks]
    cases event with
    | accepted => exact ⟨early,late,List.append_nil _,shown,fun few => unheard (Nat.lt_of_succ_lt few)⟩
    | typed chars =>
      refine ⟨early,late,List.append_nil _,?_,unheard⟩
      simp only [Session.next,List.filterMap_append,shown]
      exact List.append_nil _
    | received chunk =>
      by_cases few : (sessionOf events).accepted < 4
      · rw [next_early few,unheard few]
        refine ⟨early++[chunk],[],?_,?_,fun _ => rfl⟩
        · simp [SessionEvent.chunk]
        · rw [shown,unheard few]
      · rw [next_late few]
        refine ⟨early,late++[chunk],?_,?_,fun fewer => absurd fewer few⟩
        · simp [SessionEvent.chunk]
        · rw [List.filterMap_append,shown,List.map_append]
          rfl

theorem skipped_le (chars : List UInt8) : skipped chars ≤ chars.length := by
  unfold skipped
  split
  · rename_i two
    have length := congrArg List.length two
    split
    · rename_i three
      have front := congrArg (List.take 2) three
      rw [List.take_take,Nat.min_eq_left (by omega),two] at front
      cases front
    · simp at length
      omega
  · split
    · rename_i three
      have length := congrArg List.length three
      simp at length
      omega
    · omega

theorem relayed_drop {chunk : List UInt8} (fits : chunk.length ≤ 1024) : relayed chunk = some (chunk.drop (skipped chunk)) := by
  have inside := skipped_le chunk
  have span : osSpan 1024 (some (skipped chunk)) (some ((chunk.length : ℤ)-skipped chunk)) =
      some (skipped chunk,chunk.length-skipped chunk) := by
    have length : toIndex (some ((chunk.length : ℤ)-skipped chunk)) = some (chunk.length-skipped chunk) := by
      rw [toIndex,Option.getD_some,if_pos (by omega)]
      exact congrArg some (by omega)
    have start : toIndex (some (skipped chunk : ℤ)) = some (skipped chunk) := if_pos (Int.natCast_nonneg _)
    simp only [osSpan,length,start,Option.bind_eq_bind,Option.bind_some]
    exact if_pos (by omega)
  have front := take_patch (b := List.replicate 1024 (0 : UInt8)) (Nat.zero_le _) chunk
  rw [Nat.zero_add,List.take_zero,List.nil_append] at front
  have data : slice (patch (List.replicate 1024 0) 0 chunk) (skipped chunk) (chunk.length-skipped chunk) = chunk.drop (skipped chunk) := by
    rw [slice,← List.drop_take,front]
  rw [relayed,span,← data]
  rfl

theorem follows_start (sock : Socket) : Follows [] ⟨.start sock,[],[]⟩ := ⟨rfl,rfl,rfl,rfl,rfl,rfl⟩

section Parts
variable {engine : List Char → JSNumber} {memory : List UInt8 → ℕ → UInt8} {events : List SessionEvent}

theorem Follows.same (follows : Follows events s) (next : Telnet) (handshake : next.handshake = s.telnet.handshake)
    (placed : next.placed = s.telnet.placed) (asked : next.termSent = s.telnet.termSent) (typed : next.typed = s.telnet.typed) :
    Follows events {s with telnet := next} :=
  ⟨handshake.trans follows.handshake,placed.trans follows.placed,asked.trans follows.asked,follows.terminal,follows.received,
    typed.trans follows.typed⟩

theorem greet_placed {s : Telnet} (ran : s.greet memory = some next) : next.handshake = s.handshake ∧ next.termSent = s.termSent ∧
    next.typed = s.typed ∧ next.placed = s.placed++if s.handshake = 0 then [0x1b,0x5b,0x32,0x4a] else [] := by
  unfold Telnet.greet at ran
  split at ran
  · rename_i first
    obtain ⟨_,_,_,rfl⟩ := append_parts ran
    refine ⟨rfl,rfl,rfl,?_⟩
    rw [if_pos first]
    rfl
  · rename_i later
    cases Option.some.inj ran
    rw [if_neg later,List.append_nil]
    exact ⟨rfl,rfl,rfl,rfl⟩

theorem advance_fields (s : Telnet) : s.advance.handshake = (if s.handshake < 4 then s.handshake+1 else s.handshake) ∧
    s.advance.termSent = s.termSent ∧ s.advance.typed = s.typed ∧ s.advance.placed = s.placed := by
  unfold Telnet.advance
  split <;> exact ⟨rfl,rfl,rfl,rfl⟩

theorem follows_writing (follows : Follows events s) (ran : s.telnet.writing memory t = some next) :
    ∃ events', Follows events' {s with telnet := next} := by
  rcases writing_cases ran with rfl | ⟨_,flushed⟩
  · exact ⟨events,follows⟩
  · rcases flush_cases flushed with rfl | ⟨_,_,sock,rfl⟩ | ⟨_,_,sock,greeted,greeting,rfl⟩
    · exact ⟨events,follows.same _ rfl rfl rfl rfl⟩
    · exact ⟨events,follows.same _ rfl rfl rfl rfl⟩
    · obtain ⟨handshake,asked,typed,placed⟩ := greet_placed greeting
      obtain ⟨advanced,asked',typed',placed'⟩ := advance_fields greeted
      have before := follows.handshake
      dsimp only at handshake placed
      refine ⟨events++[.accepted],?_,?_,?_,?_,?_,?_⟩
      · rw [sessionOf_snoc]
        show greeted.advance.handshake = min 4 ((sessionOf events).accepted+1)
        rw [advanced,handshake,before]
        split <;> omega
      · rw [sessionOf_snoc]
        show greeted.advance.placed = (sessionOf events).placed++if (sessionOf events).accepted = 0 then _ else _
        have first : s.telnet.handshake = 0 ↔ (sessionOf events).accepted = 0 := by omega
        rw [placed',placed,follows.placed]
        simp only [first]
      · rw [sessionOf_snoc]
        exact (asked'.trans asked).trans follows.asked
      · rw [sessionOf_snoc]
        exact follows.terminal
      · rw [List.filterMap_append]
        exact follows.received.trans (List.append_nil _).symm
      · rw [List.flatMap_append]
        exact ((typed'.trans typed).trans follows.typed).trans (List.append_nil _).symm

theorem follows_meeting (follows : Follows events s) (ran : s.telnet.meeting engine listening t = some next) :
    Follows events {s with telnet := next} := by
  obtain ⟨sock,conn,rfl⟩ := meeting_parts ran
  exact follows.same _ rfl rfl rfl rfl

theorem sendTerm_sent {s : Telnet} (ran : s.sendTerm t = some next) : next.termSent = true ∧ next.handshake = s.handshake ∧
    next.placed = s.placed ∧ next.typed = s.typed := by
  unfold Telnet.sendTerm at ran
  split at ran
  · rename_i sent
    cases Option.some.inj ran
    exact ⟨sent,rfl,rfl,rfl⟩
  · obtain ⟨⟨middle,ret⟩,wrote,ran⟩ := Option.bind_eq_some_iff.mp ran
    obtain ⟨sock,rfl,_⟩ := send_parts wrote
    cases Option.some.inj ran
    exact ⟨rfl,rfl,rfl,rfl⟩

theorem asks_some {chunk : List UInt8} (asks : asksTerm chunk) : chunk ≠ [] := by
  rintro rfl
  exact absurd asks.1 (by simp)

theorem arrival_positive (a : Arrival) (n : ℕ) : 0 < (a.result n).viaOs ↔ a.upTo n ≠ [] := by
  cases a with
  | data bytes =>
    rw [← List.length_pos_iff]
    exact Int.natCast_pos
  | failed e =>
    simp [Arrival.result,Arrival.upTo,SysResult.viaOs]

theorem relay_asked {s : Telnet} (ran : s.relay t = some next) : next.termSent = (s.termSent || asksTerm (t.arrived.upTo 1024)) ∧
    next.handshake = s.handshake ∧ next.placed = s.placed ∧ next.typed = s.typed := by
  obtain ⟨r,read,ran⟩ := Option.bind_eq_some_iff.mp ran
  have ret := readBuffer_ret read
  dsimp only at ran
  by_cases asks : asksTerm (t.arrived.upTo 1024)
  · have positive : 0 < r.ret := ret ▸ (arrival_positive _ _).mpr (asks_some asks)
    rw [if_pos positive,if_pos asks] at ran
    obtain ⟨sent,kept⟩ := sendTerm_sent ran
    exact ⟨by simp [sent,asks],kept⟩
  · rw [if_neg asks] at ran
    split at ran
    all_goals
      cases Option.some.inj ran
      exact ⟨by simp [asks],rfl,rfl,rfl⟩

theorem reading_set {s : Telnet} (set : FD_ISSET s.connNumber s.rfds = some ready) :
    s.reading t = if ready then if s.handshake < 4 then s.handshakeRead t else s.relay t else some s := by
  rw [Telnet.reading,set]
  rfl

theorem Follows.receives {chunk : List UInt8} (follows : Follows events s) (handshake : u.telnet.handshake = s.telnet.handshake)
    (typed : u.telnet.typed = s.telnet.typed) (received : u.received = s.received++[chunk])
    (placed : u.telnet.placed = ((sessionOf events).next (.received chunk)).placed)
    (asked : u.telnet.termSent = ((sessionOf events).next (.received chunk)).asked)
    (terminal : u.terminal = ((sessionOf events).next (.received chunk)).terminal) : Follows (events++[.received chunk]) u := by
  have count : ((sessionOf events).next (.received chunk)).accepted = (sessionOf events).accepted := by
    by_cases few : (sessionOf events).accepted < 4
    · rw [next_early few]
    · rw [next_late few]
  refine ⟨?_,?_,?_,?_,?_,?_⟩
  · rw [sessionOf_snoc,count,handshake,follows.handshake]
  · rw [sessionOf_snoc,placed]
  · rw [sessionOf_snoc,asked]
  · rw [sessionOf_snoc,terminal]
  · rw [List.filterMap_append,received,follows.received]
    rfl
  · rw [List.flatMap_append,typed,follows.typed]
    exact (List.append_nil _).symm

theorem follows_early (follows : Follows events s) (early : s.telnet.handshake < 4) (read : s.telnet.handshakeRead t = some telnet) :
    ∃ events', Follows events' (Console.take (t.arrived.upTo s.telnet.outBuf.length) {s with telnet := telnet}) := by
  have few : (sessionOf events).accepted < 4 := by
    have before := follows.handshake
    omega
  obtain ⟨sock,rfl⟩ := handshakeRead_parts read
  by_cases nothing : t.arrived.upTo s.telnet.outBuf.length = []
  · rw [Console.take,if_pos nothing]
    refine ⟨events,follows.same _ rfl ?_ rfl rfl⟩
    rw [nothing,List.append_nil]
  · rw [Console.take,if_neg nothing]
    refine ⟨_,follows.receives rfl rfl rfl ?_ ?_ ?_⟩
    · rw [next_early few,← follows.placed]
    · rw [next_early few]
      exact follows.asked
    · rw [next_early few]
      exact follows.terminal

theorem follows_late (follows : Follows events s) (late : ¬ s.telnet.handshake < 4) (read : s.telnet.relay t = some telnet)
    (ran : (Console.take (t.arrived.upTo 1024) {s with telnet := telnet}).relay (t.arrived.upTo 1024) = some next) :
    ∃ events', Follows events' next := by
  have many : ¬ (sessionOf events).accepted < 4 := by
    have before := follows.handshake
    omega
  obtain ⟨asked,handshake,placed,typed⟩ := relay_asked read
  by_cases nothing : t.arrived.upTo 1024 = []
  · rw [Console.relay,if_pos nothing,Console.take,if_pos nothing] at ran
    cases Option.some.inj ran
    refine ⟨events,follows.same _ handshake placed ?_ typed⟩
    have silent : ¬ asksTerm (t.arrived.upTo 1024) := fun asks => asks_some asks nothing
    simp [asked,silent]
  · rw [Console.relay,if_neg nothing,Console.take,if_neg nothing,relayed_drop (upTo_length _ _)] at ran
    cases Option.some.inj ran
    refine ⟨_,follows.receives handshake typed rfl ?_ ?_ ?_⟩
    · rw [next_late many]
      exact placed.trans follows.placed
    · rw [next_late many,← follows.asked]
      exact asked
    · rw [next_late many,← follows.terminal]

theorem follows_reading (follows : Follows events s) (ran : s.reading t = some next) : ∃ events', Follows events' next := by
  obtain ⟨ready,set,ran⟩ := Option.bind_eq_some_iff.mp ran
  obtain ⟨telnet,read,ran⟩ := Option.bind_eq_some_iff.mp ran
  rw [reading_set set] at read
  cases ready with
  | false =>
    cases Option.some.inj read
    cases Option.some.inj ran
    exact ⟨events,follows⟩
  | true =>
    simp only [if_true] at read ran
    by_cases early : s.telnet.handshake < 4
    · rw [if_pos early] at read ran
      cases Option.some.inj ran
      exact follows_early follows early read
    · rw [if_neg early] at read ran
      exact follows_late follows early read ran

theorem number_bytes (c : UInt8) : [AppendArgument.number (some (c.toNat : ℤ))].flatMap AppendArgument.bytes = [c] :=
  congrArg (fun n => [n]) (ToUint8_natural c)

theorem type_placed {s : Telnet} (ran : s.type memory chars = some next) : next.placed = s.placed++placedKeys chars ∧
    next.handshake = s.handshake ∧ next.termSent = s.termSent ∧ next.typed = s.typed := by
  induction s,chars using Telnet.type.induct with
  | case1 s =>
    cases Option.some.inj ran
    exact ⟨(List.append_nil _).symm,rfl,rfl,rfl⟩
  | case2 s rest => cases ran
  | case3 s rest ih =>
    obtain ⟨middle,appended,ran⟩ := Option.bind_eq_some_iff.mp ran
    obtain ⟨placed,handshake,asked,typed⟩ := ih middle ran
    obtain ⟨_,_,_,rfl⟩ := append_parts appended
    refine ⟨?_,handshake,asked,typed⟩
    rw [placed]
    exact List.append_assoc ..
  | case4 s c rest other plain ih =>
    rw [Telnet.type.eq_4 memory s c rest other plain] at ran
    obtain ⟨middle,appended,ran⟩ := Option.bind_eq_some_iff.mp ran
    obtain ⟨placed,handshake,asked,typed⟩ := ih middle ran
    obtain ⟨_,_,_,rfl⟩ := append_parts appended
    refine ⟨?_,handshake,asked,typed⟩
    rw [placed,placedKeys.eq_3 c rest plain,number_bytes]
    exact List.append_assoc ..

theorem keyboard_placed {s : Telnet} {chars : List UInt8} (ran : s.keyboard memory t = some next)
    (got : t.keyed.upTo (s.inBuf.length-s.inLen) = chars) : next.placed = s.placed++placedKeys chars ∧
      next.handshake = s.handshake ∧ next.termSent = s.termSent ∧ next.typed = s.typed++chars := by
  unfold Telnet.keyboard at ran
  simp only [got] at ran
  split at ran
  · rename_i nothing
    cases Option.some.inj ran
    rw [nothing]
    exact ⟨(List.append_nil _).symm,rfl,rfl,(List.append_nil _).symm⟩
  · exact type_placed ran

theorem follows_typing (follows : Follows events s) (ran : s.typing memory t = some next) : ∃ events', Follows events' next := by
  obtain ⟨ready,set,ran⟩ := Option.bind_eq_some_iff.mp ran
  obtain ⟨telnet,typed,ran⟩ := Option.bind_eq_some_iff.mp ran
  have part : s.telnet.typing memory t = if ready then s.telnet.keyboard memory t else some s.telnet := by
    rw [Telnet.typing,set]
    rfl
  rw [part] at typed
  cases ready with
  | false =>
    cases Option.some.inj typed
    simp only [Bool.false_eq_true,false_and,if_false] at ran
    cases Option.some.inj ran
    exact ⟨events,follows⟩
  | true =>
    obtain ⟨placed,handshake,asked,keys⟩ := keyboard_placed typed rfl
    by_cases nothing : t.keyed.upTo (s.telnet.inBuf.length-s.telnet.inLen) = []
    · simp only [nothing,ne_eq,not_true,and_false,if_false] at ran
      rw [nothing] at placed keys
      cases Option.some.inj ran
      exact ⟨events,follows.same _ handshake (placed.trans (List.append_nil _)) asked (keys.trans (List.append_nil _))⟩
    · simp only [ne_eq,nothing,not_false_iff,and_self,if_true] at ran
      cases Option.some.inj ran
      refine ⟨events++[.typed (t.keyed.upTo (s.telnet.inBuf.length-s.telnet.inLen))],?_,?_,?_,?_,?_,?_⟩
      · rw [sessionOf_snoc]
        exact handshake.trans follows.handshake
      · rw [sessionOf_snoc]
        exact placed.trans (congrArg (·++_) follows.placed)
      · rw [sessionOf_snoc]
        exact asked.trans follows.asked
      · rw [sessionOf_snoc]
        exact congrArg (·++_) follows.terminal
      · rw [List.filterMap_append]
        exact follows.received.trans (List.append_nil _).symm
      · rw [List.flatMap_append]
        exact keys.trans (congrArg₂ (·++·) follows.typed (List.append_nil _).symm)

theorem take_telnet (chunk : List UInt8) (s : Console) : (s.take chunk).telnet = s.telnet := by
  unfold Console.take
  split <;> rfl

theorem relay_telnet {chunk : List UInt8} (fits : chunk.length ≤ 1024) (s : Console) : (s.relay chunk).map Console.telnet = some s.telnet := by
  unfold Console.relay
  split
  · rfl
  · rw [relayed_drop fits]
    rfl

theorem reading_telnet (s : Console) (t : TelnetTurn) : (s.reading t).map Console.telnet = s.telnet.reading t := by
  unfold Console.reading
  cases set : FD_ISSET s.telnet.connNumber s.telnet.rfds with
  | none =>
    rw [Telnet.reading,set]
    rfl
  | some ready =>
    cases read : s.telnet.reading t with
    | none => rfl
    | some telnet =>
      simp only [Option.bind_eq_bind,Option.bind_some]
      split
      · split
        · exact congrArg some (take_telnet _ _)
        · rw [relay_telnet (upTo_length _ _),take_telnet]
      · rfl

theorem typing_telnet (s : Console) (t : TelnetTurn) : (s.typing memory t).map Console.telnet = s.telnet.typing memory t := by
  unfold Console.typing
  cases set : FD_ISSET STDIN_FILENO s.telnet.rfds with
  | none =>
    rw [Telnet.typing,set]
    rfl
  | some ready =>
    cases typed : s.telnet.typing memory t with
    | none => rfl
    | some telnet =>
      simp only [Option.bind_eq_bind,Option.bind_some]
      split <;> rfl

theorem iterate_telnet (s : Console) (t : TelnetTurn) :
    (s.iterate engine memory listening t).map Console.telnet = s.telnet.iterate engine memory listening t := by
  unfold Console.iterate Telnet.iterate Telnet.respond
  split
  · rfl
  · simp only [Option.bind_eq_bind,Option.map_bind,Function.comp_def]
    refine Option.bind_congr ?_
    intro sets _
    refine Option.bind_congr ?_
    intro a _
    refine Option.bind_congr ?_
    intro b _
    rw [← reading_telnet {s with telnet := b},Option.bind_map]
    refine Option.bind_congr ?_
    intro c _
    exact typing_telnet c t

theorem follows_iterate (follows : Follows events s) (ran : s.iterate engine memory listening t = some next) :
    ∃ events', Follows events' next := by
  unfold Console.iterate at ran
  split at ran
  · cases ran
  · obtain ⟨sets,_,ran⟩ := Option.bind_eq_some_iff.mp ran
    obtain ⟨a,writing,ran⟩ := Option.bind_eq_some_iff.mp ran
    obtain ⟨b,meeting,ran⟩ := Option.bind_eq_some_iff.mp ran
    obtain ⟨c,reading,typing⟩ := Option.bind_eq_some_iff.mp ran
    have polled : Follows events {s with telnet := s.telnet.polled t sets} := follows.same _ rfl rfl rfl rfl
    obtain ⟨_,written⟩ := follows_writing polled writing
    have met := follows_meeting written meeting
    obtain ⟨_,read⟩ := follows_reading met reading
    exact follows_typing read typing

end Parts

theorem telnet_console : TelnetRun engine memory listening sock turns u ↔
    ∃ s, ConsoleRun engine memory listening sock turns s ∧ s.telnet = u := by
  refine ⟨?_,?_⟩
  · rintro ⟨opened,run⟩
    induction run with
    | nil => exact ⟨_,⟨opened,.nil⟩,rfl⟩
    | snoc _ step ih =>
      obtain ⟨s,⟨_,before⟩,rfl⟩ := ih
      obtain ⟨shrinks,ran⟩ := step
      rw [← iterate_telnet] at ran
      obtain ⟨next,iterated,rfl⟩ := Option.map_eq_some_iff.mp ran
      exact ⟨next,⟨opened,.snoc before (.turn shrinks iterated)⟩,rfl⟩
  · rintro ⟨s,⟨opened,run⟩,rfl⟩
    refine ⟨opened,?_⟩
    induction run with
    | nil => exact .nil
    | snoc _ step ih =>
      obtain ⟨shrinks,ran⟩ := step
      refine .snoc ih (.turn shrinks ?_)
      rw [← iterate_telnet,ran]
      rfl

theorem console_follows (run : ConsoleRun engine memory listening sock turns s) : ∃ events, Follows events s := by
  obtain ⟨_,run⟩ := run
  induction run with
  | nil => exact ⟨[],follows_start sock⟩
  | snoc _ step ih =>
    obtain ⟨events,follows⟩ := ih
    obtain ⟨_,ran⟩ := step
    exact follows_iterate follows ran

-- Every run of the loop is a session, and what is shown of the peer is what was read
-- since the fourth accepted write, each read without its leading command.
theorem telnet_session (engine : List Char → JSNumber) (memory : List UInt8 → ℕ → UInt8) (listening : Bool) (sock : Socket)
    (turns : List TelnetTurn) :
    (∀ u, TelnetRun engine memory listening sock turns u ↔ ∃ s, ConsoleRun engine memory listening sock turns s ∧ s.telnet = u) ∧
    ∀ s, ConsoleRun engine memory listening sock turns s → ∃ events, Follows events s ∧
      ∃ early late, s.received = early++late ∧ (s.telnet.handshake < 4 → late = []) ∧
        s.terminal.filterMap TerminalWrite.received = late.map (fun chunk => chunk.drop (skipped chunk)) := by
  refine ⟨fun _ => telnet_console,?_⟩
  intro s run
  obtain ⟨events,follows⟩ := console_follows run
  obtain ⟨early,late,chunks,shown,few⟩ := session_split events
  refine ⟨events,follows,early,late,follows.received.trans chunks,?_,?_⟩
  · intro shaking
    apply few
    have handshake := follows.handshake
    omega
  · rw [follows.terminal,shown]

theorem console_turns {turns : List TelnetTurn} (removes : ∀ t ∈ turns, ∀ rfds wfds,
    Shrinks (t.select rfds wfds).1 rfds ∧ Shrinks (t.select rfds wfds).2 wfds)
    (ran : turns.foldlM (fun s t => Console.iterate engine memory listening t s) s = some next) :
    Runs (ConsoleStep engine memory listening) s turns next := by
  induction turns generalizing s with
  | nil =>
    cases ran
    exact .nil
  | cons t rest ih =>
    obtain ⟨middle,first,later⟩ := Option.bind_eq_some_iff.mp ran
    have step : ConsoleStep engine memory listening s t middle := .turn (fun sets _ => removes t List.mem_cons_self sets.1 sets.2) first
    exact Runs.append (.snoc .nil step) (ih (fun u member => removes u (List.mem_cons_of_mem _ member)) later)

def shownTurns : List TelnetTurn :=
  [readyTurn [1,2] [],writeTurn 2,writeTurn 4,readyTurn [3] [],writeTurn 1,readyTurn [4] [],writeTurn 1,
   readyTurn [0xff,0xfe,1,0x68,0x69] []]

theorem telnet_session_shown : ∃ s events, TelnetRun (fun _ => none) (fun _ _ => 0) false clientSocket shownTurns s.telnet ∧
    Follows events s ∧ s.received = [[1,2],[3],[4],[0xff,0xfe,1,0x68,0x69]] ∧ s.terminal.flatMap TerminalWrite.bytes = [0x1b,0x5b,0x3f,0x32,0x35,0x6c,0x68,0x69] ∧
    ∃ early late, s.received = early++late ∧ late.map (fun chunk => chunk.drop (skipped chunk)) = [[0x68,0x69]] := by
  have ran : (shownTurns.foldlM (fun s t => Console.iterate (fun _ => none) (fun _ _ => 0) false t s) ⟨.start clientSocket,[],[]⟩).map
      (fun s => (s.received,s.terminal.flatMap TerminalWrite.bytes,s.terminal.filterMap TerminalWrite.received)) =
      some ([[1,2],[3],[4],[0xff,0xfe,1,0x68,0x69]],[0x1b,0x5b,0x3f,0x32,0x35,0x6c,0x68,0x69],[[0x68,0x69]]) := by decide +kernel
  obtain ⟨s,turned,same⟩ := Option.map_eq_some_iff.mp ran
  obtain ⟨received,rest⟩ := Prod.mk.inj same
  obtain ⟨shown,data⟩ := Prod.mk.inj rest
  have removes : ∀ t ∈ shownTurns, ∀ rfds wfds, Shrinks (t.select rfds wfds).1 rfds ∧ Shrinks (t.select rfds wfds).2 wfds := by
    simp only [shownTurns,List.forall_mem_cons,readyTurn,writeTurn,shrinks_refl,shrinks_new,implies_true,and_true,
      List.not_mem_nil,false_implies]
  have run : ConsoleRun (fun _ => none) (fun _ _ => 0) false clientSocket shownTurns s :=
    ⟨(client_start (fun _ _ => 0)).opened,console_turns removes turned⟩
  obtain ⟨refines,sessions⟩ := telnet_session (fun _ => none) (fun _ _ => 0) false clientSocket shownTurns
  obtain ⟨events,follows,early,late,split,_,drawn⟩ := sessions s run
  exact ⟨s,events,(refines _).mpr ⟨s,run,rfl⟩,follows,received,shown,early,late,split,drawn ▸ data⟩

end QjsFfi
