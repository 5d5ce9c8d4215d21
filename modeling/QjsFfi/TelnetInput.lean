import QjsFfi.TelnetOutput

namespace QjsFfi
open Buffers Histories

structure KeyboardInput where
  inLen : ℕ
  inBuf : List UInt8
  typed : List UInt8
  keyReads : List (ℕ × ℕ)

def Telnet.input (s : Telnet) : KeyboardInput := ⟨s.inLen,s.inBuf,s.typed,s.keyReads⟩

-- inBuf fills with all that has ever been typed, and each read from stdin asks
-- for what is left of its 128 bytes.
structure Filling (i : KeyboardInput) : Prop where
  size : i.inBuf.length = 128
  filled : i.inLen = i.typed.length
  room : i.inLen ≤ 128
  reads : ∀ r ∈ i.keyReads, r.2 = 128-r.1

theorem append_input {s : Telnet} (ran : s.append memory chars = some next) : next.input = s.input := by
  obtain ⟨_,_,_,rfl⟩ := append_parts ran
  rfl

theorem advance_input (s : Telnet) : s.advance.input = s.input := by
  unfold Telnet.advance
  split <;> rfl

theorem flush_input {s : Telnet} (ran : s.flush memory t = some next) : next.input = s.input := by
  rcases flush_cases ran with rfl | ⟨_,_,_,rfl⟩ | ⟨_,_,sock,greeted,greeting,rfl⟩
  · rfl
  · rfl
  · rw [advance_input]
    rcases greet_cases greeting with rfl | appended
    · rfl
    · have same := append_input appended
      exact same

theorem relay_input {s : Telnet} (ran : s.relay t = some next) : next.input = s.input := by
  obtain ⟨sock,⟨_,answered⟩ | ⟨_,rfl⟩⟩ := relay_cases ran
  · rcases sendTerm_cases answered with rfl | ⟨_,_,rfl⟩ <;> rfl
  · rfl

theorem writing_input {s : Telnet} (ran : s.writing memory t = some next) : next.input = s.input := by
  rcases writing_cases ran with rfl | ⟨_,flushed⟩
  · rfl
  · exact flush_input flushed

theorem meeting_input {s : Telnet} (ran : s.meeting engine listening t = some next) : next.input = s.input := by
  obtain ⟨_,_,rfl⟩ := meeting_parts ran
  rfl

theorem reading_input {s : Telnet} (ran : s.reading t = some next) : next.input = s.input := by
  rcases reading_cases ran with rfl | ⟨_,⟨_,read⟩ | ⟨_,relayed⟩⟩
  · rfl
  · obtain ⟨_,rfl⟩ := handshakeRead_parts read
    rfl
  · exact relay_input relayed

theorem keyboard_filling {s : Telnet} (filling : Filling s.input) (ran : s.keyboard memory t = some next) : Filling next.input := by
  obtain ⟨size,filled,room,reads⟩ := filling
  have fits := upTo_length t.keyed (s.inBuf.length-s.inLen)
  dsimp only [Telnet.input] at size filled room reads
  have offered : ∀ r ∈ s.keyReads++[(s.typed.length,s.inBuf.length-s.inLen)], r.2 = 128-r.1 := by
    intro r member
    rcases List.mem_append.mp member with old | new
    · exact reads r old
    · rw [List.mem_singleton.mp new,size,filled]
  rcases keyboard_cases ran rfl with rfl | typed
  · exact ⟨size,filled,room,offered⟩
  · refine type_keeps (fun u => Filling u.input) ?_ ?_ typed
    · intro u chars v before appended
      exact append_input appended ▸ before
    · refine ⟨?_,?_,?_,offered⟩
      · show (patch s.inBuf s.inLen _).length = 128
        rw [patch_length (by omega),size]
      · show s.inLen+_ = (s.typed++_).length
        rw [List.length_append,filled]
      · show s.inLen+_ ≤ 128
        omega

theorem iterate_filling {s : Telnet} (filling : Filling s.input) (ran : s.iterate engine memory listening t = some next) :
    Filling next.input := by
  obtain ⟨_,sets,a,b,c,_,writing,meeting,reading,typing⟩ := iterate_parts ran
  have same : c.input = s.input := (reading_input reading).trans ((meeting_input meeting).trans ((writing_input writing).trans rfl))
  have before : Filling c.input := same ▸ filling
  rcases typing_cases typing with rfl | typed
  · exact before
  · exact keyboard_filling before typed

theorem telnet_filling (run : TelnetRun engine memory listening sock turns s) : Filling s.input := by
  obtain ⟨_,run⟩ := run
  induction run with
  | nil => exact ⟨List.length_replicate,rfl,Nat.zero_le _,fun _ member => by cases member⟩
  | snoc _ step ih =>
    obtain ⟨_,ran⟩ := step
    exact iterate_filling ih ran

theorem watch_stdin {s : Telnet} (connecting : s.sock.connecting = false) (idle : s.outLen = 0) (room : s.inLen < s.inBuf.length)
    (watched : s.watch = some sets) : FD_ISSET STDIN_FILENO sets.1 = some true := by
  have quiet : ¬(s.sock.connecting = true ∨ s.outLen ≠ 0) := by simp [connecting,idle]
  obtain ⟨wfds,_,watched⟩ := Option.bind_eq_some_iff.mp watched
  obtain ⟨rfds,_,watched⟩ := Option.bind_eq_some_iff.mp watched
  rw [if_neg quiet,if_pos room] at watched
  obtain ⟨ready,set,rfl⟩ := Option.map_eq_some_iff.mp watched
  exact FD_SET_member (show 0 < FD_SETSIZE by simp [FD_SETSIZE]) set

structure Telnet.Idle (s : Telnet) : Prop where
  connecting : s.sock.connecting = false
  alive : s.sock.destroyed = false
  empty : s.outLen = 0

structure KeyboardFlows (engine : List Char → JSNumber) (memory : List UInt8 → ℕ → UInt8) (listening : Bool) (sock : Socket)
    (turns : List TelnetTurn) (s : Telnet) : Prop where
  watched : ∀ before u, before <+: turns → TelnetRun engine memory listening sock before u → u.Idle →
    u.inLen < u.inBuf.length ∧ ∀ sets, u.watch = some sets → FD_ISSET STDIN_FILENO sets.1 = some true
  offered : ∀ r ∈ s.keyReads, 0 < r.2

-- inLen is never reset: keyboard input flows as long as fewer than 128 bytes have
-- been typed, and no longer.
theorem keyboard_flows (run : TelnetRun engine memory listening sock turns s) :
    KeyboardFlows engine memory listening sock turns s ↔
      (∀ before u, before <+: turns → TelnetRun engine memory listening sock before u → u.Idle → u.typed.length < 128) ∧
        ∀ r ∈ s.keyReads, r.1 < 128 := by
  have reads := (telnet_filling run).reads
  constructor
  · intro flows
    refine ⟨?_,?_⟩
    · intro before u early path idle
      obtain ⟨size,filled,_,_⟩ := telnet_filling path
      have room := (flows.watched before u early path idle).1
      dsimp only [Telnet.input] at size filled
      omega
    · intro r member
      have asked := flows.offered r member
      have left := reads r member
      omega
  · intro ⟨few,early⟩
    refine ⟨?_,?_⟩
    · intro before u start path idle
      obtain ⟨size,filled,_,_⟩ := telnet_filling path
      have typed := few before u start path idle
      dsimp only [Telnet.input] at size filled
      have room : u.inLen < u.inBuf.length := by omega
      exact ⟨room,fun sets watched => watch_stdin idle.connecting idle.empty room watched⟩
    · intro r member
      have left := reads r member
      have before := early r member
      omega

theorem keyboard_flows_typed : ∃ s, TelnetRun (fun _ => none) (fun _ _ => 0) false clientSocket
      [readyTurn [1] [0x61],writeTurn 2,writeTurn 4] s ∧ s.Idle ∧ s.keyReads = [(0,128)] ∧
    KeyboardFlows (fun _ => none) (fun _ _ => 0) false clientSocket [readyTurn [1] [0x61],writeTurn 2,writeTurn 4] s := by
  have ran : (((Telnet.start clientSocket).iterate (fun _ => none) (fun _ _ => 0) false (readyTurn [1] [0x61])).bind
      (fun s => (s.iterate (fun _ => none) (fun _ _ => 0) false (writeTurn 2)).bind
      (fun t => (t.iterate (fun _ => none) (fun _ _ => 0) false (writeTurn 4)).map
      (fun u => ((s.typed.length,t.typed.length,u.typed.length),(u.sock.connecting,u.sock.destroyed),u.outLen,u.keyReads))))) =
      some ((1,1,1),(false,false),0,[(0,128)]) := by decide +kernel
  obtain ⟨a,first,rest⟩ := Option.bind_eq_some_iff.mp ran
  obtain ⟨b,second,last⟩ := Option.bind_eq_some_iff.mp rest
  obtain ⟨c,third,same⟩ := Option.map_eq_some_iff.mp last
  simp only [Prod.mk.injEq] at same
  obtain ⟨⟨one,two,three⟩,⟨connecting,alive⟩,empty,reads⟩ := same
  have start := client_start (fun _ _ => 0)
  have early := start.snoc (ready_step first)
  have later := early.snoc (write_step second)
  have run := later.snoc (write_step third)
  refine ⟨c,run,⟨connecting,alive,empty⟩,reads,(keyboard_flows run).mpr ⟨?_,?_⟩⟩
  · intro before u within path _
    rcases List.prefix_cons_iff.mp within with rfl | ⟨_,rfl,after⟩
    · rw [path.unique start]
      exact Nat.zero_lt_succ _
    rcases List.prefix_cons_iff.mp after with rfl | ⟨_,rfl,beyond⟩
    · rw [path.unique early]
      omega
    rcases List.prefix_cons_iff.mp beyond with rfl | ⟨_,rfl,rest⟩
    · rw [path.unique later]
      omega
    rw [List.prefix_nil.mp rest] at path
    rw [path.unique run]
    omega
  · rw [reads]
    simp

-- 128 keys in one read; when all of the output is written stdin is watched no more.
theorem keys_lost : ∃ s, TelnetRun (fun _ => none) (fun _ _ => 0) false clientSocket
      [readyTurn [1] (List.replicate 128 0x61),writeTurn 129,writeTurn 4] s ∧
    s.Idle ∧ s.inLen = 128 ∧ s.inBuf.length = 128 ∧
    ¬KeyboardFlows (fun _ => none) (fun _ _ => 0) false clientSocket
      [readyTurn [1] (List.replicate 128 0x61),writeTurn 129,writeTurn 4] s := by
  have ran : (((Telnet.start clientSocket).iterate (fun _ => none) (fun _ _ => 0) false (readyTurn [1] (List.replicate 128 0x61))).bind
      (fun s => (s.iterate (fun _ => none) (fun _ _ => 0) false (writeTurn 129)).bind
      (fun s => s.iterate (fun _ => none) (fun _ _ => 0) false (writeTurn 4)))).map
      (fun s => (s.sock.connecting,s.sock.destroyed,s.outLen,s.inLen,s.inBuf.length)) = some (false,false,0,128,128) := by decide +kernel
  obtain ⟨s,all,same⟩ := Option.map_eq_some_iff.mp ran
  obtain ⟨a,first,rest⟩ := Option.bind_eq_some_iff.mp all
  obtain ⟨b,second,third⟩ := Option.bind_eq_some_iff.mp rest
  simp only [Prod.mk.injEq] at same
  obtain ⟨connecting,destroyed,empty,full,size⟩ := same
  have run := (((client_start (fun _ _ => 0)).snoc (ready_step first)).snoc (write_step second)).snoc (write_step third)
  refine ⟨s,run,⟨connecting,destroyed,empty⟩,full,size,?_⟩
  intro flows
  have room := (flows.watched _ s (List.prefix_refl _) run ⟨connecting,destroyed,empty⟩).1
  omega

end QjsFfi
