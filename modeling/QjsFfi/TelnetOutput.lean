import QjsFfi.TelnetLoop

namespace QjsFfi
open Buffers Histories

-- What has been sent and what is pending is what has been placed, in order.
structure Intact (s : Telnet) : Prop where
  bounds : 0 ≤ s.outLen ∧ s.outLen ≤ s.outBuf.length
  stream : s.sent++s.outBuf.take s.outLen.toNat = s.placed

def Telnet.WritesWhole (t : TelnetTurn) (s : Telnet) : Prop :=
  0 < s.outLen → t.written.upTo s.outLen.toNat = 0 ∨ t.written.upTo s.outLen.toNat = s.outLen.toNat

def Telnet.TermQuiet (t : TelnetTurn) (s : Telnet) : Prop := s.termSent = true ∨ t.termWritten.upTo termReply.length = 0

-- A handshake read finds nothing pending and does not fail; after the handshake
-- a read that asks for the terminal's name gets none of it.
def Telnet.ReadsCleanly (t : TelnetTurn) (s : Telnet) : Prop :=
  (s.handshake < 4 → s.outLen = 0 ∧ ∃ bytes, t.arrived = .data bytes) ∧
    (4 ≤ s.handshake → asksTerm (t.arrived.upTo 1024) → s.TermQuiet t)

structure Telnet.Keeps (engine : List Char → JSNumber) (memory : List UInt8 → ℕ → UInt8) (listening : Bool) (t : TelnetTurn)
    (s : Telnet) : Prop where
  whole : ∀ sets, s.watch = some sets → FD_ISSET s.sock.fd (s.polled t sets).wfds = some true → s.WritesWhole t
  clean : ∀ sets a b, s.watch = some sets → (s.polled t sets).writing memory t = some a → a.meeting engine listening t = some b →
    FD_ISSET b.connNumber b.rfds = some true → b.ReadsCleanly t

theorem start_intact (sock : Socket) : Intact (.start sock) := ⟨⟨Int.le_refl 0,Int.natCast_nonneg _⟩,rfl⟩

theorem append_intact {s : Telnet} (intact : Intact s) (ran : s.append memory chars = some next) : Intact next := by
  obtain ⟨lower,upper⟩ := intact.bounds
  obtain ⟨outBuf,outLen,appended,rfl⟩ := append_parts ran
  have filled : s.outLen.toNat ≤ s.outBuf.length := by omega
  obtain ⟨expected,given,_,bound,taken⟩ := Append_gives memory filled chars
  rw [Int.toNat_of_nonneg lower,appended] at given
  obtain ⟨rfl,rfl⟩ := Prod.mk.inj (Option.some.inj given)
  refine ⟨⟨Int.natCast_nonneg _,Int.ofNat_le.mpr bound⟩,?_⟩
  show s.sent++outBuf.take _ = s.placed++_
  rw [Int.toNat_natCast,taken,← List.append_assoc,intact.stream]

theorem greet_intact {s : Telnet} (intact : Intact s) (ran : s.greet memory = some next) : Intact next := by
  rcases greet_cases ran with rfl | appended
  · exact intact
  · exact append_intact intact appended

theorem advance_intact {s : Telnet} (intact : Intact s) : Intact s.advance := by
  unfold Telnet.advance
  split
  · exact ⟨intact.bounds,intact.stream⟩
  · exact intact

theorem flush_intact {s : Telnet} (intact : Intact s) (whole : s.WritesWhole t) (ran : s.flush memory t = some next) : Intact next := by
  rcases flush_cases ran with rfl | ⟨_,_,sock,rfl⟩ | ⟨pending,took,sock,greeted,greeting,rfl⟩
  · exact ⟨intact.bounds,intact.stream⟩
  · exact ⟨intact.bounds,intact.stream⟩
  · have all : t.written.upTo s.outLen.toNat = s.outLen.toNat := (whole pending).resolve_left (Nat.ne_of_gt took)
    refine advance_intact (greet_intact ⟨⟨Int.le_refl 0,Int.natCast_nonneg _⟩,?_⟩ greeting)
    simpa [all] using intact.stream

theorem handshakeRead_intact {s : Telnet} (intact : Intact s) (clean : s.outLen = 0) (arrived : t.arrived = .data bytes)
    (ran : s.handshakeRead t = some next) : Intact next := by
  obtain ⟨sock,rfl⟩ := handshakeRead_parts ran
  have fits := upTo_length t.arrived s.outBuf.length
  have got : (t.arrived.result s.outBuf.length).viaOs = (t.arrived.upTo s.outBuf.length).length := by
    rw [arrived]
    rfl
  have front := take_patch (Nat.zero_le s.outBuf.length) (t.arrived.upTo s.outBuf.length)
  have stream := intact.stream
  rw [clean,Int.toNat_zero,List.take_zero,List.append_nil] at stream
  rw [Nat.zero_add,List.take_zero,List.nil_append] at front
  refine ⟨⟨?_,?_⟩,?_⟩
  · show 0 ≤ (t.arrived.result s.outBuf.length).viaOs
    omega
  · show (t.arrived.result s.outBuf.length).viaOs ≤ ((patch s.outBuf 0 (t.arrived.upTo s.outBuf.length)).length : ℕ)
    rw [patch_length (by omega),got]
    exact Int.ofNat_le.mpr fits
  · show s.sent++(patch s.outBuf 0 (t.arrived.upTo s.outBuf.length)).take (t.arrived.result s.outBuf.length).viaOs.toNat = s.placed++_
    rw [got,Int.toNat_natCast,front,stream]

theorem sendTerm_intact {s : Telnet} (intact : Intact s) (quiet : s.TermQuiet t) (ran : s.sendTerm t = some next) : Intact next := by
  rcases sendTerm_cases ran with rfl | ⟨first,sock,rfl⟩
  · exact intact
  · have nothing : t.termWritten.upTo termReply.length = 0 := quiet.resolve_left (by simp [first])
    refine ⟨intact.bounds,?_⟩
    simpa [nothing] using intact.stream

theorem relay_intact {s : Telnet} (intact : Intact s) (quiet : asksTerm (t.arrived.upTo 1024) → s.TermQuiet t)
    (ran : s.relay t = some next) : Intact next := by
  obtain ⟨sock,⟨asks,answered⟩ | ⟨conn,rfl⟩⟩ := relay_cases ran
  · have silent : Telnet.TermQuiet t {s with sock := sock} := quiet asks
    refine sendTerm_intact ?_ silent answered
    exact ⟨intact.bounds,intact.stream⟩
  · exact ⟨intact.bounds,intact.stream⟩

theorem keyboard_intact {s : Telnet} (intact : Intact s) (ran : s.keyboard memory t = some next) : Intact next := by
  rcases keyboard_cases ran rfl with rfl | typed
  · exact ⟨intact.bounds,intact.stream⟩
  · refine type_keeps Intact (fun _ _ _ => append_intact) ?_ typed
    exact ⟨intact.bounds,intact.stream⟩

theorem writing_intact {s : Telnet} (intact : Intact s) (whole : FD_ISSET s.sock.fd s.wfds = some true → s.WritesWhole t)
    (ran : s.writing memory t = some next) : Intact next := by
  rcases writing_cases ran with rfl | ⟨ready,flushed⟩
  · exact intact
  · exact flush_intact intact (whole ready) flushed

theorem meeting_intact {s : Telnet} (intact : Intact s) (ran : s.meeting engine listening t = some next) : Intact next := by
  obtain ⟨sock,conn,rfl⟩ := meeting_parts ran
  exact ⟨intact.bounds,intact.stream⟩

theorem reading_intact {s : Telnet} (intact : Intact s) (clean : FD_ISSET s.connNumber s.rfds = some true → s.ReadsCleanly t)
    (ran : s.reading t = some next) : Intact next := by
  rcases reading_cases ran with rfl | ⟨ready,⟨early,read⟩ | ⟨late,relayed⟩⟩
  · exact intact
  · obtain ⟨nothing,bytes,arrived⟩ := (clean ready).1 early
    exact handshakeRead_intact intact nothing arrived read
  · exact relay_intact intact ((clean ready).2 late) relayed

theorem typing_intact {s : Telnet} (intact : Intact s) (ran : s.typing memory t = some next) : Intact next := by
  rcases typing_cases ran with rfl | typed
  · exact intact
  · exact keyboard_intact intact typed

theorem telnet_step_intact (intact : Intact s) (keeps : s.Keeps engine memory listening t)
    (step : TelnetStep engine memory listening s t next) : Intact next := by
  obtain ⟨_,ran⟩ := step
  obtain ⟨_,sets,a,b,c,watched,writing,meeting,reading,typing⟩ := iterate_parts ran
  have polled : Intact (s.polled t sets) := ⟨intact.bounds,intact.stream⟩
  have written := writing_intact polled (keeps.whole _ watched) writing
  have met := meeting_intact written meeting
  have read := reading_intact met (keeps.clean _ a b watched writing meeting) reading
  exact typing_intact read typing

def AllKeep (engine : List Char → JSNumber) (memory : List UInt8 → ℕ → UInt8) (listening : Bool) (sock : Socket)
    (turns : List TelnetTurn) : Prop :=
  ∀ before t after s, turns = before++t :: after → TelnetRun engine memory listening sock before s → s.Keeps engine memory listening t

-- At every loop head of such a run no outgoing byte is lost or duplicated.
theorem output_stream (run : TelnetRun engine memory listening sock turns s) (keep : AllKeep engine memory listening sock turns) :
    s.sent++s.outBuf.take s.outLen.toNat = s.placed ∧ 0 ≤ s.outLen ∧ s.outLen ≤ s.outBuf.length := by
  obtain ⟨opened,run⟩ := run
  have intact : Intact s := by
    induction run with
    | nil => exact start_intact sock
    | snoc prior step ih =>
      have before := ih (fun b t a u split => keep b t (a++[_]) u (by rw [split,List.append_assoc]; rfl))
      exact telnet_step_intact before (keep _ _ [] _ rfl ⟨opened,prior⟩) step
  exact ⟨intact.stream,intact.bounds⟩

def clientSocket : Socket := .new (fun _ => none) 0 (.ok 3)

def readyTurn (arrived keyed : List UInt8) : TelnetTurn :=
  ⟨Prod.mk,.failed 11,.failed 11,.data arrived,.failed 11,.data keyed⟩

def writeTurn (k : ℕ) : TelnetTurn := ⟨fun _ wfds => (.new,wfds),.taken k,.failed 11,.failed 11,.failed 11,.failed 11⟩

theorem client_start (memory : List UInt8 → ℕ → UInt8) : TelnetRun (fun _ => none) memory false clientSocket [] (.start clientSocket) := by
  obtain ⟨calls,opened⟩ : ∃ calls, clientSocket.connect (fun _ => none) none none (.ok 0) = some ⟨clientSocket,calls,0,none⟩ := ⟨_,rfl⟩
  exact ⟨.connected opened,.nil⟩

theorem ready_step {s next : Telnet} (ran : s.iterate engine memory listening (readyTurn arrived keyed) = some next) :
    TelnetStep engine memory listening s (readyTurn arrived keyed) next :=
  .turn (fun _ _ => ⟨shrinks_refl _,shrinks_refl _⟩) ran

theorem write_step {s next : Telnet} (ran : s.iterate engine memory listening (writeTurn k) = some next) :
    TelnetStep engine memory listening s (writeTurn k) next :=
  .turn (fun _ _ => ⟨shrinks_new _,shrinks_refl _⟩) ran

theorem writing_idle {s : Telnet} (idle : s.outLen = 0) (ran : s.writing memory t = some next) :
    next.outLen = 0 ∧ next.handshake = s.handshake := by
  rcases writing_cases ran with rfl | ⟨_,flushed⟩
  · exact ⟨idle,rfl⟩
  · rcases flush_cases flushed with rfl | ⟨pending,_⟩ | ⟨pending,_⟩
    · exact ⟨idle,rfl⟩
    · omega
    · omega

theorem start_keeps (arrived keyed : List UInt8) : (Telnet.start sock).Keeps engine memory listening (readyTurn arrived keyed) := by
  refine ⟨?_,?_⟩
  · intro sets _ _ pending
    cases pending
  · intro sets a b _ writing meeting _
    obtain ⟨empty,early⟩ := writing_idle rfl writing
    obtain ⟨_,_,rfl⟩ := meeting_parts meeting
    refine ⟨fun _ => ⟨empty,arrived,rfl⟩,?_⟩
    intro late _
    dsimp only at late
    rw [early] at late
    cases late

theorem write_keeps {s : Telnet} {k : ℕ} (all : s.outLen = k)
    (unread : (s.watch.bind (fun sets => ((s.polled (writeTurn k) sets).writing memory (writeTurn k)).bind (fun a =>
      (a.meeting engine listening (writeTurn k)).map (fun b => FD_ISSET b.connNumber b.rfds)))) = some (some false)) :
    s.Keeps engine memory listening (writeTurn k) := by
  refine ⟨?_,?_⟩
  · intro _ _ _ _
    simp [writeTurn,Acceptance.upTo,all]
  · intro sets a b watched writing meeting set
    rw [watched,Option.bind_some,writing,Option.bind_some,meeting,Option.map_some,set] at unread
    cases unread

theorem output_stream_typed : ∃ s, TelnetRun (fun _ => none) (fun _ _ => 0) false clientSocket [readyTurn [1,2] [0x61],writeTurn 3] s ∧
    s.sent = [1,2,0x61] ∧ s.sent++s.outBuf.take s.outLen.toNat = [1,2,0x61,0x1b,0x5b,0x32,0x4a] := by
  have ran : (((Telnet.start clientSocket).iterate (fun _ => none) (fun _ _ => 0) false (readyTurn [1,2] [0x61])).bind
      (fun s => (s.iterate (fun _ => none) (fun _ _ => 0) false (writeTurn 3)).map (fun next => (s.outLen,
        s.watch.bind (fun sets => ((s.polled (writeTurn 3) sets).writing (fun _ _ => 0) (writeTurn 3)).bind (fun a =>
          (a.meeting (fun _ => none) false (writeTurn 3)).map (fun b => FD_ISSET b.connNumber b.rfds))),next.sent,next.placed)))) =
      some (3,some (some false),[1,2,0x61],[1,2,0x61,0x1b,0x5b,0x32,0x4a]) := by decide +kernel
  obtain ⟨middle,first,rest⟩ := Option.bind_eq_some_iff.mp ran
  obtain ⟨s,second,same⟩ := Option.map_eq_some_iff.mp rest
  simp only [Prod.mk.injEq] at same
  obtain ⟨pending,unread,sent,placed⟩ := same
  have started := (client_start (fun _ _ => 0)).snoc (ready_step first)
  have keep : AllKeep (fun _ => none) (fun _ _ => 0) false clientSocket [readyTurn [1,2] [0x61],writeTurn 3] := by
    intro before t after u split prior
    match before with
    | [] =>
      obtain ⟨rfl,_⟩ := List.cons.inj split
      rw [prior.unique (client_start _)]
      exact start_keeps [1,2] [0x61]
    | [x] =>
      simp only [List.cons_append,List.nil_append,List.cons.injEq] at split
      obtain ⟨rfl,rfl,_⟩ := split
      rw [prior.unique started]
      exact write_keeps pending unread
    | x :: y :: later => simp at split
  have run := started.snoc (write_step second)
  exact ⟨s,run,sent,placed ▸ (output_stream run keep).1⟩

-- Of the two bytes that arrive one is written: the other is lost.
theorem output_lost : ∃ s, TelnetRun (fun _ => none) (fun _ _ => 0) false clientSocket [readyTurn [1,2] [],writeTurn 1] s ∧
    s.sent = [1] ∧ s.outBuf.take s.outLen.toNat = [0x1b,0x5b,0x32,0x4a] ∧ s.placed = [1,2,0x1b,0x5b,0x32,0x4a] ∧
    s.sent++s.outBuf.take s.outLen.toNat ≠ s.placed := by
  have ran : (((Telnet.start clientSocket).iterate (fun _ => none) (fun _ _ => 0) false (readyTurn [1,2] [])).bind
      (fun s => s.iterate (fun _ => none) (fun _ _ => 0) false (writeTurn 1))).map
      (fun s => (s.sent,s.outBuf.take s.outLen.toNat,s.placed)) =
      some ([1],[0x1b,0x5b,0x32,0x4a],[1,2,0x1b,0x5b,0x32,0x4a]) := by decide +kernel
  obtain ⟨s,both,same⟩ := Option.map_eq_some_iff.mp ran
  obtain ⟨middle,first,second⟩ := Option.bind_eq_some_iff.mp both
  obtain ⟨sent,rest⟩ := Prod.mk.inj same
  obtain ⟨pending,placed⟩ := Prod.mk.inj rest
  have run := ((client_start (fun _ _ => 0)).snoc (ready_step first)).snoc (write_step second)
  refine ⟨s,run,sent,pending,placed,?_⟩
  rw [sent,pending,placed]
  simp

end QjsFfi
