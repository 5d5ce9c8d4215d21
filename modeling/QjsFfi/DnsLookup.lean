import QjsFfi.DnsQuery
import QjsFfi.DescriptorSets
import QjsFfi.Histories

namespace QjsFfi
open Buffers DnsMessages Histories

-- One iteration of the loop of lookup as the system answers it: what select
-- makes of the two sets, the result of sendto, and the datagram recvfrom
-- takes, if it does not fail.
structure LookupTurn where
  select : fd_set → fd_set → fd_set × fd_set
  sendto : ℤ
  arrived : Option (List UInt8)

-- The locals of lookup, with the datagrams handed to sendto and those taken by
-- recvfrom; answer is what lookup has returned.
structure Lookup where
  outLen : ℕ
  rfds : fd_set
  wfds : fd_set
  sent : List (List UInt8)
  received : List (List UInt8)
  answer : Option (List Char)

def Lookup.start (outLen : ℕ) : Lookup := ⟨outLen,.new,.new,[],[],none⟩

-- The read and write sets that select is given; none is a RangeError.
def Lookup.watch (sock : JSNumber) (s : Lookup) : Option (fd_set × fd_set) := do
  let rfds := FD_ZERO .theSet .undefined s.rfds
  let wfds := FD_ZERO .theSet .undefined s.wfds
  let wfds ← FD_CLR sock wfds
  let rfds ← FD_SET sock rfds
  if s.outLen ≠ 0 then (FD_SET sock wfds).map (rfds,·) else (FD_SET sock rfds).map (·,wfds)

def Lookup.send (outBuf : List UInt8) (result : ℤ) (s : Lookup) : Lookup :=
  if 0 < s.outLen then
    {s with sent := s.sent++[outBuf.take s.outLen],outLen := if 0 < result then 0 else s.outLen}
  else s

-- u8.slice(-n)
def sliceLast (n : ℕ) (u8 : List UInt8) : List UInt8 := u8.drop (u8.length-n)

-- recvfrom fills the 1024 bytes of data and drops the rest of a datagram.
def Lookup.receive (arrived : Option (List UInt8)) (s : Lookup) : Lookup :=
  match arrived with
  | none => s
  | some datagram =>
    let data := patch (List.replicate 1024 0) 0 (datagram.take 1024)
    let length := (datagram.take 1024).length
    let s := {s with received := s.received++[datagram]}
    if 0 < length then {s with answer := some (dotted (sliceLast 4 (data.take length)))} else s

def Lookup.turn (sock : JSNumber) (outBuf : List UInt8) (t : LookupTurn) (s : Lookup) : Option Lookup := do
  let (rfds,wfds) ← s.watch sock
  let (rfds,wfds) := t.select rfds wfds
  let s := {s with rfds := rfds,wfds := wfds}
  let writable ← FD_ISSET sock wfds
  let s := if writable then s.send outBuf t.sendto else s
  let readable ← FD_ISSET sock rfds
  pure (if readable then s.receive t.arrived else s)

inductive LookupStep (sock : JSNumber) (outBuf : List UInt8) (s : Lookup) (t : LookupTurn) (next : Lookup) : Prop where
  | turn : s.answer = none → s.turn sock outBuf t = some next → LookupStep sock outBuf s t next

inductive LookupRun (domain : JSText) (sock : JSNumber) (turns : List LookupTurn) (s : Lookup) : Prop where
  | run : buildQuery domain = some (outBuf,outLen) → Runs (LookupStep sock outBuf) (.start outLen) turns s →
      LookupRun domain sock turns s

structure LookupKept (outBuf : List UInt8) (outLen : ℕ) (s : Lookup) : Prop where
  length : s.outLen = outLen ∨ s.outLen = 0
  sent : ∀ q ∈ s.sent, q = outBuf.take outLen
  waiting : s.answer = none → ∀ d ∈ s.received, d = []
  answered : ∀ text, s.answer = some text →
    ∃ empty d, s.received = empty++[d] ∧ (∀ e ∈ empty, e = []) ∧ d ≠ [] ∧ text = dotted (sliceLast 4 (d.take 1024))

theorem start_kept (outBuf : List UInt8) (outLen : ℕ) : LookupKept outBuf outLen (.start outLen) := by
  refine ⟨.inl rfl,?_,?_,?_⟩ <;> simp [Lookup.start]

theorem send_kept (result : ℤ) (kept : LookupKept outBuf outLen s) : LookupKept outBuf outLen (s.send outBuf result) := by
  unfold Lookup.send
  split
  · have whole : s.outLen = outLen := by
      rcases kept.length with whole | written <;> omega
    refine ⟨?_,?_,kept.waiting,kept.answered⟩
    · show (if 0 < result then 0 else s.outLen) = outLen ∨ _
      split
      · exact .inr rfl
      · exact .inl whole
    · intro q member
      rcases List.mem_append.mp member with old | new
      · exact kept.sent q old
      · rw [List.mem_singleton.mp new,whole]
  · exact kept

theorem receive_kept (arrived : Option (List UInt8)) (kept : LookupKept outBuf outLen s) (open_ : s.answer = none) :
    LookupKept outBuf outLen (s.receive arrived) := by
  cases arrived with
  | none => exact kept
  | some d =>
    have empty := kept.waiting open_
    have filled : (patch (List.replicate 1024 0) 0 (d.take 1024)).take (d.take 1024).length = d.take 1024 := by
      have front := take_patch (b := List.replicate 1024 0) (Nat.zero_le _) (d.take 1024)
      rwa [Nat.zero_add,List.take_zero,List.nil_append] at front
    simp only [Lookup.receive,filled]
    split
    · rename_i positive
      refine ⟨kept.length,kept.sent,?_,?_⟩
      · intro answer
        cases answer
      · intro text answer
        have present : d ≠ [] := by
          rintro rfl
          simp at positive
        exact ⟨s.received,d,rfl,empty,present,(Option.some.inj answer).symm⟩
    · rename_i nothing
      have absent : d = [] := by
        cases d with
        | nil => rfl
        | cons x rest => simp at nothing
      refine ⟨kept.length,kept.sent,?_,?_⟩
      · intro _ e member
        rcases List.mem_append.mp member with old | new
        · exact empty e old
        · rw [List.mem_singleton.mp new,absent]
      · intro text answer
        rw [open_] at answer
        cases answer

theorem turn_parts {s : Lookup} (ran : s.turn sock outBuf t = some next) :
    ∃ rfds wfds, ∃ writable readable : Bool, ∃ middle : Lookup,
      middle = (if writable then ({s with rfds := rfds,wfds := wfds} : Lookup).send outBuf t.sendto else {s with rfds := rfds,wfds := wfds}) ∧
      next = if readable then middle.receive t.arrived else middle := by
  unfold Lookup.turn at ran
  obtain ⟨sets,_,ran⟩ := Option.bind_eq_some_iff.mp ran
  obtain ⟨writable,_,ran⟩ := Option.bind_eq_some_iff.mp ran
  obtain ⟨readable,_,ran⟩ := Option.bind_eq_some_iff.mp ran
  exact ⟨_,_,writable,readable,_,rfl,(Option.some.inj ran).symm⟩

theorem send_answer (outBuf : List UInt8) (result : ℤ) (s : Lookup) : (s.send outBuf result).answer = s.answer := by
  unfold Lookup.send
  split <;> rfl

theorem lookup_step_kept (kept : LookupKept outBuf outLen s) (step : LookupStep sock outBuf s t next) :
    LookupKept outBuf outLen next := by
  obtain ⟨open_,ran⟩ := step
  obtain ⟨rfds,wfds,writable,readable,middle,written,read⟩ := turn_parts ran
  have watched : LookupKept outBuf outLen {s with rfds := rfds,wfds := wfds} := ⟨kept.length,kept.sent,kept.waiting,kept.answered⟩
  have halfway : LookupKept outBuf outLen middle ∧ middle.answer = none := by
    rw [written]
    split
    · exact ⟨send_kept t.sendto watched,(send_answer outBuf t.sendto _).trans open_⟩
    · exact ⟨watched,open_⟩
  rw [read]
  split
  · exact receive_kept t.arrived halfway.1 halfway.2
  · exact halfway.1

theorem lookup_run_kept (run : Runs (LookupStep sock outBuf) (.start outLen) turns s) : LookupKept outBuf outLen s := by
  induction run with
  | nil => exact start_kept outBuf outLen
  | snoc _ step kept => exact lookup_step_kept kept step

structure EndsInAddress (d : List UInt8) (x : Message) (r : DnsMessages.Record) : Prop where
  decodes : Decodes d x
  last : x.answers.getLast? = some r
  authority : x.authority = []
  additional : x.additional = []
  type : r.type = 1
  octets : r.data.length = 4

-- lookup answers the first datagram that is not empty with the octets at its
-- end, which are the address of a reply that ends in one.
theorem lookup_answers (ran : LookupRun domain sock turns s) :
    (∃ outBuf outLen, buildQuery domain = some (outBuf,outLen) ∧ ∀ q ∈ s.sent, q = outBuf.take outLen) ∧
      (s.answer = none → ∀ d ∈ s.received, d = []) ∧
      ∀ text, s.answer = some text → ∃ empty d, s.received = empty++[d] ∧ (∀ e ∈ empty, e = []) ∧ d ≠ [] ∧
        text = dotted (sliceLast 4 (d.take 1024)) ∧
        ∀ x r, d.length ≤ 1024 → EndsInAddress d x r → text = dotted r.data := by
  obtain ⟨built,run⟩ := ran
  have kept := lookup_run_kept run
  refine ⟨⟨_,_,built,kept.sent⟩,kept.waiting,?_⟩
  intro text answer
  obtain ⟨empty,d,received,before,present,spelled⟩ := kept.answered text answer
  refine ⟨empty,d,received,before,present,spelled,?_⟩
  intro x r fits ends
  have tail := last_answer ends.decodes ends.last ends.authority ends.additional
  rw [ends.octets] at tail
  rw [spelled,List.take_of_length_le fits,sliceLast,tail]

def shortReply : LookupTurn := ⟨Prod.mk,19,some [1,2,3,4,5]⟩

theorem short_reply_taken : ∃ s, LookupRun [0x61] (some 3) [shortReply] s ∧ s.received = [[1,2,3,4,5]] ∧
    s.answer = some ['2','.','3','.','4','.','5'] := by
  have ran : ((buildQuery [0x61]).bind (fun q => (Lookup.start q.2).turn (some 3) q.1 shortReply)).map
      (fun s => (s.received,s.answer)) = some ([[1,2,3,4,5]],some ['2','.','3','.','4','.','5']) := by decide +kernel
  obtain ⟨s,turned,same⟩ := Option.map_eq_some_iff.mp ran
  obtain ⟨⟨outBuf,outLen⟩,built,turned⟩ := Option.bind_eq_some_iff.mp turned
  obtain ⟨received,answer⟩ := Prod.mk.inj same
  exact ⟨s,.run built (.snoc .nil (.turn rfl turned)),received,answer⟩

theorem lookup_answers_short : ∃ s : Lookup, ∃ d, s.received = [d] ∧ s.answer = some (dotted (sliceLast 4 (d.take 1024))) := by
  obtain ⟨s,run,received,answer⟩ := short_reply_taken
  obtain ⟨empty,d,last,_,_,spelled,_⟩ := (lookup_answers run).2.2 _ answer
  have only : empty = [] ∧ d = [1,2,3,4,5] := by
    rw [received] at last
    cases empty <;> simp_all
  exact ⟨s,d,by rw [last,only.1]; rfl,answer.trans (congrArg some spelled)⟩

def AnswerSound (outLen : ℕ) (d : List UInt8) (text : List Char) : Prop :=
  ∃ x r, Decodes d x ∧ x.id = outLen-2 ∧ 2^15 ≤ x.flags ∧ x.flags%16 = 0 ∧ r ∈ x.answers ∧ r.type = 1 ∧
    r.data.length = 4 ∧ text = dotted r.data

theorem lookup_unsound : ¬∀ domain sock turns s outBuf outLen text, LookupRun domain sock turns s →
    buildQuery domain = some (outBuf,outLen) → s.answer = some text → ∃ d ∈ s.received, AnswerSound outLen d text := by
  intro claimed
  obtain ⟨s,run,received,answer⟩ := short_reply_taken
  obtain ⟨outBuf,built,_⟩ := buildQuery_bytes (show ([0x61] : JSText).length ≤ 253 by simp)
  obtain ⟨d,member,x,_,decodes,_⟩ := claimed _ _ _ _ _ _ _ run built answer
  rw [received,List.mem_singleton] at member
  have count := decodes.ancount
  rw [member] at count
  cases count

end QjsFfi
