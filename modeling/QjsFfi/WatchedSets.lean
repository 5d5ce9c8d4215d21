import QjsFfi.LookupExchange
import QjsFfi.SelectCalls
import QjsFfi.TelnetOutput

namespace QjsFfi
open Histories

-- sock + 1
def nfdsFor (sock : JSNumber) : JSNumber := sock.map (· + 1)

-- The sets of a call of select, and the nfds it is given, which is the least that covers them.
structure Watches (nfds : JSNumber) (sets : fd_set × fd_set) (reads writes : Finset ℕ) : Prop where
  reading : Represents sets.1 reads
  writing : Represents sets.2 writes
  covered : ∃ k : ℕ, nfds = some (k : ℤ) ∧ Needed (fun fd => fd ∈ reads ∨ fd ∈ writes) k

structure Within (n : ℕ) (others : Finset ℕ) (fd : JSNumber) (rfds wfds : fd_set) : Prop where
  number : fd = some (n : ℤ)
  reads : ∀ k, Bitmaps.member rfds.bytes k = true → k ∈ insert n others
  writes : ∀ k, Bitmaps.member wfds.bytes k = true → k = n

def Telnet.pending (s : Telnet) : Prop := s.sock.connecting = true ∨ s.outLen ≠ 0

def Telnet.readsStdin (s : Telnet) : Prop := FD_ISSET STDIN_FILENO s.rfds = some true ∨ (¬s.pending ∧ s.inLen < s.inBuf.length)

instance (s : Telnet) : Decidable s.pending := inferInstanceAs (Decidable (_ ∨ _))
instance (s : Telnet) : Decidable s.readsStdin := inferInstanceAs (Decidable (_ ∨ _))

def LookupTurn.Removes (t : LookupTurn) : Prop := ∀ rfds wfds, Shrinks (t.select rfds wfds).1 rfds ∧ Shrinks (t.select rfds wfds).2 wfds

theorem shrinks_member (shrinks : Shrinks after before) (set : Bitmaps.member after.bytes k = true) : Bitmaps.member before.bytes k = true := by
  have inside : k < FD_SETSIZE := by
    have within := Bitmaps.member_inside set
    rw [after.whole] at within
    unfold FD_SETSIZE at within ⊢
    omega
  have tested := shrinks k inside (by rw [FD_ISSET_member inside,set])
  rw [FD_ISSET_member inside] at tested
  exact Option.some.inj tested

theorem new_within (number : fd = some ((n : ℕ) : ℤ)) : Within n others fd .new .new := by
  refine ⟨number,?_,?_⟩
  · intro k set
    simp [fd_set.new] at set
  · intro k set
    simp [fd_set.new] at set

-- FD_ZERO having done nothing, FD_CLR takes the socket from the one set and FD_SET puts it into the other.
theorem socket_asked (within : Within n others fd rfds wfds) (inside : n < FD_SETSIZE) :
    ∃ w r, FD_CLR fd (FD_ZERO .theSet .undefined wfds) = some w ∧ FD_SET fd (FD_ZERO .theSet .undefined rfds) = some r ∧
      Represents w ∅ ∧ ∀ k, Bitmaps.member r.bytes k = true ↔ k = n ∨ Bitmaps.member rfds.bytes k = true := by
  obtain ⟨w,cleared,without⟩ := FD_CLR_members inside (FD_ZERO .theSet .undefined wfds)
  obtain ⟨r,set,with_⟩ := FD_SET_members inside (FD_ZERO .theSet .undefined rfds)
  rw [within.number]
  refine ⟨w,r,cleared,set,represents_iff.mpr ?_,?_⟩
  · intro k
    rw [without]
    by_cases own : k = n
    · simp [own]
    · have absent : ¬Bitmaps.member wfds.bytes k = true := fun present => own (within.writes k present)
      simp [own,FD_ZERO,absent]
  · intro k
    rw [with_]
    by_cases own : k = n <;> simp [own,FD_ZERO]

theorem alone_asked (within : Within n ∅ fd rfds wfds) (asked : ∀ k, Bitmaps.member r.bytes k = true ↔ k = n ∨ Bitmaps.member rfds.bytes k = true) :
    Represents r {n} := by
  refine represents_iff.mpr ?_
  intro k
  rw [asked,Finset.mem_singleton]
  refine ⟨?_,.inl⟩
  rintro (own | present)
  · exact own
  · simpa using within.reads k present

theorem shared_asked (within : Within n {0} fd rfds wfds) (asked : ∀ k, Bitmaps.member r.bytes k = true ↔ k = n ∨ Bitmaps.member rfds.bytes k = true) :
    Represents r (if FD_ISSET STDIN_FILENO rfds = some true then {n,0} else {n}) := by
  have stdin : FD_ISSET STDIN_FILENO rfds = some (Bitmaps.member rfds.bytes 0) := FD_ISSET_member (by simp [FD_SETSIZE]) rfds
  refine represents_iff.mpr ?_
  intro k
  rw [asked,stdin]
  by_cases own : k = n
  · subst own
    split <;> simp
  · have only : Bitmaps.member rfds.bytes k = true → k = 0 := by
      intro present
      have listed := within.reads k present
      simpa [own] using listed
    by_cases zero : k = 0
    · subst zero
      cases Bitmaps.member rfds.bytes 0 <;> simp [own]
    · have absent : ¬Bitmaps.member rfds.bytes k = true := fun present => zero (only present)
      split <;> simp [own,zero,absent]

theorem socket_covers [Decidable p] [Decidable q] (number : fd = some ((n : ℕ) : ℤ)) (reading : Represents r (if p then {n,0} else {n}))
    (writing : Represents w (if q then {n} else ∅)) : Watches (nfdsFor fd) (r,w) (if p then {n,0} else {n}) (if q then {n} else ∅) := by
  refine ⟨reading,writing,n+1,?_,.greatest (.inl ?_) ?_⟩
  · rw [number]
    rfl
  · split <;> simp
  · rintro other (read | written)
    · split at read <;> simp at read <;> omega
    · split at written <;> simp at written
      omega

theorem polled_within (number : fd = some ((n : ℕ) : ℤ)) (watches : Watches nfds sets reads writes) (reading : reads ⊆ insert n others)
    (writing : writes ⊆ {n}) (less : Shrinks rfds sets.1 ∧ Shrinks wfds sets.2) : Within n others fd rfds wfds := by
  refine ⟨number,?_,?_⟩
  · intro k set
    exact reading ((represents_iff.mp watches.reading k).mp (shrinks_member less.1 set))
  · intro k set
    exact Finset.mem_singleton.mp (writing ((represents_iff.mp watches.writing k).mp (shrinks_member less.2 set)))

def Telnet.watched (s : Telnet) : JSNumber × fd_set × fd_set := (s.sock.fd,s.rfds,s.wfds)

section Parts
variable {engine : List Char → JSNumber} {memory : List UInt8 → ℕ → UInt8}

theorem append_watched {s : Telnet} (ran : s.append memory chars = some next) : next.watched = s.watched := by
  obtain ⟨_,_,_,rfl⟩ := append_parts ran
  rfl

theorem send_watched {s : Telnet} (ran : s.send b n native = some (next,ret)) : next.watched = s.watched := by
  obtain ⟨r,wrote,ran⟩ := Option.bind_eq_some_iff.mp ran
  cases Option.some.inj ran
  exact congrArg (·,_) (write_unaddressed wrote).fd

theorem greet_watched {s : Telnet} (ran : s.greet memory = some next) : next.watched = s.watched := by
  rcases greet_cases ran with rfl | appended
  · rfl
  · exact append_watched appended

theorem advance_watched (s : Telnet) : s.advance.watched = s.watched := by
  unfold Telnet.advance
  split <;> rfl

theorem flush_watched {s : Telnet} (ran : s.flush memory t = some next) : next.watched = s.watched := by
  unfold Telnet.flush at ran
  split at ran
  · obtain ⟨⟨middle,ret⟩,wrote,ran⟩ := Option.bind_eq_some_iff.mp ran
    have sent := send_watched wrote
    dsimp only at ran
    split at ran
    · obtain ⟨greeted,greeting,rfl⟩ := Option.map_eq_some_iff.mp ran
      exact (advance_watched greeted).trans ((greet_watched greeting).trans sent)
    · cases Option.some.inj ran
      exact sent
  · cases Option.some.inj ran
    rfl

theorem meet_watched {s : Telnet} (ran : s.meet engine listening t = some next) : next.watched = s.watched := by
  unfold Telnet.meet at ran
  split at ran
  · obtain ⟨r,accepted,ran⟩ := Option.bind_eq_some_iff.mp ran
    cases Option.some.inj ran
    exact congrArg (·,_) (accept_unaddressed accepted).fd
  · cases Option.some.inj ran
    rfl

theorem handshakeRead_watched {s : Telnet} (ran : s.handshakeRead t = some next) : next.watched = s.watched := by
  obtain ⟨r,read,ran⟩ := Option.bind_eq_some_iff.mp ran
  cases Option.some.inj ran
  exact congrArg (·,_) (read_unaddressed read).fd

theorem sendTerm_watched {s : Telnet} (ran : s.sendTerm t = some next) : next.watched = s.watched := by
  unfold Telnet.sendTerm at ran
  split at ran
  · cases Option.some.inj ran
    rfl
  · obtain ⟨⟨middle,ret⟩,wrote,ran⟩ := Option.bind_eq_some_iff.mp ran
    have sent := send_watched wrote
    cases Option.some.inj ran
    exact sent

theorem relay_watched {s : Telnet} (ran : s.relay t = some next) : next.watched = s.watched := by
  obtain ⟨r,read,ran⟩ := Option.bind_eq_some_iff.mp ran
  have same : Telnet.watched {s with sock := r.socket} = s.watched := congrArg (·,_) (read_unaddressed read).fd
  dsimp only at ran
  split at ran
  · split at ran
    · exact (sendTerm_watched ran).trans same
    · cases Option.some.inj ran
      exact same
  · cases Option.some.inj ran
    exact same

theorem keyboard_watched {s : Telnet} (ran : s.keyboard memory t = some next) : next.watched = s.watched := by
  rcases keyboard_cases ran rfl with rfl | typed
  · rfl
  · refine type_keeps (fun u => u.watched = s.watched) ?_ ?_ typed
    · intro u chars v same appended
      exact (append_watched appended).trans same
    · rfl

theorem respond_watched {s : Telnet} (ran : s.respond engine memory listening t = some next) : next.watched = s.watched := by
  obtain ⟨a,writing,ran⟩ := Option.bind_eq_some_iff.mp ran
  obtain ⟨b,meeting,ran⟩ := Option.bind_eq_some_iff.mp ran
  obtain ⟨c,reading,typing⟩ := Option.bind_eq_some_iff.mp ran
  have one : a.watched = s.watched := by
    rcases writing_cases writing with rfl | ⟨_,flushed⟩
    · rfl
    · exact flush_watched flushed
  have two : b.watched = a.watched := by
    obtain ⟨ready,_,meeting⟩ := Option.bind_eq_some_iff.mp meeting
    split at meeting
    · exact meet_watched meeting
    · cases Option.some.inj meeting
      rfl
  have three : c.watched = b.watched := by
    rcases reading_cases reading with rfl | ⟨_,⟨_,read⟩ | ⟨_,relayed⟩⟩
    · rfl
    · exact handshakeRead_watched read
    · exact relay_watched relayed
  have four : next.watched = c.watched := by
    rcases typing_cases typing with rfl | typed
    · rfl
    · exact keyboard_watched typed
  exact four.trans (three.trans (two.trans one))

theorem watch_asks {s : Telnet} (within : Within n {0} s.sock.fd s.rfds s.wfds) (inside : n < FD_SETSIZE) :
    ∃ sets, s.watch = some sets ∧ Watches (nfdsFor s.sock.fd) sets (if s.readsStdin then {n,0} else {n}) (if s.pending then {n} else ∅) := by
  obtain ⟨w,r,cleared,set,none_,asked⟩ := socket_asked within inside
  have shared := shared_asked within asked
  rw [Telnet.watch,cleared,set]
  simp only [Option.bind_eq_bind,Option.bind_some]
  by_cases due : s.pending
  · obtain ⟨v,also,written⟩ := FD_SET_represents none_ inside
    have stale : s.readsStdin ↔ FD_ISSET STDIN_FILENO s.rfds = some true := or_iff_left (fun keys => keys.1 due)
    rw [← if_congr stale rfl rfl] at shared
    rw [if_pos (show _ ∨ _ from due),within.number,also]
    refine ⟨_,rfl,socket_covers rfl shared ?_⟩
    rwa [if_pos due]
  · rw [if_neg (show ¬(_ ∨ _) from due)]
    have idle : Represents w (if s.pending then {n} else ∅) := by rwa [if_neg due]
    by_cases room : s.inLen < s.inBuf.length
    · obtain ⟨v,also,read⟩ := FD_SET_represents shared (show 0 < FD_SETSIZE by simp [FD_SETSIZE])
      have both : insert 0 (if FD_ISSET STDIN_FILENO s.rfds = some true then {n,0} else {n}) = (if s.readsStdin then {n,0} else {n} : Finset ℕ) := by
        rw [if_pos (show s.readsStdin from .inr ⟨due,room⟩)]
        split
        · simp
        · exact Finset.pair_comm 0 n
      rw [if_pos room,show FD_SET STDIN_FILENO r = some v from also]
      exact ⟨_,rfl,socket_covers within.number (both ▸ read) idle⟩
    · have stale : s.readsStdin ↔ FD_ISSET STDIN_FILENO s.rfds = some true := or_iff_left (fun keys => room keys.2)
      rw [← if_congr stale rfl rfl] at shared
      rw [if_neg room]
      exact ⟨_,rfl,socket_covers within.number shared idle⟩

theorem iterate_within {s : Telnet} (within : Within n {0} s.sock.fd s.rfds s.wfds) (inside : n < FD_SETSIZE)
    (step : TelnetStep engine memory listening s t next) : Within n {0} next.sock.fd next.rfds next.wfds := by
  obtain ⟨less,ran⟩ := step
  unfold Telnet.iterate at ran
  split at ran
  · cases ran
  · obtain ⟨sets,watched,responded⟩ := Option.bind_eq_some_iff.mp ran
    obtain ⟨asked,same,watches⟩ := watch_asks within inside
    cases Option.some.inj (same.symm.trans watched)
    have kept := respond_watched responded
    have polled : Within n {0} (s.polled t sets).sock.fd (s.polled t sets).rfds (s.polled t sets).wfds := by
      refine polled_within within.number watches ?_ ?_ (less sets watched)
      · split <;> simp
      · split <;> simp
    obtain ⟨number,rest⟩ := Prod.ext_iff.mp kept
    obtain ⟨reads,writes⟩ := Prod.ext_iff.mp rest
    dsimp only [Telnet.watched] at number reads writes
    rwa [number,reads,writes]

theorem telnet_within (number : sock.fd = some ((n : ℕ) : ℤ)) (inside : n < FD_SETSIZE)
    (run : Runs (TelnetStep engine memory listening) (.start sock) turns s) : Within n {0} s.sock.fd s.rfds s.wfds := by
  induction run with
  | nil => exact new_within number
  | snoc _ step ih => exact iterate_within ih inside step

end Parts

theorem lookup_asks {s : Lookup} (within : Within n ∅ (some ((n : ℕ) : ℤ)) s.rfds s.wfds) (inside : n < FD_SETSIZE) :
    ∃ sets, s.watch (some (n : ℤ)) = some sets ∧ Watches (nfdsFor (some (n : ℤ))) sets {n} (if s.outLen ≠ 0 then {n} else ∅) := by
  obtain ⟨w,r,cleared,set,none_,asked⟩ := socket_asked within inside
  have alone := alone_asked within asked
  have covers : ∀ r w, Represents r {n} → Represents w (if s.outLen ≠ 0 then {n} else ∅) →
      Watches (nfdsFor (some (n : ℤ))) (r,w) {n} (if s.outLen ≠ 0 then {n} else ∅) := by
    intro r w reading writing
    exact socket_covers (p := False) rfl reading writing
  rw [Lookup.watch,cleared,set]
  simp only [Option.bind_eq_bind,Option.bind_some]
  by_cases due : s.outLen ≠ 0
  · obtain ⟨v,also,written⟩ := FD_SET_represents none_ inside
    rw [if_pos due,also]
    refine ⟨_,rfl,covers _ _ alone ?_⟩
    rwa [if_pos due]
  · obtain ⟨v,also,read⟩ := FD_SET_represents alone inside
    rw [if_neg due,also]
    refine ⟨_,rfl,covers _ _ (Finset.insert_eq_of_mem (Finset.mem_singleton_self n) ▸ read) ?_⟩
    rwa [if_neg due]

theorem turn_within {s : Lookup} (within : Within n ∅ (some ((n : ℕ) : ℤ)) s.rfds s.wfds) (inside : n < FD_SETSIZE) (removes : t.Removes)
    (ran : s.turn (some (n : ℤ)) outBuf t = some next) : Within n ∅ (some (n : ℤ)) next.rfds next.wfds := by
  obtain ⟨sets,watched,ran⟩ := Option.bind_eq_some_iff.mp ran
  obtain ⟨writable,_,ran⟩ := Option.bind_eq_some_iff.mp ran
  obtain ⟨readable,_,ran⟩ := Option.bind_eq_some_iff.mp ran
  obtain ⟨asked,same,watches⟩ := lookup_asks within inside
  cases Option.some.inj (same.symm.trans watched)
  have polled : Within n ∅ (some (n : ℤ)) (t.select sets.1 sets.2).1 (t.select sets.1 sets.2).2 := by
    refine polled_within rfl watches (by simp) ?_ (removes sets.1 sets.2)
    split <;> simp
  have kept : next.sets = t.select sets.1 sets.2 := by
    cases Option.some.inj ran
    cases writable <;> cases readable <;> simp only [Bool.false_eq_true,if_true,if_false,send_sets,receive_sets] <;> rfl
  obtain ⟨reads,writes⟩ := Prod.ext_iff.mp kept
  dsimp only [Lookup.sets] at reads writes
  rwa [reads,writes]

theorem lookup_within (inside : n < FD_SETSIZE) (removes : ∀ t ∈ turns, LookupTurn.Removes t)
    (run : Runs (LookupStep (some ((n : ℕ) : ℤ)) outBuf) (.start outLen) turns s) : Within n ∅ (some (n : ℤ)) s.rfds s.wfds := by
  induction run with
  | nil => exact new_within rfl
  | snoc _ step ih =>
    obtain ⟨_,ran⟩ := step
    have before := ih (fun t member => removes t (List.mem_append_left _ member))
    exact turn_within before inside (removes _ (List.mem_append_right _ (List.mem_singleton_self _))) ran

-- Although FD_ZERO(rfds) and FD_ZERO(wfds) clear nothing, at every select of either program
-- the sets hold the socket and what is due. Only stdin can be read from beyond that, in
-- telnet, as long as no select takes it out.
theorem loops_watch (inside : n < FD_SETSIZE) :
    (∀ engine memory listening sock turns s, sock.fd = some (n : ℤ) → TelnetRun engine memory listening sock turns s →
      ∃ sets, s.watch = some sets ∧ Watches (nfdsFor s.sock.fd) sets (if s.readsStdin then {n,0} else {n}) (if s.pending then {n} else ∅)) ∧
    ∀ domain turns s, (∀ t ∈ turns, LookupTurn.Removes t) → LookupRun domain (some (n : ℤ)) turns s →
      ∃ sets, s.watch (some (n : ℤ)) = some sets ∧ Watches (nfdsFor (some (n : ℤ))) sets {n} (if s.outLen ≠ 0 then {n} else ∅) := by
  constructor
  · intro engine memory listening sock turns s number run
    exact watch_asks (telnet_within number inside run.ran) inside
  · intro domain turns s removes run
    obtain ⟨_,run⟩ := run
    exact lookup_asks (lookup_within inside removes run) inside

theorem loops_watch_typed :
    (∃ s sets, TelnetRun (fun _ => none) (fun _ _ => 0) false clientSocket [readyTurn [1,2] [0x61]] s ∧ s.watch = some sets ∧
      Watches (some 4) sets {3,0} {3}) ∧
    ∃ s sets, LookupRun [0x61] (some 3) [shortReply] s ∧ s.watch (some 3) = some sets ∧ Represents sets.1 {3} := by
  obtain ⟨telnet,lookup⟩ := loops_watch (show 3 < FD_SETSIZE by simp [FD_SETSIZE])
  constructor
  · have ran : ((Telnet.start clientSocket).iterate (fun _ => none) (fun _ _ => 0) false (readyTurn [1,2] [0x61])).map
        (fun s => (s.sock.fd,s.outLen,FD_ISSET STDIN_FILENO s.rfds)) = some (some 3,3,some true) := by decide +kernel
    obtain ⟨s,ran,same⟩ := Option.map_eq_some_iff.mp ran
    obtain ⟨number,rest⟩ := Prod.mk.inj same
    obtain ⟨due,stdin⟩ := Prod.mk.inj rest
    have run := (client_start (fun _ _ => 0)).snoc (ready_step ran)
    obtain ⟨sets,watched,watches⟩ := telnet _ _ _ _ _ s rfl run
    rw [number,if_pos (show s.readsStdin from .inl stdin),if_pos (show s.pending from .inr (by omega))] at watches
    exact ⟨s,sets,run,watched,watches⟩
  · obtain ⟨s,run,_⟩ := short_reply_taken
    have removes : ∀ t ∈ [shortReply], LookupTurn.Removes t := by
      intro t member
      rw [List.mem_singleton.mp member]
      exact fun _ _ => ⟨shrinks_refl _,shrinks_refl _⟩
    obtain ⟨sets,watched,watches⟩ := lookup [0x61] _ s removes run
    exact ⟨s,sets,run,watched,watches.reading⟩

end QjsFfi
