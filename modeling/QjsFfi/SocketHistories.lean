import QjsFfi.Sockets
import QjsFfi.Histories

namespace QjsFfi
open Histories

def ClosedLast (calls : List NativeCall) : Prop := ∀ front c back, calls = front++c :: back → c.closes = true → back = []

structure Effect (s : Socket) (r : Returned) : Prop where
  fd : r.socket.fd = s.fd
  errno : s.errno = none → r.socket.errno = none
  connecting : r.socket.connecting = s.connecting
  descriptor : ∀ c ∈ r.calls, c.fd = ToInt32 s.fd
  last : ClosedLast r.calls
  destroyed : r.socket.destroyed = true ↔ s.destroyed = true ∨ ∃ c ∈ r.calls, c.closes = true
  accepted : ∀ t fd, r.accepted = some (t,fd) → t = .created

theorem ClosedLast.single (c : NativeCall) : ClosedLast [c] := by
  intro front d back same _
  cases front with
  | nil => exact ((List.cons.inj same).2).symm
  | cons x rest => simp at same

theorem ClosedLast.cons (quiet : c.closes = false) (last : ClosedLast calls) : ClosedLast (c :: calls) := by
  intro front d back same close
  cases front with
  | nil =>
    obtain ⟨rfl,_⟩ := List.cons.inj same
    rw [quiet] at close
    cases close
  | cons x rest => exact last rest d back (List.cons.inj same).2 close

theorem ClosedLast.append (quiet : ∀ c ∈ earlier, c.closes = false) (last : ClosedLast calls) : ClosedLast (earlier++calls) := by
  induction earlier with
  | nil => exact last
  | cons c rest ih =>
    exact .cons (quiet c List.mem_cons_self) (ih (fun d member => quiet d (List.mem_cons_of_mem _ member)))

theorem Effect.quiet {s : Socket} {call : NativeCall} (same : t.fd = s.fd) (error : s.errno = none → t.errno = none)
    (connecting : t.connecting = s.connecting) (destroyed : t.destroyed = s.destroyed) (fd : call.fd = ToInt32 s.fd)
    (open_ : call.closes = false) : Effect s ⟨t,[call],ret,none⟩ := by
  refine ⟨same,error,connecting,?_,.single call,?_,?_⟩
  · simpa using fd
  · simp [destroyed,open_]
  · simp

theorem connect_effect {s : Socket} (ran : s.connect engine addr port native = some r) : Effect s r := by
  obtain ⟨remote,_,ran⟩ := Option.bind_eq_some_iff.mp ran
  cases Option.some.inj ran
  refine Effect.quiet ?_ ?_ ?_ ?_ ?_ rfl <;> split <;> simp [syscall_errno,NativeCall.fd]

theorem bind_effect {s : Socket} (ran : s.bind engine addr port native = some r) : Effect s r := by
  obtain ⟨remote,_,ran⟩ := Option.bind_eq_some_iff.mp ran
  obtain ⟨fd,number,ran⟩ := Option.bind_eq_some_iff.mp ran
  cases Option.some.inj ran
  dsimp only at number
  refine ⟨?_,?_,?_,?_,.cons rfl (.single _),?_,by simp⟩
  · split <;> rfl
  · intro absent
    split
    · rfl
    · exact absent
  · split <;> rfl
  · intro c member
    simp only [List.mem_cons,List.not_mem_nil,or_false] at member
    rcases member with rfl | rfl
    · rw [number]
      rfl
    · simp only [NativeCall.fd]
      split <;> rfl
  · split <;> simp [NativeCall.closes]

theorem listen_effect {s : Socket} (ran : s.listen backlog native = some r) : Effect s r := by
  cases Option.some.inj ran
  refine Effect.quiet ?_ ?_ ?_ ?_ rfl rfl <;> split <;> simp [syscall_errno]

theorem accept_effect {s : Socket} (ran : s.accept engine remote native = some r) : Effect s r := by
  unfold Socket.accept at ran
  dsimp only at ran
  split at ran
  · cases Option.some.inj ran
    exact Effect.quiet rfl (fun _ => rfl) rfl rfl rfl rfl
  · cases Option.some.inj ran
    refine ⟨rfl,id,rfl,?_,.single _,?_,?_⟩
    · simp [NativeCall.fd]
    · simp [NativeCall.closes]
    · intro t fd same
      exact (Prod.mk.inj (Option.some.inj same)).1.symm

theorem close_effect {s : Socket} (ran : s.close = some r) : Effect s r := by
  cases Option.some.inj ran
  refine ⟨rfl,id,rfl,?_,.single _,?_,by simp⟩
  · simp [NativeCall.fd]
  · simp [NativeCall.closes]

theorem readBuffer_effect {s : Socket} (ran : s.readBuffer size offset len native = some r) : Effect s r := by
  obtain ⟨⟨pos,n⟩,_,ran⟩ := Option.bind_eq_some_iff.mp ran
  dsimp only at ran
  split at ran
  · cases Option.some.inj ran
    exact Effect.quiet rfl (fun _ => rfl) rfl rfl rfl rfl
  · split at ran
    · cases Option.some.inj ran
      refine ⟨rfl,id,rfl,?_,.cons rfl (.single _),?_,by simp⟩
      · simp [NativeCall.fd]
      · simp [NativeCall.closes]
    · cases Option.some.inj ran
      exact Effect.quiet rfl id rfl rfl rfl rfl

theorem read_effect {s : Socket} (ran : s.read arg native = some r) : Effect s r := by
  cases arg with
  | absent => exact readBuffer_effect ran
  | number n =>
    simp only [Socket.read] at ran
    split at ran
    · exact readBuffer_effect ran
    · cases ran
  | buffer size offset len => exact readBuffer_effect ran
  | object => cases ran

theorem write_effect {s : Socket} (ran : s.write size offset len native = some r) : Effect s r := by
  obtain ⟨bytes,_,ran⟩ := Option.bind_eq_some_iff.mp ran
  obtain ⟨⟨pos,n⟩,_,ran⟩ := Option.bind_eq_some_iff.mp ran
  cases Option.some.inj ran
  refine Effect.quiet ?_ ?_ ?_ ?_ rfl rfl <;> split <;> simp [syscall_errno]

theorem recvfrom_effect {s : Socket} (ran : s.recvfrom buf len flags src_addr addrlen native = some r) : Effect s r := by
  obtain ⟨fd,number,ran⟩ := Option.bind_eq_some_iff.mp ran
  obtain ⟨b,_,ran⟩ := Option.bind_eq_some_iff.mp ran
  obtain ⟨l,_,ran⟩ := Option.bind_eq_some_iff.mp ran
  cases Option.some.inj ran
  exact Effect.quiet rfl id rfl rfl (by rw [number]; rfl) rfl

theorem sendto_effect {s : Socket} (ran : s.sendto buf len flags dest_addr addrlen native = some r) : Effect s r := by
  obtain ⟨addrlen,_,ran⟩ := Option.bind_eq_some_iff.mp ran
  obtain ⟨fd,number,ran⟩ := Option.bind_eq_some_iff.mp ran
  obtain ⟨b,_,ran⟩ := Option.bind_eq_some_iff.mp ran
  obtain ⟨l,_,ran⟩ := Option.bind_eq_some_iff.mp ran
  cases Option.some.inj ran
  exact Effect.quiet rfl id rfl rfl (by rw [number]; rfl) rfl

theorem run_effect {s : Socket} (ran : Operation.run engine s op = some r) : Effect s r := by
  cases op with
  | connect addr port native => exact connect_effect ran
  | bind addr port native => exact bind_effect ran
  | listen backlog native => exact listen_effect ran
  | accept remote native => exact accept_effect ran
  | read arg native => exact read_effect ran
  | write size offset len native => exact write_effect ran
  | recvfrom buf len flags src_addr addrlen native => exact recvfrom_effect ran
  | sendto buf len flags dest_addr addrlen native => exact sendto_effect ran
  | close => exact close_effect ran

structure SocketEntry where
  socket : Socket
  granted : ℤ
  built : Bool
  calls : List NativeCall

inductive SocketEvent where
  | constructed (proto : ℤ) (native : SysResult)
  | returned (i : ℕ) (op : Operation)
  | threw (i : ℕ) (op : Operation)

def SocketEntry.after (e : SocketEntry) (r : Returned) : SocketEntry := {e with socket := r.socket,calls := e.calls++r.calls}

def Returned.entries (r : Returned) : List SocketEntry := r.accepted.toList.map (fun (t,fd) => ⟨t,fd,false,[]⟩)

inductive SocketStep (engine : List Char → JSNumber) : List SocketEntry → SocketEvent → List SocketEntry → Prop where
  | constructed : SocketStep engine w (.constructed proto native) (w++[⟨.new engine proto native,native.viaCall,true,[]⟩])
  | returned : w[i]? = some e → op.run engine e.socket = some r →
      SocketStep engine w (.returned i op) (w.set i (e.after r)++r.entries)
  | threw : w[i]? = some e → op.run engine e.socket = none → SocketStep engine w (.threw i op) w

abbrev SocketRun (engine : List Char → JSNumber) (history : List SocketEvent) (w : List SocketEntry) : Prop :=
  Runs (SocketStep engine) [] history w

structure EntryKept (e : SocketEntry) : Prop where
  errno : e.socket.errno = none
  connecting : e.socket.connecting = false
  owned : e.built = true → e.socket.fd = some e.granted
  issued : ∀ c ∈ e.calls, c.fd = ToInt32 e.socket.fd
  destroyed : e.socket.destroyed = true ↔ ∃ c ∈ e.calls, c.closes = true

theorem constructed_kept (engine : List Char → JSNumber) (proto : ℤ) (native : SysResult) :
    EntryKept ⟨.new engine proto native,native.viaCall,true,[]⟩ := by
  refine ⟨rfl,rfl,fun _ => rfl,?_,?_⟩ <;> simp [Socket.new]

theorem EntryKept.after {e : SocketEntry} (kept : EntryKept e) (effect : Effect e.socket r) : EntryKept (e.after r) := by
  refine ⟨effect.errno kept.errno,effect.connecting.trans kept.connecting,?_,?_,?_⟩
  · intro built
    exact effect.fd.trans (kept.owned built)
  · intro c member
    show c.fd = ToInt32 r.socket.fd
    rw [effect.fd]
    rcases List.mem_append.mp member with old | new
    · exact kept.issued c old
    · exact effect.descriptor c new
  · show r.socket.destroyed = true ↔ ∃ c ∈ e.calls++r.calls, c.closes = true
    rw [effect.destroyed,kept.destroyed]
    simp only [List.mem_append,or_and_right,exists_or]

theorem accepted_kept (effect : Effect s r) : ∀ e ∈ r.entries, EntryKept e := by
  intro e member
  obtain ⟨⟨t,fd⟩,made,rfl⟩ := List.mem_map.mp member
  rw [effect.accepted t fd (Option.mem_toList.mp made)]
  refine ⟨rfl,rfl,?_,?_,?_⟩ <;> simp [Socket.created]

theorem step_kept (kept : ∀ e ∈ w, EntryKept e) (step : SocketStep engine w event next) : ∀ e ∈ next, EntryKept e := by
  cases step with
  | constructed =>
    intro e member
    rcases List.mem_append.mp member with old | new
    · exact kept e old
    · rw [List.mem_singleton.mp new]
      exact constructed_kept engine _ _
  | returned found ran =>
    intro e member
    rcases List.mem_append.mp member with old | new
    · rcases List.mem_or_eq_of_mem_set old with same | rfl
      · exact kept e same
      · exact (kept _ (List.mem_of_getElem? found)).after (run_effect ran)
    · exact accepted_kept (run_effect ran) e new
  | threw => exact kept

theorem socket_kept (run : SocketRun engine history w) : ∀ e ∈ w, EntryKept e := by
  induction run with
  | nil => simp
  | snoc _ step kept => exact step_kept kept step

def LeftAlone (engine : List Char → JSNumber) (i : ℕ) (history : List SocketEvent) : Prop :=
  ∀ before op after w e, history = before++.returned i op :: after → SocketRun engine before w → w[i]? = some e →
    e.socket.destroyed = false

theorem LeftAlone.earlier (alone : LeftAlone engine i (history++[event])) : LeftAlone engine i history := by
  intro before op after w e split
  refine alone before op (after++[event]) w e ?_
  rw [split,List.append_assoc]
  rfl

theorem step_entry (step : SocketStep engine w event next) (found : next[i]? = some e) :
    (w[i]? = none ∧ e.calls = []) ∨ w[i]? = some e ∨
      ∃ d op r, event = .returned i op ∧ w[i]? = some d ∧ op.run engine d.socket = some r ∧ e = d.after r := by
  cases step with
  | constructed =>
    rcases Nat.lt_or_ge i w.length with old | new
    · rw [List.getElem?_append_left old] at found
      exact .inr (.inl found)
    · refine .inl ⟨List.getElem?_eq_none new,?_⟩
      rw [List.getElem?_append_right new] at found
      rw [List.mem_singleton.mp (List.mem_of_getElem? found)]
  | returned there ran =>
    rename_i j d r op
    rcases Nat.lt_or_ge i w.length with old | new
    · rw [List.getElem?_append_left (by simpa using old)] at found
      by_cases same : j = i
      · subst same
        rw [List.getElem?_set_self old] at found
        exact .inr (.inr ⟨d,op,r,rfl,there,ran,(Option.some.inj found).symm⟩)
      · rw [List.getElem?_set_ne same] at found
        exact .inr (.inl found)
    · refine .inl ⟨List.getElem?_eq_none new,?_⟩
      rw [List.getElem?_append_right (by simpa using new)] at found
      obtain ⟨made,_,rfl⟩ := List.mem_map.mp (List.mem_of_getElem? found)
      rfl
  | threw => exact .inr (.inl found)

theorem closed_last (run : SocketRun engine history w) (alone : LeftAlone engine i history) (found : w[i]? = some e) :
    ClosedLast e.calls := by
  induction run generalizing e with
  | nil => cases found
  | snoc prior step ih =>
    rcases step_entry step found with ⟨_,empty⟩ | same | ⟨d,op,r,rfl,there,ran,rfl⟩
    · rw [empty]
      intro front c back split
      simp at split
    · exact ih alone.earlier same
    · have open_ := alone _ op [] _ d rfl prior there
      have kept := socket_kept prior d (List.mem_of_getElem? there)
      refine .append ?_ (run_effect ran).last
      intro c member
      cases closes : c.closes with
      | false => rfl
      | true =>
        have destroyed := kept.destroyed.mpr ⟨c,member,closes⟩
        rw [open_] at destroyed
        cases destroyed

-- Each Socket the constructor made issues its calls on its own descriptor. One
-- that is left alone when it is destroyed has at most one close, after which
-- it issues nothing.
theorem one_descriptor (run : SocketRun engine history w) (found : w[i]? = some e) :
    (e.built = true → ∀ c ∈ e.calls, c.fd = ToInt32 (some e.granted)) ∧
      (e.socket.destroyed = true ↔ ∃ c ∈ e.calls, c.closes = true) ∧
      (LeftAlone engine i history → ClosedLast e.calls) := by
  have kept := socket_kept run e (List.mem_of_getElem? found)
  refine ⟨?_,kept.destroyed,fun alone => closed_last run alone found⟩
  intro built c member
  rw [kept.issued c member,kept.owned built]

theorem one_descriptor_read : ∃ e : SocketEntry, e.calls = [.read 3 0 8,.close 3] ∧ ∀ c ∈ e.calls, c.fd = ToInt32 (some 3) := by
  have made : SocketRun (fun _ => none) [.constructed 0 (.ok 3)] _ := .snoc .nil .constructed
  have read : SocketRun (fun _ => none) ([.constructed 0 (.ok 3)]++[.returned 0 (.read (.buffer 8 none (some 8)) (.ok 0))]) _ :=
    .snoc made (.returned rfl rfl)
  exact ⟨_,rfl,(one_descriptor (i := 0) read rfl).1 rfl⟩

structure OneDescriptor (e : SocketEntry) : Prop where
  own : ∀ c ∈ e.calls, c.fd = ToInt32 (some e.granted)
  closed : ClosedLast e.calls

-- close() twice closes 3 twice; the Socket that accept returns for 4 closes 0.
theorem descriptors_mixed (engine : List Char → JSNumber) :
    (∃ history w e, SocketRun engine history w ∧ e ∈ w ∧ e.built = true ∧ e.calls = [.close 3,.close 3]) ∧
      ∃ history w e, SocketRun engine history w ∧ e ∈ w ∧ e.granted = 4 ∧ e.calls = [.close 0] := by
  have made : SocketRun engine [.constructed 0 (.ok 3)] _ := .snoc .nil .constructed
  refine ⟨?_,?_⟩
  · have once : SocketRun engine ([.constructed 0 (.ok 3)]++[.returned 0 .close]) _ := .snoc made (.returned rfl rfl)
    have twice : SocketRun engine ([.constructed 0 (.ok 3)]++[.returned 0 .close]++[.returned 0 .close]) _ :=
      .snoc once (.returned rfl rfl)
    exact ⟨_,_,_,twice,List.mem_cons_self,rfl,rfl⟩
  · have accepted : SocketRun engine ([.constructed 0 (.ok 3)]++[.returned 0 (.accept none (.ok 4))]) _ :=
      .snoc made (.returned rfl rfl)
    have closed : SocketRun engine ([.constructed 0 (.ok 3)]++[.returned 0 (.accept none (.ok 4))]++[.returned 1 .close]) _ :=
      .snoc accepted (.returned rfl rfl)
    exact ⟨_,_,_,closed,List.mem_cons_of_mem _ List.mem_cons_self,rfl,rfl⟩

theorem descriptors_lost : (¬∀ history w, SocketRun (fun _ => none) history w → ∀ e ∈ w, e.built = true → OneDescriptor e) ∧
    ¬∀ history w, SocketRun (fun _ => none) history w → ∀ e ∈ w, OneDescriptor e := by
  obtain ⟨⟨history,w,e,run,member,built,twice⟩,later,v,d,other,present,granted,closed⟩ := descriptors_mixed (fun _ => none)
  refine ⟨?_,?_⟩
  · intro claimed
    have last := (claimed history w run e member built).closed
    rw [twice] at last
    cases last [] (.close 3) [.close 3] rfl rfl
  · intro claimed
    have own := (claimed later v other d present).own
    rw [closed,granted] at own
    cases own (.close 0) List.mem_cons_self

def Operation.failure : Operation → Option ℕ+
  | .connect _ _ native | .bind _ _ native | .listen _ native | .accept _ native | .read _ native | .write _ _ _ native => native.error
  | .recvfrom .. | .sendto .. | .close => none

def Operation.connects : Operation → Bool | .connect .. => true | _ => false

structure ErrorState (op : Operation) (s : Socket) : Prop where
  errno : ∀ e, op.failure = some e → s.errno = some ((e : ℕ) : ℤ)
  connecting : op.connects = true → (s.connecting = true ↔ op.failure = some EINPROGRESS)

def SocketEvent.failure : SocketEvent → Option ℕ+ | .returned _ op => op.failure | _ => none

def ErrorStates (engine : List Char → JSNumber) (history : List SocketEvent) : Prop :=
  ∀ before i op after w next e, history = before++.returned i op :: after → SocketRun engine before w →
    SocketStep engine w (.returned i op) next → next[i]? = some e → ErrorState op e.socket

theorem errorState_exact {s : Socket} (errno : s.errno = none) (connecting : s.connecting = false) :
    ErrorState op s ↔ op.failure = none := by
  constructor
  · intro state
    cases failed : op.failure with
    | none => rfl
    | some e =>
      have number := state.errno e failed
      rw [errno] at number
      cases number
  · intro fine
    refine ⟨?_,?_⟩ <;> simp [fine,connecting]

theorem step_present (step : SocketStep engine w (.returned i op) next) : ∃ e, next[i]? = some e := by
  cases step with
  | returned found ran =>
    have inside := (List.getElem?_eq_some_iff.mp found).1
    exact ⟨_,List.getElem?_eq_getElem (by simp; omega)⟩

-- syscall.errno is undefined, so a Socket never has an error number and is never
-- connecting: the law holds where no native call fails, and only there.
theorem error_states (run : SocketRun engine history w) : ErrorStates engine history ↔ ∀ event ∈ history, event.failure = none := by
  constructor
  · intro states event member
    cases event with
    | constructed => rfl
    | threw => rfl
    | returned i op =>
      obtain ⟨before,after,split⟩ := List.append_of_mem member
      obtain ⟨u,v,earlier,step,_⟩ := run.split split
      obtain ⟨e,found⟩ := step_present step
      have kept := step_kept (socket_kept earlier) step e (List.mem_of_getElem? found)
      exact (errorState_exact kept.errno kept.connecting).mp (states before i op after u v e split earlier step found)
  · intro fine before i op after u v e split earlier step found
    have kept := step_kept (socket_kept earlier) step e (List.mem_of_getElem? found)
    exact (errorState_exact kept.errno kept.connecting).mpr (fine (.returned i op) (by simp [split]))

theorem error_states_listen : ErrorStates (fun _ => none) [.constructed 0 (.ok 3),.returned 0 (.listen (some 5) (.ok 0))] := by
  have made : SocketRun (fun _ => none) [.constructed 0 (.ok 3)] _ := .snoc .nil .constructed
  have listened : SocketRun (fun _ => none) ([.constructed 0 (.ok 3)]++[.returned 0 (.listen (some 5) (.ok 0))]) _ :=
    .snoc made (.returned rfl rfl)
  exact (error_states listened).mpr (by simp [SocketEvent.failure,Operation.failure,SysResult.error])

-- A connect in progress: errno stays undefined and connecting false.
theorem progress_lost : ∃ w e, SocketRun (fun _ => none) [.constructed 0 (.ok 3),.returned 0 (.connect none none (.failed EINPROGRESS))] w ∧
    w[0]? = some e ∧ e.socket.errno = none ∧ e.socket.connecting = false ∧
    ¬ErrorStates (fun _ => none) [.constructed 0 (.ok 3),.returned 0 (.connect none none (.failed EINPROGRESS))] := by
  have made : SocketRun (fun _ => none) [.constructed 0 (.ok 3)] _ := .snoc .nil .constructed
  have connected : SocketRun (fun _ => none) ([.constructed 0 (.ok 3)]++[.returned 0 (.connect none none (.failed EINPROGRESS))]) _ :=
    .snoc made (.returned rfl rfl)
  refine ⟨_,_,connected,rfl,rfl,rfl,?_⟩
  intro states
  have parts : [SocketEvent.constructed 0 (.ok 3),.returned 0 (.connect none none (.failed EINPROGRESS))] =
    [.constructed 0 (.ok 3)]++.returned 0 (.connect none none (.failed EINPROGRESS)) :: [] := rfl
  obtain ⟨u,v,earlier,step,_⟩ := connected.split parts
  obtain ⟨e,found⟩ := step_present step
  have number := (states _ _ _ _ u v e parts earlier step found).errno EINPROGRESS rfl
  rw [(step_kept (socket_kept earlier) step e (List.mem_of_getElem? found)).errno] at number
  cases number

end QjsFfi
