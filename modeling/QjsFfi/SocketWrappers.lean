import QjsFfi.ForeignTables
import QjsFfi.SelectCalls
import QjsFfi.Transfers
import QjsFfi.Sockets

namespace QjsFfi
open BinaryFloat Activation Histories

inductive LengthArgument where
  | socklen (b : LiveBuffer)
  | number (n : ℤ)

inductive SocketCall where
  | socket (af type proto : Option ℤ)
  | connect (fd : JSNumber) (addr : LiveBuffer) (addrlen : Option ℤ)
  | bind (fd : JSNumber) (addr : LiveBuffer) (addrlen : Option ℤ)
  | listen (fd : JSNumber) (backlog : Option ℤ)
  | accept (fd : JSNumber) (addr addrlen : Option LiveBuffer)
  | getsockopt (sockfd level optname : ℤ) (optval : LiveBuffer) (optlen : Option LengthArgument)
  | setsockopt (sockfd level optname : ℤ) (optval : LiveBuffer) (optlen : Option ℤ)
  | recvfrom (fd : ℤ) (buf : LiveBuffer) (len : ℤ) (flags : Option ℤ) (src_addr addrlen : Option LiveBuffer)
  | sendto (fd : ℤ) (buf : LiveBuffer) (len : ℤ) (flags : Option ℤ) (dest_addr : LiveBuffer) (addrlen : Option ℤ)
  | select (nfds : Option ℤ) (readfds writefds exceptfds : Option SetObject) (timeout : Option LiveBuffer)
  | transfer (t : Transfer) (fd : ℤ) (buf : BufferSource) (offset len flags : Option ℤ)

def SocketCall.row : SocketCall → Syscall
  | .socket _ _ _ => ⟨"socket","int",["int","int","int"]⟩
  | .connect _ _ _ => ⟨"connect","int",["int","void *","size_t"]⟩
  | .bind _ _ _ => ⟨"bind","int",["int","void *","size_t"]⟩
  | .listen _ _ => ⟨"listen","int",["int","int"]⟩
  | .accept _ _ _ => ⟨"accept","int",["int","buffer","buffer"]⟩
  | .getsockopt _ _ _ _ _ => ⟨"getsockopt","int",["int","int","int","void *","buffer"]⟩
  | .setsockopt _ _ _ _ _ => ⟨"setsockopt","int",["int","int","int","void *","size_t"]⟩
  | .recvfrom _ _ _ _ _ _ => ⟨"recvfrom","int",["int","buffer","size_t","int","buffer","buffer"]⟩
  | .sendto _ _ _ _ _ _ => ⟨"sendto","int",["int","buffer","size_t","int","buffer","size_t"]⟩
  | .select _ _ _ _ _ => .select
  | .transfer t _ _ _ _ _ => t.row

theorem row_listed (c : SocketCall) : c.row ∈ syscall := by
  cases c with
  | transfer t => exact (transfer_types t).1
  | _ => simp [SocketCall.row,syscall]

-- +fd
def numeral : JSNumber → Datum
  | none => .nan
  | some n => .ofInt n

def orNull (b : Option LiveBuffer) : Passed := (b.map Passed.buffer).getD .null

-- optlen || optval.byteLength
def optionLength (optval : LiveBuffer) : Option LengthArgument → Passed
  | some (.socklen b) => .buffer b
  | some (.number n) => .number (.ofInt (if n = 0 then (optval.bytes.length : ℤ) else n))
  | none => .number (.ofInt optval.bytes.length)

def SocketCall.passed : SocketCall → List Passed
  | .socket af type proto =>
    [.number (.ofInt (af.getD AF_INET)),.number (.ofInt (type.getD SOCK_STREAM)),.number (.ofInt (proto.getD 0))]
  | .connect fd addr addrlen | .bind fd addr addrlen =>
    [.number (numeral fd),.buffer addr,.number (.ofInt (addrlen.getD addr.bytes.length))]
  | .listen fd backlog => [.number (numeral fd),.number (.ofInt (backlog.getD 5))]
  | .accept fd addr addrlen => [.number (numeral fd),orNull addr,orNull addrlen]
  | .getsockopt sockfd level optname optval optlen =>
    [.number (.ofInt sockfd),.number (.ofInt level),.number (.ofInt optname),.buffer optval,optionLength optval optlen]
  | .setsockopt sockfd level optname optval optlen =>
    [.number (.ofInt sockfd),.number (.ofInt level),.number (.ofInt optname),.buffer optval,
     optionLength optval (optlen.map .number)]
  | .recvfrom fd buf len flags src_addr addrlen =>
    [.number (.ofInt fd),.buffer buf,.number (.ofInt len),.number (.ofInt (flags.getD 0)),orNull src_addr,orNull addrlen]
  | .sendto fd buf len flags dest_addr addrlen =>
    [.number (.ofInt fd),.buffer buf,.number (.ofInt len),.number (.ofInt (flags.getD 0)),.buffer dest_addr,
     .number (.ofInt (addrlen.getD dest_addr.bytes.length))]
  | .select nfds readfds writefds exceptfds timeout => QjsFfi.select (nfds.map Datum.ofInt) readfds writefds exceptfds timeout
  | .transfer t fd buf offset len flags => (t.passes fd buf offset len flags).getD []

def Passed.whole : Passed → ℤ
  | .null => 0
  | .number d => d.truncate.getD 0
  | .buffer b => b.data.toInt

def Passed.cell (t : ffi_type) (p : Passed) : FfiValue := conv t (.integer p.whole)

theorem conv_whole (plain : t.format = none) (q : Quantity) : conv t q = conv t (.integer q.whole) := by
  cases t <;> first | rfl | cases plain

def Passed.Fits (t : ffi_type) : Passed → Prop
  | .number d => (∃ n, d = .ofInt n ∧ -2^63 ≤ n ∧ n < 2^63) ∨ (d.truncate = none ∧ t = .sint32)
  | _ => True

theorem passed_conveys {p : Passed} (plain : t.format = none) (fits : p.Fits t) (passed : p.Stands v)
    (stands : Stands c (v.quantity.getD (.integer 0))) : delivered t c = p.cell t := by
  cases p with
  | null =>
    have value : v.value = .null := passed
    have quantity : v.quantity = some (.integer 0) := by simp only [JSValueConst.quantity,value]
    rw [quantity,Option.getD_some] at stands
    exact delivered_conv stands (fun _ _ same => by cases same)
  | buffer b =>
    rw [buffer_quantity passed,Option.getD_some] at stands
    exact delivered_conv stands (fun _ _ same => by cases same)
  | number d =>
    rcases fits with ⟨n,rfl,lower,upper⟩ | ⟨open_ended,rfl⟩
    · obtain ⟨q,delivers,whole⟩ := number_delivered (t := t) passed lower upper stands
      rw [delivers,conv_whole plain,whole,Passed.cell,Passed.whole,truncate_ofInt]
      rfl
    · rw [indefinite_delivered passed open_ended stands,Passed.cell,Passed.whole,open_ended]
      rfl

theorem valuesOf_cells {ps : List Passed} {params : List ffi_type} {vs : List JSValueConst}
    (fits : List.Forall₂ (fun t p => t.format = none ∧ Passed.Fits t p) params ps)
    (passed : List.Forall₂ (fun p v => p.Stands v) ps vs)
    (stands : ∀ i v, vs[i]? = some v → Stands (arg i) (v.quantity.getD (.integer 0))) :
    valuesOf params arg = List.zipWith Passed.cell params ps := by
  induction fits generalizing vs arg with
  | nil => rfl
  | cons first _ ih =>
    cases passed with
    | cons own rest =>
      rename_i vs
      have here := passed_conveys first.1 first.2 own (stands 0 _ rfl)
      have shifted : ∀ i v, vs[i]? = some v → Stands (arg (i+1)) (v.quantity.getD (.integer 0)) :=
        fun i v given => stands (i+1) v given
      have later := ih rest shifted
      rw [valuesOf,List.mapIdx_cons,here,List.zipWith_cons_cons,← later]
      rfl

def intCell (n : ℤ) : FfiValue := .integral 32 (.ofInt 32 n)
def addressCell (b : Option LiveBuffer) : FfiValue := .pointer ((b.map LiveBuffer.data).getD 0)

-- What the C function gets. A length given to getsockopt as a number is taken for an
-- address; an nfds that is NaN or infinite comes to 0; and of the five arguments of
-- recv and send the prototype takes four, the offset for the length.
def optionCell (optval : LiveBuffer) : Option LengthArgument → FfiValue
  | some (.socklen b) => addressCell (some b)
  | some (.number n) => .pointer (.ofInt 64 (if n = 0 then (optval.bytes.length : ℤ) else n))
  | none => .pointer (.ofInt 64 optval.bytes.length)

def SocketCall.native : SocketCall → List FfiValue
  | .socket af type proto => [intCell (af.getD AF_INET),intCell (type.getD SOCK_STREAM),intCell (proto.getD 0)]
  | .connect fd addr addrlen | .bind fd addr addrlen =>
    [.integral 32 (ToInt32 fd),addressCell (some addr),intCell (addrlen.getD addr.bytes.length)]
  | .listen fd backlog => [.integral 32 (ToInt32 fd),intCell (backlog.getD 5)]
  | .accept fd addr addrlen => [.integral 32 (ToInt32 fd),addressCell addr,addressCell addrlen]
  | .getsockopt sockfd level optname optval optlen =>
    [intCell sockfd,intCell level,intCell optname,addressCell (some optval),optionCell optval optlen]
  | .setsockopt sockfd level optname optval optlen =>
    [intCell sockfd,intCell level,intCell optname,addressCell (some optval),
     intCell (if optlen.getD 0 = 0 then (optval.bytes.length : ℤ) else optlen.getD 0)]
  | .recvfrom fd buf len flags src_addr addrlen =>
    [intCell fd,addressCell (some buf),intCell len,intCell (flags.getD 0),addressCell src_addr,addressCell addrlen]
  | .sendto fd buf len flags dest_addr addrlen =>
    [intCell fd,addressCell (some buf),intCell len,intCell (flags.getD 0),addressCell (some dest_addr),
     intCell (addrlen.getD dest_addr.bytes.length)]
  | .select nfds readfds writefds exceptfds timeout =>
    [intCell (nfds.getD ((nfdsOf (givenSets readfds writefds exceptfds)).truncate.getD 0)),addressCell (readfds.map SetObject.buffer),
     addressCell (writefds.map SetObject.buffer),addressCell (exceptfds.map SetObject.buffer),addressCell timeout]
  | .transfer _ fd buf offset len _ =>
    [intCell fd,addressCell (some buf.buffer),intCell (offset.getD 0),intCell (len.getD buf.buffer.bytes.length)]

def SocketCall.params : SocketCall → List ffi_type
  | .socket _ _ _ => [.sint32,.sint32,.sint32]
  | .connect _ _ _ | .bind _ _ _ => [.sint32,.pointer,.uint32]
  | .listen _ _ => [.sint32,.sint32]
  | .accept _ _ _ => [.sint32,.pointer,.pointer]
  | .getsockopt _ _ _ _ _ => [.sint32,.sint32,.sint32,.pointer,.pointer]
  | .setsockopt _ _ _ _ _ => [.sint32,.sint32,.sint32,.pointer,.uint32]
  | .recvfrom _ _ _ _ _ _ => [.sint32,.pointer,.uint32,.sint32,.pointer,.pointer]
  | .sendto _ _ _ _ _ _ => [.sint32,.pointer,.uint32,.sint32,.pointer,.uint32]
  | .select _ _ _ _ _ => [.sint32,.pointer,.pointer,.pointer,.pointer]
  | .transfer _ _ _ _ _ _ => [.sint32,.pointer,.uint32,.sint32]

def SocketCall.taken (c : SocketCall) : List Passed := c.passed.take c.params.length

theorem row_params (c : SocketCall) : knownTypes (define_types []) c.row.args = some c.params := by
  cases c with
  | transfer t => exact (transfer_types t).2
  | _ => simp only [SocketCall.row,SocketCall.params]; decide +kernel

theorem cell_int (n : ℤ) : Passed.cell .sint32 (.number (.ofInt n)) = intCell n := by
  rw [Passed.cell,Passed.whole,truncate_ofInt]
  rfl

theorem cell_size (n : ℤ) : Passed.cell .uint32 (.number (.ofInt n)) = intCell n := by
  rw [Passed.cell,Passed.whole,truncate_ofInt]
  rfl

theorem cell_descriptor (fd : JSNumber) : Passed.cell .sint32 (.number (numeral fd)) = .integral 32 (ToInt32 fd) := by
  cases fd with
  | none => rfl
  | some n => exact cell_int n

theorem cell_buffer (b : LiveBuffer) : Passed.cell .pointer (.buffer b) = addressCell (some b) := by
  simp [Passed.cell,Passed.whole,conv,Quantity.whole,addressCell]

theorem cell_orNull (b : Option LiveBuffer) : Passed.cell .pointer (orNull b) = addressCell b := by
  cases b with
  | none => rfl
  | some b => exact cell_buffer b

theorem cell_option (optval : LiveBuffer) (optlen : Option LengthArgument) :
    Passed.cell .pointer (optionLength optval optlen) = optionCell optval optlen := by
  rcases optlen with _ | ⟨b⟩ | ⟨n⟩
  · rw [optionLength,Passed.cell,Passed.whole,truncate_ofInt]
    rfl
  · exact cell_buffer b
  · rw [optionLength,Passed.cell,Passed.whole,truncate_ofInt]
    rfl

theorem cell_length (optval : LiveBuffer) (optlen : Option ℤ) : Passed.cell .uint32 (optionLength optval (optlen.map .number)) =
    intCell (if optlen.getD 0 = 0 then (optval.bytes.length : ℤ) else optlen.getD 0) := by
  cases optlen with
  | none => exact cell_size _
  | some n => exact cell_size _

theorem cell_nfds (nfds : Option ℤ) (sets : List SetObject) :
    Passed.cell .sint32 (.number ((nfds.map Datum.ofInt).getD (nfdsOf sets))) = intCell (nfds.getD ((nfdsOf sets).truncate.getD 0)) := by
  cases nfds with
  | none => rfl
  | some n => exact cell_int n

theorem setArgument_orNull (s : Option SetObject) : setArgument s = orNull (s.map SetObject.buffer) := by
  cases s <;> rfl

theorem native_cells (c : SocketCall) : List.zipWith Passed.cell c.params c.taken = c.native := by
  cases c with
  | select nfds readfds writefds exceptfds timeout =>
    simp only [SocketCall.taken,SocketCall.params,SocketCall.passed,SocketCall.native,select,List.length_cons,List.length_nil,
      List.take_succ_cons,List.take_nil,List.zipWith_cons_cons,List.zipWith_nil_left,setArgument_orNull,cell_nfds,cell_orNull]
    exact congrArg (fun last => [_,_,_,_,last]) (cell_orNull timeout)
  | transfer t fd buf offset len flags =>
    simp only [SocketCall.taken,SocketCall.params,SocketCall.passed,SocketCall.native,passes_transferred,Option.getD_some,transferred,
      List.length_cons,List.length_nil,List.take_succ_cons,List.take_zero,List.zipWith_cons_cons,List.zipWith_nil_left,cell_int,cell_size,
      cell_buffer]
  | _ =>
    simp only [SocketCall.taken,SocketCall.params,SocketCall.passed,SocketCall.native,List.length_cons,List.length_nil,List.take_succ_cons,
      List.take_nil,List.zipWith_cons_cons,List.zipWith_nil_left,cell_int,cell_size,cell_descriptor,cell_buffer,cell_orNull,cell_option,
      cell_length]

def Shaped (t : ffi_type) (p : Passed) : Prop :=
  t.format = none ∧ ∀ d, p = .number d → (∃ n, d = .ofInt n) ∨ (t = .sint32 ∧ d.truncate = none)

theorem shaped_int (plain : t.format = none) (n : ℤ) : Shaped t (.number (.ofInt n)) := by
  refine ⟨plain,?_⟩
  rintro _ ⟨⟩
  exact .inl ⟨n,rfl⟩

theorem shaped_descriptor (fd : JSNumber) : Shaped .sint32 (.number (numeral fd)) := by
  refine ⟨rfl,?_⟩
  rintro _ ⟨⟩
  cases fd with
  | none => exact .inr ⟨rfl,rfl⟩
  | some n => exact .inl ⟨n,rfl⟩

theorem shaped_nfds (nfds : Option ℤ) (sets : List SetObject) : Shaped .sint32 (.number ((nfds.map Datum.ofInt).getD (nfdsOf sets))) := by
  refine ⟨rfl,?_⟩
  rintro _ ⟨⟩
  cases nfds with
  | none => exact (nfds_shape sets).imp id (fun open_ended => ⟨rfl,open_ended⟩)
  | some n => exact .inl ⟨n,rfl⟩

theorem shaped_orNull (b : Option LiveBuffer) : Shaped .pointer (orNull b) := by
  cases b with
  | none => exact ⟨rfl,nofun⟩
  | some b => exact ⟨rfl,nofun⟩

theorem shaped_option (plain : t.format = none) (optval : LiveBuffer) (optlen : Option LengthArgument) :
    Shaped t (optionLength optval optlen) := by
  rcases optlen with _ | ⟨b⟩ | ⟨n⟩
  · exact shaped_int plain _
  · exact ⟨plain,nofun⟩
  · exact shaped_int plain _

theorem taken_shaped (c : SocketCall) : List.Forall₂ Shaped c.params c.taken := by
  have buffer : ∀ b, Shaped .pointer (.buffer b) := fun b => ⟨rfl,nofun⟩
  have int : ∀ n, Shaped .sint32 (.number (.ofInt n)) := shaped_int rfl
  have size : ∀ n, Shaped .uint32 (.number (.ofInt n)) := shaped_int rfl
  have pointed : ∀ optval optlen, Shaped .pointer (optionLength optval optlen) := shaped_option rfl
  have sized : ∀ optval optlen, Shaped .uint32 (optionLength optval optlen) := shaped_option rfl
  cases c with
  | select nfds readfds writefds exceptfds timeout =>
    simp only [SocketCall.taken,SocketCall.params,SocketCall.passed,select,List.length_cons,List.length_nil,List.take_succ_cons,
      List.take_nil,List.forall₂_cons,setArgument_orNull,shaped_nfds,shaped_orNull,true_and,List.Forall₂.nil]
    exact ⟨shaped_orNull timeout,trivial⟩
  | transfer t fd buf offset len flags =>
    simp only [SocketCall.taken,SocketCall.params,SocketCall.passed,passes_transferred,Option.getD_some,transferred,List.length_cons,
      List.length_nil,List.take_succ_cons,List.take_zero,List.forall₂_cons,buffer,int,size,true_and,List.Forall₂.nil]
  | _ =>
    simp only [SocketCall.taken,SocketCall.params,SocketCall.passed,List.length_cons,List.length_nil,List.take_succ_cons,List.take_nil,
      List.forall₂_cons,buffer,int,size,pointed,sized,shaped_descriptor,shaped_orNull,true_and,List.Forall₂.nil]

def SocketCall.InRange (c : SocketCall) : Prop := ∀ n, Passed.number (.ofInt n) ∈ c.taken → -2^63 ≤ n ∧ n < 2^63

theorem passed_fits {ps : List Passed} (shaped : List.Forall₂ Shaped params ps)
    (ranged : ∀ n, Passed.number (.ofInt n) ∈ ps → -2^63 ≤ n ∧ n < 2^63) :
    List.Forall₂ (fun t p => ffi_type.format t = none ∧ Passed.Fits t p) params ps := by
  induction shaped with
  | nil => exact .nil
  | cons own _ ih =>
    rename_i t p _ _ _
    refine .cons ⟨own.1,?_⟩ (ih (fun n member => ranged n (List.mem_cons_of_mem _ member)))
    cases p with
    | number d =>
      rcases own.2 d rfl with ⟨n,rfl⟩ | ⟨rfl,open_ended⟩
      · exact .inl ⟨n,rfl,ranged n List.mem_cons_self⟩
      · exact .inr ⟨open_ended,rfl⟩
    | null | buffer => trivial

theorem passed_few (c : SocketCall) : c.passed.length ≤ MAX_PARAMETERS := by
  cases c with
  | transfer t => cases t <;> exact Nat.le_of_ble_eq_true rfl
  | _ => exact Nat.le_of_ble_eq_true rfl

theorem socket_enters {c : SocketCall} {vs : List JSValueConst} (reached : Reached history m) (loaded : Loaded history l c.row)
    (passed : List.Forall₂ (fun p v => Passed.Stands v p) c.passed vs) (ranged : c.InRange) :
    (∃ opening r entered, Step m ⟨.call ((l.closure c.row).arguments vs),opening,r⟩ entered) ∧
    ∀ opening r entered, Step m ⟨.call ((l.closure c.row).arguments vs),opening,r⟩ entered → r = none ∧
      ∃ request, invocations opening = [request] ∧ request.values = c.native ∧
        (l.symbol c.row ≠ 0 → (l.symbol c.row).toNat ≤ 2^53 → request.fp = .code (l.symbol c.row)) := by
  refine ⟨call_possible (sound_reached reached) _,?_⟩
  intro opening r entered step
  have few : vs.length ≤ MAX_PARAMETERS := by
    rw [← passed.length_eq]
    exact passed_few c
  obtain ⟨returns,request,arg,one,values,stands,symbol⟩ := loaded.delivers reached (syscall_literal _ (row_listed c)) (row_params c)
    few (passed_convertible passed) step
  refine ⟨returns,request,one,?_,symbol⟩
  have front : List.Forall₂ (fun p v => Passed.Stands v p) c.taken (vs.take c.params.length) := List.forall₂_take _ passed
  have carried : ∀ i v, (vs.take c.params.length)[i]? = some v → Stands (arg i) (v.quantity.getD (.integer 0)) := by
    intro i v given
    rw [List.getElem?_take] at given
    split at given
    · exact stands i v given
    · cases given
  rw [values,valuesOf_cells (passed_fits (taken_shaped c) ranged) front carried,native_cells]

theorem ofInt_injective {n k : ℤ} (same : Datum.ofInt n = Datum.ofInt k) : n = k := by
  have read := congrArg Datum.truncate same
  rw [truncate_ofInt,truncate_ofInt] at read
  exact Option.some.inj read

-- Once socket.js is loaded where the names were free, every function of its table that
-- libffi has accepted enters its native function once, with exactly these values, at any
-- later time.
theorem socket_table (reached : Reached history m) (free : ∀ row ∈ syscall, firstDefine history row.name = none)
    (ran : Gives (foreignAll l syscall) m.ctx (some fs) t log) :
    fs = syscall.map l.closure ∧ ∃ loading, Reached (history++loading) ⟨t,m.stack⟩ ∧
      ∀ c : SocketCall, (t.function c.row.name).isSome = true → c.InRange → ∀ more later, Runs Step ⟨t,m.stack⟩ more later →
        ∀ vs, List.Forall₂ (fun p v => Passed.Stands v p) c.passed vs →
          (∃ opening r entered, Step later ⟨.call ((l.closure c.row).arguments vs),opening,r⟩ entered) ∧
          ∀ opening r entered, Step later ⟨.call ((l.closure c.row).arguments vs),opening,r⟩ entered → r = none ∧
            ∃ request, invocations opening = [request] ∧ request.values = c.native ∧
              (l.symbol c.row ≠ 0 → (l.symbol c.row).toNat ≤ 2^53 → request.fp = .code (l.symbol c.row)) := by
  obtain ⟨closures,loading,after,_,rows⟩ := foreignAll_loads syscall_literal syscall_names reached free ran
  refine ⟨closures,loading,after,?_⟩
  intro c registered ranged more later onward vs passed
  rcases rows c.row (row_listed c) with undefined | loaded
  · have absent : t.function c.row.name = none := (sound_reached after).unknown c.row.name undefined
    rw [absent] at registered
    cases registered
  · exact socket_enters (Runs.append after onward) (loaded.later more) passed ranged

theorem socket_table_listen : ∃ m opening entered request,
    Step m ⟨.call ((plainLoading.closure ⟨"listen","int",["int","int"]⟩).arguments [intArgument 3,intArgument 5]),opening,none⟩ entered ∧
      invocations opening = [request] ∧ request.values = [.integral 32 3,.integral 32 5] := by
  obtain ⟨t,log,ran⟩ := foreignAll_gives syscall_literal plainLoading freshMachine.ctx
  obtain ⟨s,_,serves⟩ := module_realises.run serves_start fresh_reached
  obtain ⟨_,_,settled⟩ := Serves.foreignAll syscall_literal syscall_names serves serves.initialised ran
  have registered : (t.function "listen").isSome = true := by
    have promised : (plainLoading.promised syscall "listen").isSome = true := by decide +kernel
    have entry := settled.function "listen"
    rw [Purpose.settled,Option.isSome_or,promised,Bool.or_true] at entry
    exact entry
  have ranged : (SocketCall.listen (some 3) none).InRange := by
    intro n member
    have small : n = 3 ∨ n = 5 := by
      have listed : Passed.number (.ofInt n) ∈ [Passed.number (.ofInt 3),Passed.number (.ofInt 5)] := member
      simp only [List.mem_cons,List.not_mem_nil,or_false,Passed.number.injEq] at listed
      exact listed.imp ofInt_injective ofInt_injective
    rcases small with rfl | rfl <;> decide
  have free : ∀ row ∈ syscall, firstDefine [initialisation] row.name = none := by decide
  obtain ⟨_,_,_,calls⟩ := socket_table fresh_reached free ran
  have passed : List.Forall₂ (fun p v => Passed.Stands v p) (SocketCall.listen (some 3) none).passed [intArgument 3,intArgument 5] :=
    .cons rfl (.cons rfl .nil)
  obtain ⟨⟨opening,r,entered,step⟩,enters⟩ := calls (.listen (some 3) none) registered ranged [] _ .nil _ passed
  obtain ⟨rfl,request,one,values,_⟩ := enters opening r entered step
  exact ⟨_,opening,entered,request,step,one,values⟩

section Fcntl

-- fcntl.js defines its function as foreign does. fcntl(fd, cmd, arg) passes its three
-- arguments on, an undefined one included, and ndelay starts with fcntl(+fd, F_GETFL).
def fcntlRow : Syscall := ⟨"fcntl","int",["int","int","int"]⟩

def fcntl (l : Loading) (fd cmd : JSValueConst) (arg : Option JSValueConst) : List JSValueConst :=
  (l.closure fcntlRow).arguments [fd,cmd,arg.getD undefinedArgument]

theorem fcntl_literal : fcntlRow.Literal := by decide
theorem fcntl_params : knownTypes (define_types []) fcntlRow.args = some [.sint32,.sint32,.sint32] := by decide +kernel

-- With three integers fcntl enters the native function with them; without the last one
-- it throws and runs nothing, so ndelay never gets to its second call.
theorem fcntl_enters (reached : Reached history m) (loaded : Loaded history l fcntlRow) (fdArgument cmdArgument : JSValueConst) :
    (∀ fd cmd arg v, Passed.Stands fdArgument (.number (.ofInt fd)) → Passed.Stands cmdArgument (.number (.ofInt cmd)) →
      Passed.Stands v (.number (.ofInt arg)) → (∀ n ∈ [fd,cmd,arg], -2^63 ≤ n ∧ n < 2^63) →
      (∃ opening r entered, Step m ⟨.call (fcntl l fdArgument cmdArgument (some v)),opening,r⟩ entered) ∧
      ∀ opening r entered, Step m ⟨.call (fcntl l fdArgument cmdArgument (some v)),opening,r⟩ entered → r = none ∧
        ∃ request, invocations opening = [request] ∧ request.values = [intCell fd,intCell cmd,intCell arg]) ∧
    (∃ log r next, Step m ⟨.call (fcntl l fdArgument cmdArgument none),log,r⟩ next) ∧
    ∀ log r next, Step m ⟨.call (fcntl l fdArgument cmdArgument none),log,r⟩ next →
      r = some .exception ∧ invocations log = [] ∧ next.stack = m.stack ∧ next.ctx.function_list = m.ctx.function_list := by
  have sound := sound_reached reached
  refine ⟨?_,call_possible sound _,?_⟩
  · intro fd cmd arg v first second third ranged
    refine ⟨call_possible sound _,?_⟩
    intro opening r entered step
    have passed : List.Forall₂ (fun p v => Passed.Stands v p) [.number (.ofInt fd),.number (.ofInt cmd),.number (.ofInt arg)]
        [fdArgument,cmdArgument,v] := .cons first (.cons second (.cons third .nil))
    have shaped : List.Forall₂ Shaped [.sint32,.sint32,.sint32] [.number (.ofInt fd),.number (.ofInt cmd),.number (.ofInt arg)] :=
      .cons (shaped_int rfl fd) (.cons (shaped_int rfl cmd) (.cons (shaped_int rfl arg) .nil))
    obtain ⟨returns,request,carried,one,values,stands,_⟩ := loaded.delivers reached fcntl_literal fcntl_params
      (Nat.le_of_ble_eq_true rfl) (passed_convertible passed) step
    refine ⟨returns,request,one,?_⟩
    have held : ∀ n, Passed.number (.ofInt n) ∈ [.number (.ofInt fd),.number (.ofInt cmd),.number (.ofInt arg)] →
        -2^63 ≤ n ∧ n < 2^63 := by
      intro n member
      simp only [List.mem_cons,List.not_mem_nil,or_false,Passed.number.injEq] at member
      rcases member with same | same | same <;> rw [ofInt_injective same] <;> exact ranged _ (by simp)
    rw [values,valuesOf_cells (passed_fits shaped held) passed stands]
    simp only [List.zipWith_cons_cons,List.zipWith_nil_left,cell_int]
  · intro log r next step
    have never : ∀ f, ¬ Invokes m.ctx (fcntl l fdArgument cmdArgument none) f := by
      rintro f ⟨_,convertible⟩
      have last : undefinedArgument ∈ callArguments (fcntl l fdArgument cmdArgument none) := by
        simp [callArguments,fcntl,Closure.arguments,MAX_PARAMETERS]
      exact convertible _ last
    obtain ⟨silent,thrown,stack⟩ := call_refuses sound never step
    exact ⟨thrown,silent,stack,call_list sound step⟩

theorem fcntl_enters_plain : ∃ m opening entered request,
    Step m ⟨.call (fcntl plainLoading (intArgument 3) (intArgument 3) (some (intArgument 0))),opening,none⟩ entered ∧
      invocations opening = [request] ∧ request.values = [.integral 32 3,.integral 32 3,.integral 32 0] ∧
      ∃ log next, Step m ⟨.call (fcntl plainLoading (intArgument 3) (intArgument 3) none),log,some .exception⟩ next := by
  obtain ⟨t,log,ran⟩ := foreign_gives fcntl_literal plainLoading freshMachine.ctx
  obtain ⟨_,loading,reached,loaded⟩ := foreign_promised fcntl_literal fresh_reached rfl rfl (by decide +kernel) ran
  obtain ⟨enters,⟨silent,r,next,refused⟩,throws⟩ := fcntl_enters reached loaded (intArgument 3) (intArgument 3)
  obtain ⟨⟨opening,_,entered,step⟩,delivers⟩ := enters 3 3 0 (intArgument 0) rfl rfl rfl (by decide)
  obtain ⟨rfl,request,one,values⟩ := delivers opening _ entered step
  obtain ⟨rfl,_⟩ := throws silent r next refused
  exact ⟨_,opening,entered,request,step,one,values,silent,next,refused⟩

end Fcntl

end QjsFfi
