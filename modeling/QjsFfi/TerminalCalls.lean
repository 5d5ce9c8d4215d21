import QjsFfi.DeferredDefinitions
import QjsFfi.SocketWrappers
import QjsFfi.ScriptRecords

namespace QjsFfi
open BinaryFloat Activation Histories Automata Records

inductive TermArgument where
  | int (n : ℤ)
  | buffer (b : LiveBuffer)

def TermArgument.text : TermArgument → String | .int _ => "int" | .buffer _ => "buffer"
def TermArgument.type : TermArgument → ffi_type | .int _ => .sint32 | .buffer _ => .pointer
def TermArgument.passed : TermArgument → Passed | .int n => .number (.ofInt n) | .buffer b => .buffer b

def TermArgument.cell : TermArgument → FfiValue | .int n => intCell n | .buffer b => addressCell (some b)

def TermArgument.InRange : TermArgument → Prop | .int n => -2^63 ≤ n ∧ n < 2^63 | .buffer _ => True

structure TermCall where
  row : Syscall
  args : List TermArgument
  listed : row ∈ termFunctions
  shaped : row.args = args.map TermArgument.text
  ranged : ∀ a ∈ args, a.InRange

def Used.through (u : Used) : Option (Syscall × List JSValueConst) :=
  match u.use with | .through row vs => some (row,vs) | .other _ => none

def TermCall.Stands (c : TermCall) (p : Syscall × List JSValueConst) : Prop :=
  p.1 = c.row ∧ List.Forall₂ (fun (a : TermArgument) v => a.passed.Stands v) c.args p.2

def TermCall.entered (l : Loading) (c : TermCall) : Observed :=
  ⟨none,[⟨.code (l.symbol c.row),.sint32,c.args.map TermArgument.cell⟩]⟩

structure Accepts (l : Loading) (rows : List Syscall) : Prop where
  promised : ∀ row ∈ rows, (l.promise row).isSome = true
  small : ∀ row ∈ rows, (l.symbol row).toNat ≤ 2^53

theorem texts_known (args : List TermArgument) :
    knownTypes (define_types []) (args.map TermArgument.text) = some (args.map TermArgument.type) := by
  have each : ∀ a : TermArgument, find_ffi_type (define_types []) (some a.text) = some a.type := by
    have int : find_ffi_type (define_types []) (some "int") = some .sint32 := by decide +kernel
    have buffer : find_ffi_type (define_types []) (some "buffer") = some .pointer := by decide +kernel
    intro a
    cases a with
    | int n => exact int
    | buffer b => exact buffer
  induction args with
  | nil => rfl
  | cons a rest ih => simp_all [knownTypes]

theorem term_cells (args : List TermArgument) :
    List.zipWith Passed.cell (args.map TermArgument.type) (args.map TermArgument.passed) = args.map TermArgument.cell := by
  induction args with
  | nil => rfl
  | cons a rest ih =>
    have own : Passed.cell a.type a.passed = a.cell := by
      cases a with
      | int n => exact cell_int n
      | buffer b => exact cell_buffer b
    rw [List.map_cons,List.map_cons,List.zipWith_cons_cons,own,ih,List.map_cons]

theorem term_fits {args : List TermArgument} (ranged : ∀ a ∈ args, a.InRange) :
    List.Forall₂ (fun t p => ffi_type.format t = none ∧ Passed.Fits t p) (args.map TermArgument.type) (args.map TermArgument.passed) := by
  induction args with
  | nil => exact .nil
  | cons a rest ih =>
    refine .cons ?_ (ih (fun b member => ranged b (List.mem_cons_of_mem _ member)))
    have own := ranged a List.mem_cons_self
    cases a with
    | int n => exact ⟨rfl,.inl ⟨n,rfl,own⟩⟩
    | buffer b => exact ⟨rfl,trivial⟩

theorem promise_parts {row : Syscall} (literal : row.Literal) {l : Loading} (made : l.promise row = some p)
    (present : l.symbol row ≠ 0) (small : (l.symbol row).toNat ≤ 2^53) :
    p.fp = .code (l.symbol row) ∧ knownTypes (define_types []) row.args = some p.params ∧
      find_ffi_type (define_types []) (some (cText row.ret)) = some p.rtype := by
  obtain ⟨h,header,_,fp,_,known,rtype,_⟩ := spelled_parts made
  have number : (argAt (l.given row) 1).value.numeric = some (((l.symbol row).toNat : ℤ) : ℚ) := by
    change (l.fp row).numeric = _
    rw [fp_symbol literal,if_neg present]
    exact JS_NewInt64_numeric small
  refine ⟨?_,?_,?_⟩
  · rw [fp,header_address header number,codeOf,if_neg present]
  · rw [recorded_given literal l] at known
    exact known
  · have name : (argAt (l.given row) 3).cstring = some h.rtype := (defineHeader_parts header).2.2.2
    have text : (argAt (l.given row) 3).cstring = some (cText row.ret) := rfl
    have same : cText row.ret = h.rtype := Option.some.inj (text.symm.trans name)
    rw [same]
    exact rtype

theorem TermCall.promised (c : TermCall) (accepts : Accepts l termFunctions) (present : l.symbol c.row ≠ 0) :
    ∃ p, l.promise c.row = some p ∧ p.fp = .code (l.symbol c.row) ∧ p.params = c.args.map TermArgument.type ∧ p.rtype = .sint32 := by
  obtain ⟨p,made⟩ := Option.isSome_iff_exists.mp (accepts.promised c.row c.listed)
  obtain ⟨fp,params,rtype⟩ := promise_parts (termFunctions_literal c.row c.listed) made present (accepts.small c.row c.listed)
  refine ⟨p,made,fp,?_,?_⟩
  · rw [c.shaped,texts_known] at params
    exact (Option.some.inj params).symm
  · have int : ∀ row ∈ termFunctions, row.ret = "int" := by decide
    have known : find_ffi_type (define_types []) (some (cText "int")) = some .sint32 := by decide +kernel
    rw [int c.row c.listed] at rtype
    exact Option.some.inj (rtype.symm.trans known)

theorem entered_call {s : Purpose} {c : TermCall} (tabled : s.table c.row.name = l.promise c.row) (accepts : Accepts l termFunctions)
    (present : l.symbol c.row ≠ 0) (stands : c.Stands (row,vs)) : (s.call ((l.closure row).arguments vs)).2 = c.entered l := by
  obtain ⟨rfl,stands⟩ := stands
  have literal := termFunctions_literal c.row c.listed
  obtain ⟨p,made,fp,types,result⟩ := c.promised accepts present
  have passed : List.Forall₂ (fun (q : Passed) v => q.Stands v) (c.args.map TermArgument.passed) vs := List.forall₂_map_left_iff.mpr stands
  have few : vs.length ≤ MAX_PARAMETERS := by
    have length := literal.2
    rw [c.shaped,List.length_map,stands.length_eq] at length
    exact length
  have arguments : callArguments ((l.closure c.row).arguments vs) = vs := callArguments_closure _ few
  have named : (argAt ((l.closure c.row).arguments vs) 0).cstring = some c.row.name := name_literal literal l
  have carried : vs.all (fun v => (carrier v).isSome) = true := by
    rw [List.all_eq_true]
    exact fun v member => (convertible_iff v).mpr (passed_convertible passed v member)
  have delivers : ∀ i v, vs[i]? = some v → Stands (carriedAt ((l.closure c.row).arguments vs) i) (v.quantity.getD (.integer 0)) := by
    intro i v given
    obtain ⟨k,carries⟩ := Option.isSome_iff_exists.mp (List.all_eq_true.mp carried v (List.mem_of_getElem? given))
    obtain ⟨q,means,holds⟩ := carrier_stands carries
    rw [carriedAt,arguments,given,Option.bind_some,carries,means,Option.getD_some,Option.getD_some]
    exact holds
  have values : valuesOf p.params (carriedAt ((l.closure c.row).arguments vs)) = c.args.map TermArgument.cell := by
    rw [types,valuesOf_cells (term_fits c.ranged) passed delivers,term_cells]
  simp only [Purpose.call,named,arguments,carried,if_true,tabled,made,values,fp,result]
  rfl

section Runs
variable {l : Loading} {o : List (String × JSValue)} {rows : List Syscall}

-- The module behind the closures of def: a name stands for its row from the first use
-- on, and for nothing before.
structure Tabled (l : Loading) (rows : List Syscall) (d : Deferred) : Prop where
  behind : ∃ history s, Serves history d.machine s ∧ s.initialised = true ∧
    ∀ row ∈ rows, s.table row.name = if d.defined row then l.promise row else none

theorem Tabled.after {flags : Syscall → Bool} (serves : Serves history m s) (initialised : s.initialised = true)
    (table : ∀ row ∈ rows, s.table row.name = if flags row then l.promise row else none) : Tabled l rows ⟨m,flags⟩ :=
  ⟨history,s,serves,initialised,table⟩

def Used.Finds (l : Loading) (rows : List Syscall) (u : Used) : Prop :=
  ∀ row vs, u.through = some (row,vs) → row ∈ rows ∧ ∃ s : Purpose, s.table row.name = l.promise row ∧
    u.observed = (s.call ((l.closure row).arguments vs)).2

theorem through_finds (serves : Serves history m s) (listed : row ∈ rows) (own : s.table row.name = l.promise row)
    (step : Step m ⟨.call ((l.closure row).arguments args),opening,r⟩ next) :
    Used.Finds l rows ⟨.through row args,defines,⟨.call ((l.closure row).arguments args),opening,r⟩⟩ ∧
      ∃ t, Serves (history++[⟨.call ((l.closure row).arguments args),opening,r⟩]) next t ∧ t.table = s.table ∧
        t.initialised = s.initialised := by
  obtain ⟨t,called,after,table,kept⟩ := serves.called step
  refine ⟨?_,t,after,table,kept⟩
  intro other vs same
  cases same
  exact ⟨listed,s,own,(congrArg Prod.snd called).symm⟩

theorem Tabled.step (names : (rows.map Syscall.name).Nodup) (literal : ∀ row ∈ rows, row.Literal)
    (given : ∀ row ∈ rows, deferredGiven l o row = l.given row) (tabled : Tabled l rows d) (step : DeferredStep l o rows d u next)
    (apart : ∀ row ∈ rows, u.use.declared ≠ some row.name) : Tabled l rows next ∧ u.Finds l rows := by
  obtain ⟨history,s,serves,initialised,table⟩ := tabled.behind
  cases step with
  | first listed new defines calls =>
    rename_i row log answer middle args opening r m
    have unused : s.table row.name = none := by rw [table row listed,new]; rfl
    rw [given row listed] at defines
    have between := serves.settles (literal row listed) initialised defines
    have settled : ∀ other ∈ rows, (s.settled l [row]).table other.name =
        if Function.update d.defined row true other then l.promise other else none := by
      intro other member
      have alone : l.promised [row] other.name = if row.name = other.name then l.promise row else none := promised_cons l row [] _
      change (s.table other.name).or (l.promised [row] other.name) = _
      rw [alone]
      by_cases own : other = row
      · subst own
        simp [unused]
      · have different : row.name ≠ other.name := fun same => own (row_unique names listed member same).symm
        simp [Function.update_of_ne own,different,table other member]
    have own : (s.settled l [row]).table row.name = l.promise row := by simpa using settled row listed
    obtain ⟨finds,t,after,same,kept⟩ := through_finds between listed own calls
    exact ⟨.after after (kept.trans initialised) (fun other member => same ▸ settled other member),finds⟩
  | again listed old calls =>
    rename_i row args opening r m
    have own : s.table row.name = l.promise row := by rw [table row listed,old]; rfl
    obtain ⟨finds,t,after,same,kept⟩ := through_finds serves listed own calls
    exact ⟨.after after (kept.trans initialised) (fun other member => same ▸ table other member),finds⟩
  | other moved =>
    obtain ⟨t,answer,after⟩ := serves.step moved
    obtain ⟨kept,same⟩ := next_keeps answer
    refine ⟨.after after (kept initialised) ?_,nofun⟩
    intro other member
    rw [same other.name (apart other member)]
    exact table other member

theorem Tabled.run (names : (rows.map Syscall.name).Nodup) (literal : ∀ row ∈ rows, row.Literal)
    (given : ∀ row ∈ rows, deferredGiven l o row = l.given row) (tabled : Tabled l rows d) (ran : Runs (DeferredStep l o rows) d used next)
    (apart : ∀ u ∈ used, ∀ row ∈ rows, u.use.declared ≠ some row.name) : Tabled l rows next ∧ ∀ u ∈ used, u.Finds l rows := by
  induction ran with
  | nil => exact ⟨tabled,by simp⟩
  | snoc prior last ih =>
    obtain ⟨before,earlier⟩ := ih (fun u member => apart u (List.mem_append_left _ member))
    obtain ⟨after,own⟩ := before.step names literal given last (apart _ (List.mem_append_right _ List.mem_cons_self))
    refine ⟨after,?_⟩
    intro u member
    rcases List.mem_append.mp member with old | new
    · exact earlier u old
    · rwa [List.mem_singleton.mp new]

theorem term_uses {used : List Used} {calls : List TermCall} (accepts : Accepts l termFunctions) (present : ∀ row ∈ termFunctions, l.symbol row ≠ 0)
    (finds : ∀ u ∈ used, u.Finds l termFunctions) (asked : List.Forall₂ TermCall.Stands calls (used.filterMap Used.through)) :
    (used.filter (fun u => u.through.isSome)).map Used.observed = calls.map (TermCall.entered l) := by
  induction used generalizing calls with
  | nil =>
    cases asked
    rfl
  | cons u rest ih =>
    have others := fun v member => finds v (List.mem_cons_of_mem u member)
    cases through : u.through with
    | none =>
      rw [List.filterMap_cons_none through] at asked
      rw [List.filter_cons_of_neg (by simp [through])]
      exact ih others asked
    | some p =>
      rw [List.filterMap_cons_some through] at asked
      cases asked with
      | cons own later =>
        rename_i c calls
        obtain ⟨_,s,tabled,observed⟩ := finds u List.mem_cons_self p.1 p.2 through
        have entered := entered_call (own.1 ▸ tabled) accepts (present c.row c.listed) own
        rw [List.filter_cons_of_pos (by simp [through]),List.map_cons,List.map_cons,ih others later,observed,entered]

end Runs

structure TermReady (l : Loading) (o : List (String × JSValue)) (d : Deferred) : Prop where
  given : ∀ row ∈ termFunctions, deferredGiven l o row = l.given row
  present : ∀ row ∈ termFunctions, l.symbol row ≠ 0
  tabled : Tabled l termFunctions d

theorem term_ready (reached : Reached history m) (initialised : history.any Record.initialises = true)
    (free : ∀ row ∈ termFunctions, firstDefine history row.name = none)
    (addresses : Gives (cterm l cterm_names) m.ctx (some o) s log) : TermReady l o ⟨⟨s,m.stack⟩,fun _ => false⟩ := by
  obtain ⟨purpose,_,serves⟩ := module_realises.run serves_start reached
  rw [List.nil_append] at serves
  have ready : purpose.initialised = true := serves.initialised.trans initialised
  obtain ⟨table,found,opening,after⟩ := serves.cterm addresses
  refine ⟨?_,?_,.after after ready ?_⟩
  · intro row listed
    rw [table]
    exact deferredGiven_given (termFunctions_known row listed) l
  · intro row listed absent
    have symbol : l.address row.name = if l.symbol row = 0 then .null else JS_NewInt64 (l.symbol row) :=
      fp_symbol (termFunctions_literal row listed) l
    rw [if_pos absent] at symbol
    exact found row.name (termFunctions_known row listed) symbol
  · intro row listed
    have missing : m.ctx.function row.name = none := (sound_reached reached).unknown row.name (free row listed)
    have same := serves.function row.name
    exact Option.isNone_iff_eq_none.mp (by simpa [missing] using same.symm)

section Ready
variable {l : Loading} {o : List (String × JSValue)} {d : Deferred} (ready : TermReady l o d)
include ready

theorem TermReady.enters {used : List Used} {calls : List TermCall} (accepts : Accepts l termFunctions)
    (ran : Runs (DeferredStep l o termFunctions) d used next) (apart : ∀ u ∈ used, ∀ row ∈ termFunctions, u.use.declared ≠ some row.name)
    (asked : List.Forall₂ TermCall.Stands calls (used.filterMap Used.through)) :
    (used.filter (fun u => u.through.isSome)).map Used.observed = calls.map (TermCall.entered l) := by
  obtain ⟨_,finds⟩ := ready.tabled.run termFunctions_names termFunctions_literal ready.given ran apart
  exact term_uses accepts ready.present finds asked

theorem TermReady.possible (ran : Runs (DeferredStep l o termFunctions) d used next)
    (apart : ∀ u ∈ used, ∀ row ∈ termFunctions, u.use.declared ≠ some row.name) (ps : List (Syscall × List JSValueConst))
    (listed : ∀ p ∈ ps, p.1 ∈ termFunctions) :
    ∃ more last, Runs (DeferredStep l o termFunctions) next more last ∧ more.map Used.use = ps.map (fun p => .through p.1 p.2) := by
  obtain ⟨after,_⟩ := ready.tabled.run termFunctions_names termFunctions_literal ready.given ran apart
  obtain ⟨_,_,serves,_⟩ := after.behind
  exact uses_possible serves.reached ps listed

end Ready

-- In any run in which the script leaves the names of term.js to its closures when it
-- defines functions, the native functions are entered through the closures once for each
-- use, in the order of the uses, with exactly the values the script gave.
theorem term_invocations {calls : List TermCall} (reached : Reached history m) (initialised : history.any Record.initialises = true)
    (free : ∀ row ∈ termFunctions, firstDefine history row.name = none) (accepts : Accepts l termFunctions)
    (addresses : Gives (cterm l cterm_names) m.ctx (some o) s log)
    (ran : Runs (DeferredStep l o termFunctions) ⟨⟨s,m.stack⟩,fun _ => false⟩ used d)
    (apart : ∀ u ∈ used, ∀ row ∈ termFunctions, u.use.declared ≠ some row.name)
    (asked : List.Forall₂ TermCall.Stands calls (used.filterMap Used.through)) :
    (used.filter (fun u => u.through.isSome)).map Used.observed = calls.map (TermCall.entered l) ∧
      ∀ ps : List (Syscall × List JSValueConst), (∀ p ∈ ps, p.1 ∈ termFunctions) →
        ∃ more next, Runs (DeferredStep l o termFunctions) d more next ∧ more.map Used.use = ps.map (fun p => .through p.1 p.2) := by
  have ready := term_ready reached initialised free addresses
  exact ⟨ready.enters accepts ran apart asked,ready.possible ran apart⟩

theorem plain_found : ∀ name ∈ cterm_names, ¬ (plainLoading.address name = .null ∨ plainLoading.address name = .exception) := by
  decide +kernel

theorem plain_free : ∀ row ∈ termFunctions, firstDefine [initialisation] row.name = none := by decide

theorem plain_accepts : Accepts plainLoading termFunctions := ⟨by decide +kernel,by decide +kernel⟩

theorem uses_through {used : List Used} {ps : List (Syscall × List JSValueConst)}
    (uses : used.map Used.use = ps.map (fun p => .through p.1 p.2)) :
    used.filterMap Used.through = ps ∧ ∀ u ∈ used, u.use.declared = none := by
  induction ps generalizing used with
  | nil => simp [List.map_eq_nil_iff.mp uses]
  | cons p rest ih =>
    obtain ⟨u,later,rfl,use,onward⟩ := List.map_eq_cons_iff.mp uses
    obtain ⟨through,undeclared⟩ := ih onward
    have own : u.through = some p := by rw [Used.through,use]
    refine ⟨by rw [List.filterMap_cons_some own,through],?_⟩
    intro v member
    rcases List.mem_cons.mp member with rfl | old
    · rw [use]
      rfl
    · exact undeclared v old

theorem term_invocations_tcdrain : ∃ (c : TermCall) (o : List (String × JSValue)) (s : Ctx) (used : List Used) (d : Deferred),
    c.args = [.int 1] ∧ Runs (DeferredStep plainLoading o termFunctions) ⟨⟨s,[]⟩,fun _ => false⟩ used d ∧
      (used.filter (fun u => u.through.isSome)).map Used.observed = [c.entered plainLoading] := by
  obtain ⟨s,_,addresses⟩ := cterm_gives plainLoading plain_found freshMachine.ctx
  have ready := term_ready fresh_reached rfl plain_free addresses
  let c : TermCall := ⟨tcdrain,[.int 1],by decide,rfl,by simp [TermArgument.InRange]⟩
  have stands : c.Stands (tcdrain,[intArgument 1]) := ⟨rfl,.cons rfl .nil⟩
  obtain ⟨used,d,ran,uses⟩ := ready.possible .nil (by simp) [(tcdrain,[intArgument 1])] (by simpa using c.listed)
  obtain ⟨through,undeclared⟩ := uses_through uses
  have apart : ∀ u ∈ used, ∀ row ∈ termFunctions, u.use.declared ≠ some row.name := fun u member => by simp [undeclared u member]
  have asked : List.Forall₂ TermCall.Stands [c] (used.filterMap Used.through) := through ▸ .cons stands .nil
  exact ⟨c,_,s,used,d,rfl,ran,(term_invocations fresh_reached rfl plain_free plain_accepts addresses ran apart asked).1⟩

-- SetupTerm of telnet.js.
def ISIG : JSNumber := some 0x01
def ECHOE : JSNumber := some 0x10
def ECHOK : JSNumber := some 0x20
def ECHOCTL : JSNumber := some 0x0200
def ECHOKE : JSNumber := some 0x0800
def TCSANOW : ℤ := 0
def B115200 : ℤ := 0x1002

def bitOr (a b : JSNumber) : JSNumber := some (ToInt32 a ||| ToInt32 b).toInt
def bitAnd (a b : JSNumber) : JSNumber := some (ToInt32 a &&& ToInt32 b).toInt

-- ~n >>> 0
def not_ (n : JSNumber) : JSNumber := some (unsigned (some (~~~ ToInt32 n).toInt) : ℤ)

-- tattr.c_lflag &= not(ISIG | ECHOE | ECHOK | ECHOCTL | ECHOKE)
def quieted (tattr : termios) : termios :=
  termios.set_c_lflag tattr (bitAnd (some (termios.c_lflag tattr : ℤ)) (not_ (bitOr (bitOr (bitOr (bitOr ISIG ECHOE) ECHOK) ECHOCTL) ECHOKE)))

theorem quieted_flags (tattr : termios) :
    termios.c_lflag (quieted tattr) = (BitVec.ofNat 32 (termios.c_lflag tattr) &&& ~~~ 0xA31#32).toNat := by
  have flags : ToInt32 (bitOr (bitOr (bitOr (bitOr ISIG ECHOE) ECHOK) ECHOCTL) ECHOKE) = 0xA31#32 := by decide +kernel
  have mask : ToInt32 (not_ (bitOr (bitOr (bitOr (bitOr ISIG ECHOE) ECHOK) ECHOCTL) ECHOKE)) = ~~~ 0xA31#32 := by
    rw [not_,flags]
    decide +kernel
  have small := BitVec.isLt (BitVec.ofNat 32 (termios.c_lflag tattr) &&& ~~~ 0xA31#32)
  rw [quieted,termios.c_lflag,termios.set_c_lflag,store_own,bitAnd,mask,unsigned_bits]
  exact Nat.mod_eq_of_lt small

theorem quieted_exact (tattr : termios) :
    (∀ k, (termios.c_lflag (quieted tattr)).testBit k = ((termios.c_lflag tattr).testBit k && !decide (k ∈ [0,4,5,9,11]))) ∧
      ∀ i, i < 12 ∨ 16 ≤ i → (quieted tattr).bytes[i]? = tattr.bytes[i]? := by
  refine ⟨?_,?_⟩
  · intro k
    rw [quieted_flags,BitVec.testBit_toNat,BitVec.getLsbD_and,BitVec.getLsbD_not,BitVec.getLsbD_ofNat]
    by_cases below : k < 32
    · have flags : ∀ k < 32, (0xA31#32).getLsbD k = decide (k ∈ [0,4,5,9,11]) := by decide
      rw [flags k below]
      simp [below]
    · have small : termios.c_lflag tattr < 2^32 := read_small tattr .c_lflag
      have clear : (termios.c_lflag tattr).testBit k = false := by
        apply Nat.testBit_lt_two_pow
        exact lt_of_lt_of_le small (Nat.pow_le_pow_right (by decide) (by omega))
      simp [clear,below]
  · intro i outside
    apply store_frame
    rintro ⟨above,below⟩
    have first : 12 ≤ i := above
    have last : i < 12+4 := below
    omega

structure Tattr where
  data : Word
  present : data ≠ 0

def Tattr.holding (a : Tattr) (tattr : termios) : LiveBuffer := ⟨a.data,tattr.bytes,a.present⟩

-- The uses that SetupTerm makes of term.js: tcgetattr has left got in tattr, and the
-- later two functions find whatever is there by then.
def setupCalls (a : Tattr) (old got later last : termios) : List TermCall :=
  [⟨⟨"tcgetattr","int",["int","buffer"]⟩,[.int 0,.buffer (a.holding old)],by decide,rfl,by simp [TermArgument.InRange]⟩,
   ⟨⟨"tcsetattr","int",["int","int","buffer"]⟩,[.int 0,.int TCSANOW,.buffer (a.holding (quieted got))],by decide,rfl,
     by simp [TermArgument.InRange,TCSANOW]⟩,
   ⟨⟨"cfsetospeed","int",["buffer","int"]⟩,[.buffer (a.holding later),.int B115200],by decide,rfl,by simp [TermArgument.InRange,B115200]⟩,
   ⟨⟨"cfgetospeed","int",["buffer"]⟩,[.buffer (a.holding last)],by decide,rfl,by simp [TermArgument.InRange]⟩]

def Loading.enters (l : Loading) (name : String) (values : List FfiValue) : Observed :=
  ⟨none,[⟨.code (l.host.dlsym (l.RTLD_DEFAULT.toInt64.getD 0) name),.sint32,values⟩]⟩

-- SetupTerm hands the terminal back what tcgetattr has left in tattr, with the five
-- flags cleared in it and nothing else changed.
theorem setup_term {a : Tattr} {old got later last : termios} (reached : Reached history m)
    (initialised : history.any Record.initialises = true) (free : ∀ row ∈ termFunctions, firstDefine history row.name = none)
    (accepts : Accepts l termFunctions) (addresses : Gives (cterm l cterm_names) m.ctx (some o) s log)
    (ran : Runs (DeferredStep l o termFunctions) ⟨⟨s,m.stack⟩,fun _ => false⟩ used d)
    (apart : ∀ u ∈ used, ∀ row ∈ termFunctions, u.use.declared ≠ some row.name)
    (asked : List.Forall₂ TermCall.Stands (setupCalls a old got later last) (used.filterMap Used.through)) :
    (used.filter (fun u => u.through.isSome)).map Used.observed =
      [l.enters "tcgetattr" [intCell 0,.pointer a.data],
       l.enters "tcsetattr" [intCell 0,intCell TCSANOW,.pointer a.data],
       l.enters "cfsetospeed" [.pointer a.data,intCell B115200],
       l.enters "cfgetospeed" [.pointer a.data]] ∧
    (a.holding (quieted got)).bytes.length = 60 ∧
    (∀ k, (termios.c_lflag (quieted got)).testBit k = ((termios.c_lflag got).testBit k && !decide (k ∈ [0,4,5,9,11]))) ∧
    ∀ i, i < 12 ∨ 16 ≤ i → (a.holding (quieted got)).bytes[i]? = got.bytes[i]? := by
  have ready := term_ready reached initialised free addresses
  exact ⟨ready.enters accepts ran apart asked,(quieted got).whole,quieted_exact got⟩

def TermArgument.argument : TermArgument → JSValueConst
  | .int n => intArgument (.ofInt 32 n)
  | .buffer b => (JSValue.arrayBuffer ⟨some b.data,b.bytes⟩).argument

theorem setup_term_plain : ∃ (o : List (String × JSValue)) (s : Ctx) (used : List Used) (d : Deferred),
    Runs (DeferredStep plainLoading o termFunctions) ⟨⟨s,[]⟩,fun _ => false⟩ used d ∧
      (used.filter (fun u => u.through.isSome)).map Used.observed =
        [plainLoading.enters "tcgetattr" [intCell 0,.pointer 0x3000],
         plainLoading.enters "tcsetattr" [intCell 0,intCell TCSANOW,.pointer 0x3000],
         plainLoading.enters "cfsetospeed" [.pointer 0x3000,intCell B115200],
         plainLoading.enters "cfgetospeed" [.pointer 0x3000]] := by
  obtain ⟨s,_,addresses⟩ := cterm_gives plainLoading plain_found freshMachine.ctx
  have ready := term_ready fresh_reached rfl plain_free addresses
  let a : Tattr := ⟨0x3000,by decide⟩
  let old : termios := Image.zeros termiosLayout
  let got : termios := ⟨List.replicate 60 255,List.length_replicate⟩
  let calls := setupCalls a old got (quieted got) (quieted got)
  let ps := calls.map (fun c => (c.row,c.args.map TermArgument.argument))
  obtain ⟨used,d,ran,uses⟩ := ready.possible .nil (by simp) ps (by
    intro p member
    obtain ⟨c,_,rfl⟩ := List.mem_map.mp member
    exact c.listed)
  obtain ⟨through,undeclared⟩ := uses_through uses
  have apart : ∀ u ∈ used, ∀ row ∈ termFunctions, u.use.declared ≠ some row.name := fun u member => by simp [undeclared u member]
  have asked : List.Forall₂ TermCall.Stands calls (used.filterMap Used.through) := by
    rw [through]
    refine .cons ⟨rfl,.cons ?_ (.cons ?_ .nil)⟩ (.cons ⟨rfl,.cons ?_ (.cons ?_ (.cons ?_ .nil))⟩ (.cons ⟨rfl,.cons ?_ (.cons ?_ .nil)⟩
      (.cons ⟨rfl,.cons ?_ .nil⟩ .nil))) <;> rfl
  exact ⟨_,s,used,d,ran,(setup_term fresh_reached rfl plain_free plain_accepts addresses ran apart asked).1⟩

end QjsFfi
