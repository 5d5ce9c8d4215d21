import QjsFfi.IntegerTransport

namespace QjsFfi
open BinaryFloat Activation Histories

structure CType where
  width : ℕ
  signed : Bool
  deriving DecidableEq

def CType.InRange (c : CType) (n : ℤ) : Prop :=
  if c.signed then -2^(c.width-1) ≤ n ∧ n < 2^(c.width-1) else 0 ≤ n ∧ n < 2^c.width

-- The C-like names of define_types with the types C has under them where long
-- and pointers have 64 bits.
def cTypes : List (String × CType) :=
  [("int",⟨32,true⟩),("long",⟨64,true⟩),("short",⟨16,true⟩),("char",⟨8,true⟩),("size_t",⟨64,false⟩),
   ("unsigned char",⟨8,false⟩),("unsigned int",⟨32,false⟩),("unsigned long",⟨64,false⟩),("void *",⟨64,false⟩),
   ("char *",⟨64,false⟩)]

def ffi_type.cType : ffi_type → Option CType
  | .sint8 => some ⟨8,true⟩
  | .sint16 => some ⟨16,true⟩
  | .sint32 => some ⟨32,true⟩
  | .sint64 => some ⟨64,true⟩
  | .uint8 => some ⟨8,false⟩
  | .uint16 => some ⟨16,false⟩
  | .uint32 => some ⟨32,false⟩
  | .uint64 | .pointer => some ⟨64,false⟩
  | _ => none

def ffi_type.reads (t : ffi_type) : FfiValue → Option ℤ
  | .integral _ bits => some (if t.signed then bits.toInt else bits.toNat)
  | .pointer address => some address.toNat
  | _ => none

def CType.Returns (c : CType) (native : NativeResult) (n : ℤ) : Prop :=
  native.integer.setWidth c.width = BitVec.ofInt c.width n

def DefinedBy (history : List Record) (name : String) (ffi : Libffi) (args : List JSValueConst) : Prop :=
  ∃ r, firstDefine history name = some r ∧ r.action = .define ffi args

theorem signed_bounds (v : BitVec w) : -2^(w-1) ≤ v.toInt ∧ v.toInt < 2^(w-1) := ⟨BitVec.le_toInt v,BitVec.toInt_lt⟩

theorem signed_kept (w : ℕ) (n : ℤ) (positive : 0 < w) :
    (BitVec.ofInt w n).toInt = n ↔ -2^(w-1) ≤ n ∧ n < 2^(w-1) := by
  constructor
  · intro same
    have bounds := signed_bounds (BitVec.ofInt w n)
    rwa [same] at bounds
  · intro ⟨lower,upper⟩
    exact BitVec.toInt_ofInt_eq_self positive lower upper

theorem unsigned_kept (w : ℕ) (n : ℤ) : ((BitVec.ofInt w n).toNat : ℤ) = n ↔ 0 ≤ n ∧ n < 2^w := by
  constructor
  · intro same
    have upper := (BitVec.ofInt w n).isLt
    rw [← same]
    exact ⟨Int.natCast_nonneg _,by exact_mod_cast upper⟩
  · intro ⟨lower,upper⟩
    exact toNat_ofInt_range w lower upper

theorem cType_range {t : ffi_type} (plain : t.cType = some c) (n : ℤ) : t.InRange n ↔ c.InRange n := by
  cases t <;> cases plain <;> simp [ffi_type.InRange,CType.InRange]

theorem reads_conv {t : ffi_type} (plain : t.cType = some c) (q : Quantity) :
    t.reads (conv t q) = some q.whole ↔ c.InRange q.whole := by
  cases t <;> cases plain
  case sint8 | sint16 | sint32 | sint64 =>
    simpa only [ffi_type.reads,conv,ffi_type.signed,CType.InRange,if_true,Option.some.injEq] using signed_kept _ _ (by decide)
  case pointer => simpa [ffi_type.reads,conv,CType.InRange] using unsigned_kept 64 q.whole
  all_goals
    simpa only [ffi_type.reads,conv,ffi_type.signed,CType.InRange,Bool.false_eq_true,if_false,Option.some.injEq]
      using unsigned_kept _ _

theorem cTypes_declared : ∀ x ∈ cTypes, (find_ffi_type (define_types []) (some x.1)).bind ffi_type.cType =
    some (if x.1 = "size_t" then ⟨32,false⟩ else x.2) := by decide +kernel

theorem cTypes_range (listed : (name,c) ∈ cTypes) (range : c.InRange n) :
    ∃ t d, find_ffi_type (define_types []) (some name) = some t ∧ t.cType = some d ∧ d.signed = c.signed ∧
      d.width ≤ c.width ∧ (d.InRange n ↔ (name = "size_t" → n < 2^32)) := by
  obtain ⟨t,known,plain⟩ := Option.bind_eq_some_iff.mp (cTypes_declared _ listed)
  refine ⟨t,_,known,plain,?_⟩
  by_cases narrow : name = "size_t"
  · have wide : c = ⟨64,false⟩ := by
      subst narrow
      simpa [cTypes] using listed
    subst wide
    simp only [CType.InRange,Bool.false_eq_true,if_false] at range
    simp [CType.InRange,narrow,range.1]
  · simp [narrow,range]

theorem DefinedBy.declares (reached : Reached history m) (first : DefinedBy history name ffi args) :
    ∃ addr p h, m.ctx.function name = some (nodeOf addr p) ∧ defineHeader args = some h ∧
      find_ffi_type (define_types []) (some h.rtype) = some p.rtype ∧
      ∀ (i : ℕ) declared, (recorded args)[i]? = some declared →
        p.params[i]? = find_ffi_type (define_types []) (some declared) := by
  obtain ⟨r,first,action⟩ := first
  obtain ⟨addr,p,prototype,found⟩ := (sound_reached reached).known name r first
  simp only [Record.prototype,action] at prototype
  obtain ⟨h,header,_,_,_,known,result,_⟩ := spelled_parts prototype
  refine ⟨addr,p,h,found,header,result,?_⟩
  intro i declared recorded
  have types := congrArg (fun ts => ts[i]?) (knownTypes_iff.mp known)
  simp only [List.getElem?_map,recorded,Option.map_some] at types
  cases listed : p.params[i]? with
  | none => simp [listed] at types
  | some t => simpa [listed] using types.symm

theorem parameter_reads {i : ℕ} {n : ℤ} (reached : Reached history m) (first : DefinedBy history name ffi args)
    (declared : (recorded args)[i]? = some type) (known : find_ffi_type (define_types []) (some type) = some t)
    (plain : t.cType = some c) (exact : n.natAbs ≤ 2^53) (named : (argAt given 0).cstring = some name)
    (passed : (callArguments given)[i]? = some v) (number : v.value.numeric = some (n : ℚ))
    (step : Step m ⟨.call given,opening,none⟩ entered) :
    ∃ request value, invocations opening = [request] ∧ request.values[i]? = some value ∧
      (t.reads value = some n ↔ c.InRange n) := by
  obtain ⟨addr,p,h,found,_,_,params⟩ := first.declares reached
  cases step with
  | entered ran =>
    have outcome := call_parts (sound_reached reached).registered ran
    obtain ⟨_,_,_,_,_,one⟩ := outcome.invokes
    obtain ⟨arg,stands,values⟩ := outcome.delivers named found (nodeOf_types addr p)
    obtain ⟨_,q,means,rfl,truncated⟩ := numeric_quantity number
    have own : argumentAt given i = q := by simp [argumentAt,passed,means]
    have delivers : delivered t (arg i) = conv t q := by
      refine delivered_conv (own ▸ stands i) ?_
      intro d _ same
      exact ⟨q.whole,truncated d same,by omega,by omega⟩
    refine ⟨_,conv t q,one,?_,reads_conv plain q⟩
    rw [values,valuesOf,List.getElem?_mapIdx,params i type declared,known,Option.map_some,delivers]

theorem small_result {x : ℤ} (small : x.natAbs ≤ 2^53) :
    (JS_NewFloat64 ((Number.ofInt extended80 x).convert binary64)).numeric = some (x : ℚ) := by
  have same : ((Number.ofInt extended80 x).convert binary64).datum = .ofInt x := by
    change round binary64 (Number.ofInt extended80 x).datum = .ofInt x
    rw [ofInt_datum (Nat.le_trans small (by decide))]
    exact ofInt_datum (f := binary64) small
  rw [JS_NewFloat64_numeric,same,toRat_ofInt]

theorem ofInt_low {w v : ℕ} (narrow : w ≤ v) (n : ℤ) : (BitVec.ofInt v n).setWidth w = BitVec.ofInt w n := by
  rw [← BitVec.signExtend_eq_setWidth_of_le _ narrow,BitVec.signExtend]
  apply BitVec.eq_of_toInt_eq
  rw [BitVec.toInt_ofInt,BitVec.toInt_ofInt,BitVec.toInt_ofInt]
  exact Int.bmod_bmod_of_dvd (Nat.pow_dvd_pow 2 narrow)

theorem register_range (c : CType) (bits : BitVec c.width) : c.InRange (if c.signed then bits.toInt else bits.toNat) := by
  unfold CType.InRange
  split
  · exact signed_bounds bits
  · exact ⟨Int.natCast_nonneg _,by exact_mod_cast bits.isLt⟩

theorem narrow_exact {c : CType} (small : c.width ≤ 32) (range : c.InRange n) : n.natAbs ≤ 2^53 := by
  have half : (2 : ℤ)^(c.width-1) ≤ 2^32 := pow_le_pow_right₀ (by omega) (by omega)
  have whole : (2 : ℤ)^c.width ≤ 2^32 := pow_le_pow_right₀ (by omega) small
  unfold CType.InRange at range
  split at range <;> omega

theorem narrow_result {t : ffi_type} {d : CType} (plain : t.cType = some d) (small : d.width ≤ 32) (native : NativeResult) :
    ∃ x, resultOf t native = .ofInt extended80 x ∧ d.InRange x := by
  refine ⟨_,?_,register_range d (native.integer.setWidth d.width)⟩
  cases t <;> cases plain
  case sint64 | uint64 | pointer => simp at small
  all_goals rfl

theorem wide_range {t : ffi_type} {d : CType} (plain : t.cType = some d) (wide : 32 < d.width) (sign : d.signed = false → 0 ≤ n)
    (exact : n.natAbs ≤ 2^53) : d.InRange n := by
  cases t <;> cases plain <;> simp only [CType.InRange,if_true,Bool.false_eq_true,if_false]
  case sint64 => omega
  case uint64 | pointer =>
    have nonneg := sign rfl
    omega
  all_goals simp at wide

theorem result_range {t : ffi_type} {d : CType} {n : ℤ} (plain : t.cType = some d) (sign : d.signed = false → 0 ≤ n)
    (exact : n.natAbs ≤ 2^53)
    (result : (JS_NewFloat64 ((resultOf t native).convert binary64)).numeric = some (n : ℚ)) : d.InRange n := by
  by_cases small : d.width ≤ 32
  · obtain ⟨x,same,range⟩ := narrow_result plain small native
    rw [same,small_result (narrow_exact small range),Option.some.injEq] at result
    obtain rfl : x = n := by exact_mod_cast result
    exact range
  · exact wide_range plain (Nat.lt_of_not_le small) sign exact

theorem result_keeps {t : ffi_type} {d c : CType} {n : ℤ} (plain : t.cType = some d) (narrow : d.width ≤ c.width)
    (sign : d.signed = c.signed) (range : c.InRange n) (exact : n.natAbs ≤ 2^53) (returns : c.Returns native n) :
    (JS_NewFloat64 ((resultOf t native).convert binary64)).numeric = some (n : ℚ) ↔ d.InRange n := by
  constructor
  · intro result
    refine result_range plain ?_ exact result
    intro unsigned
    simp only [CType.InRange,← sign,unsigned,Bool.false_eq_true,if_false] at range
    exact range.1
  · intro kept
    have low : native.integer.setWidth d.width = BitVec.ofInt d.width n := by
      rw [← BitVec.setWidth_setWidth_of_le _ narrow,returns,ofInt_low narrow]
    have echo : Echoes ⟨0,.dummy_,t,[conv t (.integer n)]⟩ native := by
      cases t <;> cases plain <;> simpa [Echoes,conv,Quantity.whole] using low
    have back := echo_result (q := .integer n) ((cType_range plain n).mpr kept) exact echo
    rw [JS_NewFloat64_numeric,back]
    change Datum.toRat (Number.ofInt binary64 n).datum = _
    rw [ofInt_datum exact,toRat_ofInt]

theorem result_returned (reached : Reached history m) (first : DefinedBy history name ffi args)
    (named : (argAt given 0).cstring = some name) (step : Step m ⟨.call given,opening,none⟩ entered)
    (nested : Runs Step entered inside suspended) (level : suspended.stack = entered.stack)
    (back : Step suspended ⟨.returned native,closing,some value⟩ after) :
    ∃ h t, defineHeader args = some h ∧ find_ffi_type (define_types []) (some h.rtype) = some t ∧
      value = JS_NewFloat64 ((resultOf t native).convert binary64) := by
  obtain ⟨addr,p,h,found,header,known,_⟩ := first.declares reached
  have sound := sound_reached reached
  have later := sound_reached (Runs.append (.snoc reached step) nested)
  obtain ⟨frame,innermost,result⟩ := return_value later back
  cases step with
  | entered ran =>
    obtain ⟨addr',q,⟨⟨own,text,registered⟩,_⟩,_,rtype,_⟩ := (call_parts sound.registered ran).invokes
    rw [named,Option.some.injEq] at text
    subst text
    have same : p = q := nodeOf_injective (Option.some.inj (found.symm.trans registered))
    rw [level] at innermost
    obtain ⟨rfl,_⟩ := List.cons.inj innermost
    exact ⟨h,p.rtype,header,known,by rw [result,rtype,same]⟩

-- Every alias carries the integers of its C type both ways; size_t, which the
-- table binds to ffi_type_uint, does so below 2^32 only.
theorem aliases_carry {n : ℤ} (reached : Reached history m) (listed : (name,c) ∈ cTypes) (range : c.InRange n)
    (exact : n.natAbs ≤ 2^53) (first : DefinedBy history function ffi args)
    (named : (argAt given 0).cstring = some function) (step : Step m ⟨.call given,opening,none⟩ entered) :
    (∀ (i : ℕ) v, (recorded args)[i]? = some name → (callArguments given)[i]? = some v →
      v.value.numeric = some (n : ℚ) →
      ∃ t request value, find_ffi_type (define_types []) (some name) = some t ∧ invocations opening = [request] ∧
        request.values[i]? = some value ∧ (t.reads value = some n ↔ (name = "size_t" → n < 2^32))) ∧
    ∀ h inside suspended native closing value after, defineHeader args = some h → h.rtype = name →
      Runs Step entered inside suspended → suspended.stack = entered.stack → c.Returns native n →
      Step suspended ⟨.returned native,closing,some value⟩ after →
      (value.numeric = some (n : ℚ) ↔ (name = "size_t" → n < 2^32)) := by
  obtain ⟨t,d,known,plain,sign,narrow,kept⟩ := cTypes_range listed range
  refine ⟨?_,?_⟩
  · intro i v declared passed number
    obtain ⟨request,value,one,read,exactly⟩ :=
      parameter_reads reached first declared known plain exact named passed number step
    exact ⟨t,request,value,known,one,read,exactly.trans kept⟩
  · intro h inside suspended native closing value after header rtype nested level returns back
    obtain ⟨g,u,same,result,rfl⟩ := result_returned reached first named step nested level back
    obtain rfl : g = h := Option.some.inj (same.symm.trans header)
    obtain rfl : u = t := by
      rw [rtype,known,Option.some.injEq] at result
      exact result.symm
    exact (result_keeps plain narrow sign range exact returns).trans kept

def mallocDefine : List JSValueConst :=
  [stringArgument "malloc" nameCopy,intArgument 0x2000,nullArgument,stringArgument "void *" resultCopy,
   stringArgument "size_t" paramCopy]
def mallocPrototype : Prototype := ⟨"malloc",.code 0x2000,.FFI_DEFAULT_ABI,.pointer,[.uint32]⟩
def mallocLog : List Event :=
  [.acquire 66 nameCopy,.acquire 67 resultCopy,.acquire 68 paramCopy,
   .malloc 69,.malloc 70,.malloc 71,.ffi_prep_cif mallocPrototype.cif true,.release 66,.release 67,.release 68]
def mallocDefined : Record := ⟨.define plainLibffi mallocDefine,mallocLog,some (.bool true)⟩
def mallocMachine : Machine := ⟨⟨define_types [],[nodeOf 69 mallocPrototype],false,72⟩,[]⟩
def mallocHistory : List Record := [initialisation,mallocDefined]

theorem malloc_reached : Reached mallocHistory mallocMachine := .snoc fresh_reached (.define (by decide +kernel))
theorem malloc_first : DefinedBy mallocHistory "malloc" plainLibffi mallocDefine := ⟨mallocDefined,rfl,rfl⟩

def sizeArgument (n : ℤ) : JSValueConst := (JSValue.float64 (.ofInt binary64 n)).argument

theorem sizeArgument_numeric {n : ℤ} (exact : n.natAbs ≤ 2^53) : (sizeArgument n).value.numeric = some (n : ℚ) := by
  change Datum.toRat (Number.ofInt binary64 n).datum = _
  rw [ofInt_datum exact,toRat_ofInt]

theorem malloc_enters {n : ℤ} (exact : n.natAbs ≤ 2^53) :
    ∃ opening entered, Step mallocMachine ⟨.call [stringArgument "malloc" nameCopy,sizeArgument n],opening,none⟩ entered := by
  have named : (argAt [stringArgument "malloc" nameCopy,sizeArgument n] 0).cstring = some "malloc" := rfl
  obtain ⟨opening,_,entered,_,step,_⟩ := call_unary (sound_reached malloc_reached) named rfl (nodeOf_types 69 mallocPrototype)
    rfl (sizeArgument_numeric exact) exact
  exact ⟨opening,entered,step⟩

theorem aliases_carry_malloc : ∃ opening entered request value, ∃ t : ffi_type,
    Step mallocMachine ⟨.call [stringArgument "malloc" nameCopy,sizeArgument 10],opening,none⟩ entered ∧
      invocations opening = [request] ∧ request.values[0]? = some value ∧ t.reads value = some 10 := by
  obtain ⟨opening,entered,step⟩ := malloc_enters (n := 10) (by decide)
  have listed : ("size_t",⟨64,false⟩) ∈ cTypes := by decide
  obtain ⟨t,request,value,_,one,read,exactly⟩ :=
    (aliases_carry malloc_reached listed ⟨by decide,by decide⟩ (by decide) malloc_first rfl step).1 0 (sizeArgument 10)
      rfl rfl (sizeArgument_numeric (by decide))
  exact ⟨opening,entered,request,value,t,step,one,read,exactly.mpr (fun _ => by decide)⟩

-- malloc(4294967296): the declared size_t is in range and is not what libffi reads.
theorem size_t_truncates : ¬ ∀ history m name c n function ffi args given opening entered (i : ℕ) v,
    Reached history m → (name,c) ∈ cTypes → c.InRange n → n.natAbs ≤ 2^53 → DefinedBy history function ffi args →
    (argAt given 0).cstring = some function → Step m ⟨.call given,opening,none⟩ entered →
    (recorded args)[i]? = some name → (callArguments given)[i]? = some v → v.value.numeric = some (n : ℚ) →
    ∃ t request value, find_ffi_type (define_types []) (some name) = some t ∧ invocations opening = [request] ∧
      request.values[i]? = some value ∧ t.reads value = some n := by
  intro claimed
  obtain ⟨opening,entered,step⟩ := malloc_enters (n := 2^32) (by decide)
  have listed : ("size_t",⟨64,false⟩) ∈ cTypes := by decide
  obtain ⟨t,request,value,known,one,read,whole⟩ := claimed _ _ _ _ (2^32) _ _ _ _ _ _ 0 _ malloc_reached listed
    ⟨by decide,by decide⟩ (by decide) malloc_first rfl step rfl rfl (sizeArgument_numeric (by decide))
  have narrow : find_ffi_type (define_types []) (some "size_t") = some .uint32 := by decide +kernel
  obtain rfl : ffi_type.uint32 = t := Option.some.inj (narrow.symm.trans known)
  obtain ⟨request',value',one',read',exactly⟩ := parameter_reads malloc_reached malloc_first (i := 0) rfl known rfl
    (by decide) rfl rfl (sizeArgument_numeric (n := 2^32) (by decide)) step
  obtain rfl : request = request' := by simpa [one] using one'
  obtain rfl : value = value' := Option.some.inj (read.symm.trans read')
  have kept := exactly.mp whole
  simp [CType.InRange] at kept

end QjsFfi
