import QjsFfi.ArgumentDelivery
import QjsFfi.PrototypeFidelity

namespace QjsFfi
open BinaryFloat Activation Histories

def ffi_type.InRange (t : ffi_type) (n : ℤ) : Prop :=
  match t with
  | .sint8 => -2^7 ≤ n ∧ n < 2^7
  | .sint16 => -2^15 ≤ n ∧ n < 2^15
  | .sint32 => -2^31 ≤ n ∧ n < 2^31
  | .sint64 => -2^63 ≤ n ∧ n < 2^63
  | .uint8 => 0 ≤ n ∧ n < 2^8
  | .uint16 => 0 ≤ n ∧ n < 2^16
  | .uint32 => 0 ≤ n ∧ n < 2^32
  | .uint64 | .pointer => 0 ≤ n ∧ n < 2^64
  | _ => False

-- A native function that returns its one argument, in the register of its type;
-- the bits of the register past the type's width are anything.
def Echoes (request : Request) (native : NativeResult) : Prop :=
  match request.values with
  | [.integral width bits] => native.integer.setWidth width = bits
  | [.pointer address] => native.integer = address
  | [.float v] => native.single = v
  | [.double v] => native.double = v
  | [.longdouble v] => native.extended = v
  | _ => False

theorem truncate_whole {n : ℤ} {f : Format} {d : Datum} (held : Fits f d) (whole : Datum.toRat d = some (n : ℚ)) :
    d.truncate = some n := by
  cases d with
  | nan | infinite => cases whole
  | finite negative q =>
    have nonneg : 0 ≤ q := by
      obtain ⟨m,e,rfl,_⟩ := held
      exact mul_nonneg (Nat.cast_nonneg m) (zpow_nonneg two_pos.le e)
    simp only [Datum.toRat,Option.some.injEq] at whole
    cases negative with
    | false =>
      have same : q = (n : ℚ) := by simpa using whole
      have sign : 0 ≤ n := by exact_mod_cast same ▸ nonneg
      obtain ⟨k,rfl⟩ := Int.eq_ofNat_of_zero_le sign
      rw [same]
      simp [Datum.truncate]
    | true =>
      have same : q = ((-n : ℤ) : ℚ) := by
        push_cast
        have : -q = (n : ℚ) := by simpa using whole
        linarith
      have sign : 0 ≤ -n := by exact_mod_cast same ▸ nonneg
      obtain ⟨k,magnitude⟩ := Int.eq_ofNat_of_zero_le sign
      rw [same,magnitude]
      simp only [Datum.truncate,if_true,Int.cast_natCast,Nat.floor_natCast]
      congr 1
      omega

theorem numeric_quantity {n : ℤ} {v : JSValueConst} (number : v.value.numeric = some (n : ℚ)) :
    Convertible v ∧ ∃ q, v.quantity = some q ∧ q.whole = n ∧ ∀ d, q = .number d → d.truncate = some n := by
  unfold Convertible JSValueConst.quantity
  cases value : v.value with
  | int i =>
    rw [value] at number
    have same : i.toInt = n := by
      simp only [JSValue.numeric,Option.some.injEq] at number
      exact_mod_cast number
    exact ⟨trivial,_,rfl,same,by intro d other; cases other⟩
  | float64 x =>
    rw [value] at number
    have truncated := truncate_whole x.fits number
    refine ⟨trivial,_,rfl,?_,?_⟩
    · simp only [Quantity.whole,truncated,Option.getD_some]
    · intro d same
      cases same
      exact truncated
  | undefined | null | bool | bigInt | string | symbol | arrayBuffer | object | exception =>
    rw [value] at number
    cases number

theorem toNat_ofInt_range (w : Nat) (lower : 0 ≤ n) (upper : n < 2^w) : ((BitVec.ofInt w n).toNat : ℤ) = n := by
  rw [BitVec.toNat_ofInt,Int.toNat_of_nonneg (Int.emod_nonneg _ (by positivity))]
  exact Int.emod_eq_of_lt lower (by exact_mod_cast upper)

theorem echo_result {q : Quantity} (range : t.InRange q.whole) (exact : q.whole.natAbs ≤ 2^53)
    (echo : Echoes ⟨f,fp,rtype,[conv t q]⟩ native) :
    (resultOf t native).convert binary64 = .ofInt binary64 q.whole := by
  have small : q.whole.natAbs ≤ 2^64 := Nat.le_trans exact (by decide)
  have wide : (Number.ofInt extended80 q.whole).convert binary64 = .ofInt binary64 q.whole := by
    apply Number.ext_datum
    change round binary64 (Number.ofInt extended80 q.whole).datum = round binary64 (.ofInt q.whole)
    rw [ofInt_datum small]
  cases t with
  | sint8 | sint16 | sint32 =>
    simp only [Echoes,conv] at echo
    simp only [resultOf,echo]
    rw [BitVec.toInt_ofInt_eq_self (by decide) (by exact range.1) (by exact range.2)]
    exact wide
  | uint8 | uint16 | uint32 =>
    simp only [Echoes,conv] at echo
    simp only [resultOf,echo]
    rw [toNat_ofInt_range _ range.1 range.2]
    exact wide
  | sint64 | uint64 =>
    simp only [Echoes,conv,BitVec.setWidth_eq] at echo
    simp only [resultOf,echo]
    rw [BitVec.toInt_ofInt_eq_self (by decide) (by omega) (by omega)]
    exact wide
  | pointer =>
    simp only [Echoes,conv] at echo
    simp only [resultOf,echo]
    rw [BitVec.toInt_ofInt_eq_self (by decide) (by omega) (by omega),Number.convert_through wide_exact,Number.convert_self]
  | void | float | double | longdouble => cases range

theorem define_unary (sound : Sound history m) (header : defineHeader given = some h)
    (type : find_ffi_type (define_types []) (some h.rtype) = some t)
    (param : (given.drop 4).map JSValueConst.cstring = [some h.rtype]) (free : m.ctx.function h.name = none)
    (registered : Step m ⟨.define ffi given,log,some (.bool true)⟩ ready) :
    ∃ addr p, ready.ctx.function h.name = some (nodeOf addr p) ∧ p.fp = codeOf h.fp ∧ p.rtype = t ∧ p.params = [t] := by
  obtain ⟨addr,p,made,found⟩ := define_registers sound header free registered
  obtain ⟨g,same,_,fp,_,known,result,_⟩ := spelled_parts made
  have equal : g = h := Option.some.inj (same.symm.trans header)
  subst equal
  have complete : Complete given := by
    have length := congrArg List.length param
    simp only [List.length_map,List.length_singleton] at length
    refine ⟨by rw [length]; decide,?_⟩
    intro u member
    have text : u.cstring ∈ [some g.rtype] := param ▸ List.mem_map_of_mem member
    rw [List.mem_singleton.mp text]
    rfl
  have one : recorded given = [g.rtype] :=
    List.map_injective_iff.mpr (Option.some_injective _) ((recorded_all complete).trans param)
  rw [one] at known
  have types := knownTypes_iff.mp known
  simp only [List.map_cons,List.map_nil,type] at types
  exact ⟨addr,p,found,fp,Option.some.inj (result.symm.trans type),
    List.map_injective_iff.mpr (Option.some_injective _) types.symm⟩

theorem call_unary {n : ℤ} (sound : Sound history m) (named : (argAt actual 0).cstring = some name)
    (registered : m.ctx.function name = some f) (types : f.types = ⟨[t].map some⟩) (passed : actual.drop 1 = [v])
    (number : v.value.numeric = some (n : ℚ)) (exact : n.natAbs ≤ 2^53) :
    ∃ opening frame entered q, Step m ⟨.call actual,opening,none⟩ entered ∧ entered.stack = frame :: m.stack ∧
      invocations opening = [frame.inner.request] ∧ frame.inner.request.fp = f.fp ∧
      frame.inner.request.rtype = f.rtype ∧ frame.inner.request.values = [conv t q] ∧ q.whole = n := by
  obtain ⟨convertible,q,means,whole,truncated⟩ := numeric_quantity number
  have arguments : callArguments actual = [v] := by
    rw [callArguments,passed]
    rfl
  have own : argumentAt actual 0 = q := by simp [argumentAt,arguments,means]
  have converted : ∀ u ∈ callArguments actual, Convertible u := by
    intro u member
    rw [arguments] at member
    rw [List.mem_singleton.mp member]
    exact convertible
  have fits : ∀ (i : Nat) u d, [t][i]? = some u → u.format = none → argumentAt actual i = .number d → InLongLong d := by
    intro i u d declared _ same
    cases i with
    | zero => exact ⟨n,truncated d (own ▸ same),by omega,by omega⟩
    | succ i => simp at declared
  obtain ⟨opening,r,entered,step⟩ := call_possible sound actual
  obtain ⟨rfl,frame,stack,outcome,fp,rtype,one⟩ := call_invokes sound ⟨⟨name,named,registered⟩,converted⟩ step
  obtain ⟨arg,stands,values⟩ := outcome.delivers named registered types
  rw [valuesOf_conv stands fits,List.mapIdx_singleton,own] at values
  exact ⟨opening,frame,entered,q,step,stack,one,fp,rtype,values,whole⟩

-- Defined as T(T) over an identity, a function returns every integer of T it is
-- given, whether the script holds the integer as an int or as a float64.
theorem integer_round_trip {n : ℤ} (reached : Reached history m) (header : defineHeader given = some h)
    (type : find_ffi_type (define_types []) (some h.rtype) = some t)
    (param : (given.drop 4).map JSValueConst.cstring = [some h.rtype]) (free : m.ctx.function h.name = none)
    (registered : Step m ⟨.define ffi given,log,some (.bool true)⟩ ready)
    (named : (argAt actual 0).cstring = some h.name) (passed : actual.drop 1 = [v])
    (number : v.value.numeric = some (n : ℚ)) (range : t.InRange n) (exact : n.natAbs ≤ 2^53) :
    ∃ opening entered request, Step ready ⟨.call actual,opening,none⟩ entered ∧ invocations opening = [request] ∧
      request.fp = codeOf h.fp ∧
      ∀ native, Echoes request native →
        (∃ closing value after, Step entered ⟨.returned native,closing,some value⟩ after) ∧
        ∀ closing value after, Step entered ⟨.returned native,closing,some value⟩ after →
          value.numeric = some (n : ℚ) := by
  obtain ⟨addr,p,found,fp,rtype,params⟩ := define_unary (sound_reached reached) header type param free registered
  have later : Reached _ ready := .snoc reached registered
  have types : (nodeOf addr p).types = ⟨[t].map some⟩ := by rw [nodeOf_types,params]
  obtain ⟨opening,frame,entered,q,step,stack,one,code,result,values,rfl⟩ :=
    call_unary (sound_reached later) named found types passed number exact
  have during := sound_reached (.snoc later step)
  refine ⟨opening,entered,_,step,one,code.trans fp,?_⟩
  intro native echo
  obtain ⟨closing,back⟩ := return_possible during stack native
  refine ⟨⟨closing,_,_,back⟩,?_⟩
  intro closing value after back
  obtain ⟨top,innermost,given⟩ := return_value during back
  rw [stack] at innermost
  obtain ⟨rfl,_⟩ := List.cons.inj innermost
  have same : frame.inner.request.rtype = t := result.trans rtype
  have echoed : Echoes ⟨0,.dummy_,t,[conv t q]⟩ native := by simpa only [Echoes,values] using echo
  rw [given,JS_NewFloat64_numeric,same,echo_result range exact echoed,ofInt_datum exact,toRat_ofInt]

theorem integer_round_trip_abs :
    ∃ opening entered request, Step absMachine ⟨.call absCall,opening,none⟩ entered ∧ invocations opening = [request] ∧
      request.fp = codeOf 0x2000 ∧
      ∀ native, Echoes request native →
        (∃ closing value after, Step entered ⟨.returned native,closing,some value⟩ after) ∧
        ∀ closing value after, Step entered ⟨.returned native,closing,some value⟩ after →
          value.numeric = some ((-5 : ℤ) : ℚ) := by
  have header : defineHeader absDefine = some ⟨"abs",0x2000,"default","int"⟩ := by decide +kernel
  have type : find_ffi_type (define_types []) (some "int") = some .sint32 := by decide +kernel
  have param : (absDefine.drop 4).map JSValueConst.cstring = [some "int"] := by decide +kernel
  have named : (argAt absCall 0).cstring = some "abs" := by decide +kernel
  exact integer_round_trip fresh_reached header type param rfl abs_defined named rfl rfl ⟨by decide,by decide⟩ (by decide)

example : [("sint8",ffi_type.sint8),("sint16",.sint16),("sint32",.sint32),("sint64",.sint64),("uint8",.uint8),
    ("uint16",.uint16),("uint32",.uint32),("uint64",.uint64),("schar",.sint8),("uchar",.uint8),("sshort",.sint16),
    ("ushort",.uint16),("sint",.sint32),("uint",.uint32),("slong",.sint64),("ulong",.uint64),("pointer",.pointer)].all
      (fun x => find_ffi_type (define_types []) (some x.1) = some x.2) := by decide +kernel

end QjsFfi
