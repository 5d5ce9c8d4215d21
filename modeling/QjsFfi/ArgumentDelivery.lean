import QjsFfi.InvocationExactness

namespace QjsFfi
open BinaryFloat Activation Histories

-- The number that an argument means: an integer (an address as the long long the
-- code makes of it) or a JavaScript number.
inductive Quantity where
  | integer (n : ℤ)
  | number (d : Datum)
  deriving DecidableEq

def JSValueConst.quantity (v : JSValueConst) : Option Quantity :=
  match v.value with
  | .null => some (.integer 0)
  | .bool b => some (.integer (if b then 1 else 0))
  | .int i => some (.integer i.toInt)
  | .float64 d => some (.number d.datum)
  | .string _ => v.copy.map (fun address => .integer address.word.toInt)
  | .arrayBuffer ⟨some data,_⟩ => some (.integer data.toInt)
  | _ => none

-- a_i: a parameter without an argument means 0.
def argumentAt (given : List JSValueConst) (i : Nat) : Quantity :=
  match (callArguments given)[i]? with
  | none => .integer 0
  | some v => v.quantity.getD (.integer 0)

namespace Quantity

def datum : Quantity → Datum
  | integer n => .ofInt n
  | number d => d

def toFormat (f : Format) (q : Quantity) : Number f := ⟨round f q.datum,round_fits f q.datum⟩

def whole : Quantity → ℤ
  | integer n => n
  | number d => d.truncate.getD 0

theorem toFormat_exact {q : Quantity} (held : Fits f q.datum) : (q.toFormat f).datum = q.datum := round_exact held

end Quantity

def conv (t : ffi_type) (q : Quantity) : FfiValue :=
  match t with
  | .void => .void
  | .float => .float (q.toFormat binary32)
  | .double => .double (q.toFormat binary64)
  | .longdouble => .longdouble (q.toFormat extended80)
  | .pointer => .pointer (BitVec.ofInt 64 q.whole)
  | .sint8 | .uint8 => .integral 8 (BitVec.ofInt 8 q.whole)
  | .sint16 | .uint16 => .integral 16 (BitVec.ofInt 16 q.whole)
  | .sint32 | .uint32 => .integral 32 (BitVec.ofInt 32 q.whole)
  | .sint64 | .uint64 => .integral 64 (BitVec.ofInt 64 q.whole)

def ffi_type.format : ffi_type → Option Format
  | .float => some binary32
  | .double => some binary64
  | .longdouble => some extended80
  | _ => none

def FfiValue.datum : FfiValue → Option Datum
  | .float v => some v.datum
  | .double v => some v.datum
  | .longdouble v => some v.datum
  | _ => none

def InLongLong (d : Datum) : Prop := ∃ n, d.truncate = some n ∧ -2^63 ≤ n ∧ n < 2^63

theorem conv_exact (declared : t.format = some f) (held : Fits f q.datum) : (conv t q).datum = some q.datum := by
  cases t <;> cases declared <;> exact congrArg some (Quantity.toFormat_exact held)

inductive Stands : Carried → Quantity → Prop where
  | integral (v : Word) : Stands (.integral v) (.integer v.toInt)
  | floating (d : Double) : Stands (.floating (d.convert extended80)) (.number d.datum)

theorem carrier_stands {v : JSValueConst} (made : carrier v = some c) : ∃ q, v.quantity = some q ∧ Stands c q := by
  unfold carrier at made
  unfold JSValueConst.quantity
  cases value : v.value with
  | null =>
    rw [value] at made
    cases made
    exact ⟨_,rfl,.integral 0⟩
  | bool b =>
    rw [value] at made
    cases made
    cases b
    · exact ⟨_,rfl,.integral 0⟩
    · exact ⟨_,rfl,.integral 1⟩
  | int i =>
    rw [value] at made
    cases made
    have same : (i.signExtend 64).toInt = i.toInt := BitVec.toInt_signExtend_of_le (by decide)
    exact ⟨_,rfl,same ▸ .integral (i.signExtend 64)⟩
  | float64 d =>
    rw [value] at made
    cases made
    exact ⟨_,rfl,.floating d⟩
  | string text =>
    rw [value] at made
    obtain ⟨address,copy,rfl⟩ := Option.map_eq_some_iff.mp made
    exact ⟨_,by simp only [copy]; rfl,.integral address.word⟩
  | arrayBuffer buffer =>
    obtain ⟨data,bytes⟩ := buffer
    cases data with
    | none => simp [value] at made
    | some data =>
      simp only [value] at made
      split at made
      · cases made
      · cases made
        exact ⟨_,rfl,.integral data⟩
  | undefined | bigInt | symbol | object | exception => simp [value] at made

theorem wide_exact : Wider binary64 extended80 := by decide

theorem wordOf_low (stands : Stands c q) (narrow : w ≤ 64) (fits : ∀ d, q = .number d → InLongLong d) :
    (wordOf c).setWidth w = BitVec.ofInt w q.whole := by
  cases stands with
  | integral v => exact (BitVec.signExtend_eq_setWidth_of_le v narrow).symm
  | floating d =>
    obtain ⟨n,truncated,lower,upper⟩ := fits d.datum rfl
    have same : (d.convert extended80).datum = d.datum := Number.convert_exact (d.fits.widen wide_exact)
    have word : wordOf (.floating (d.convert extended80)) = BitVec.ofInt 64 n := by
      simp only [wordOf,longLongOf,same,truncated]
      rw [if_pos ⟨lower,upper⟩]
    have read : (BitVec.ofInt 64 n).toInt = n := BitVec.toInt_ofInt_eq_self (by decide) lower upper
    rw [word,← BitVec.signExtend_eq_setWidth_of_le _ narrow,BitVec.signExtend,read]
    simp only [Quantity.whole,truncated,Option.getD_some]

theorem delivered_conv (stands : Stands c q)
    (fits : ∀ d, t.format = none → q = .number d → InLongLong d) : delivered t c = conv t q := by
  cases t with
  | void => rfl
  | float =>
    cases stands with
    | integral v => rfl
    | floating d => exact congrArg FfiValue.float (Number.convert_through wide_exact)
  | double =>
    cases stands with
    | integral v => rfl
    | floating d => exact congrArg FfiValue.double (Number.convert_through wide_exact)
  | longdouble => cases stands <;> rfl
  | pointer =>
    have low := wordOf_low stands (Nat.le_refl 64) (fun d => fits d rfl)
    rw [BitVec.setWidth_eq] at low
    exact congrArg FfiValue.pointer low
  | sint8 | uint8 => exact congrArg (FfiValue.integral 8) (wordOf_low stands (by decide) (fun d => fits d rfl))
  | sint16 | uint16 => exact congrArg (FfiValue.integral 16) (wordOf_low stands (by decide) (fun d => fits d rfl))
  | sint32 | uint32 => exact congrArg (FfiValue.integral 32) (wordOf_low stands (by decide) (fun d => fits d rfl))
  | sint64 | uint64 => exact congrArg (FfiValue.integral 64) (wordOf_low stands (by decide) (fun d => fits d rfl))

theorem argOf_stands (converted : (callScan s given).converted = true) (i : Nat) :
    Stands (argOf (callScan s given).carried i) (argumentAt given i) := by
  unfold argumentAt
  cases present : (callArguments given)[i]? with
  | none =>
    have missing : argOf (callScan s given).carried i = .missing := scan_argOf_missing converted present
    rw [missing]
    exact .integral 0
  | some v =>
    obtain ⟨q,means,stands⟩ := carrier_stands (scan_argOf converted present)
    simp only [means,Option.getD_some]
    exact stands

theorem CallOutcome.delivers {params : List ffi_type} (outcome : CallOutcome s given (.inr frame) t log)
    (named : (argAt given 0).cstring = some name) (registered : s.function name = some f)
    (types : f.types = ⟨params.map some⟩) :
    ∃ arg, (∀ i, Stands (arg i) (argumentAt given i)) ∧ frame.inner.request.values = valuesOf params arg := by
  cases outcome with
  | dispatched c text converted addr p found few =>
    have same : c.text = name := by
      have := asCString_text (argAt given 0) s.fresh
      rw [text,named] at this
      exact Option.some.inj this
    rw [same] at found
    have node := Option.some.inj (registered.symm.trans found)
    rw [node,nodeOf_types] at types
    have own : p.params = params := List.map_injective_iff.mpr (Option.some_injective _) (CArray.mk.inj types)
    refine ⟨argOf (callScan s given).carried,argOf_stands converted,?_⟩
    simp only [frameOf,innerFrame_request,requestOf,own]

theorem valuesOf_conv {params : List ffi_type} {arg : Nat → Carried} {given : List JSValueConst}
    (stands : ∀ i, Stands (arg i) (argumentAt given i))
    (fits : ∀ i t d, params[i]? = some t → t.format = none → argumentAt given i = .number d → InLongLong d) :
    valuesOf params arg = params.mapIdx (fun i t => conv t (argumentAt given i)) := by
  apply List.ext_getElem?
  intro i
  rw [valuesOf,List.getElem?_mapIdx,List.getElem?_mapIdx]
  cases declared : params[i]? with
  | none => rfl
  | some t =>
    have delivers := delivered_conv (stands i) (fun d whole number => fits i t d declared whole number)
    simp only [Option.map_some,delivers]

-- At ffi_call every parameter reads the value of its own argument.
theorem call_delivers {params : List ffi_type} (reached : Reached history m)
    (named : (argAt given 0).cstring = some name) (registered : m.ctx.function name = some f)
    (types : f.types = ⟨params.map some⟩) (converted : ∀ v ∈ callArguments given, Convertible v)
    (fits : ∀ i t d, params[i]? = some t → t.format = none → argumentAt given i = .number d → InLongLong d) :
    (∃ opening r entered, Step m ⟨.call given,opening,r⟩ entered) ∧
    ∀ opening r entered, Step m ⟨.call given,opening,r⟩ entered →
      ∃ request, invocations opening = [request] ∧ request.fp = f.fp ∧
        request.values = params.mapIdx (fun i t => conv t (argumentAt given i)) ∧
        ∀ i t format, params[i]? = some t → t.format = some format → Fits format (argumentAt given i).datum →
          (conv t (argumentAt given i)).datum = some (argumentAt given i).datum := by
  have sound := sound_reached reached
  have invokes : Invokes m.ctx given f := ⟨⟨name,named,registered⟩,converted⟩
  refine ⟨call_possible sound given,?_⟩
  intro opening r entered step
  obtain ⟨_,frame,_,outcome,fp,_,one⟩ := call_invokes sound invokes step
  obtain ⟨arg,stands,values⟩ := outcome.delivers named registered types
  exact ⟨_,one,fp,values.trans (valuesOf_conv stands fits),fun _ _ _ _ declared held => conv_exact declared held⟩

theorem call_delivers_abs : ∃ request, invocations absOpening = [request] ∧
    request.fp = (nodeOf 69 absPrototype).fp ∧
    request.values = [ffi_type.sint32].mapIdx (fun i t => conv t (argumentAt absCall i)) ∧
    ∀ (i : Nat) t format, [ffi_type.sint32][i]? = some t → t.format = some format →
      Fits format (argumentAt absCall i).datum →
      (conv t (argumentAt absCall i)).datum = some (argumentAt absCall i).datum := by
  have converted : ∀ v ∈ callArguments absCall, Convertible v := by
    intro v member
    have last : v = intArgument (-5) := by simpa [callArguments,absCall,MAX_PARAMETERS] using member
    rw [last]
    trivial
  have fits : ∀ (i : Nat) t d, [ffi_type.sint32][i]? = some t → t.format = none →
      argumentAt absCall i = .number d → InLongLong d := by
    intro i t d declared _ number
    cases i with
    | zero =>
      have integer : argumentAt absCall 0 = .integer (-5) := by decide +kernel
      rw [integer] at number
      cases number
    | succ i => simp at declared
  have named : (argAt absCall 0).cstring = some "abs" := by decide +kernel
  have registered : absMachine.ctx.function "abs" = some (nodeOf 69 absPrototype) := by decide +kernel
  exact (call_delivers abs_reached named registered rfl converted fits).2 _ _ _ abs_entered

end QjsFfi
