import Mathlib.Data.Finset.Basic
import Mathlib.Tactic.Ring
import QjsFfi.Bitmaps

namespace QjsFfi

-- The numbers of the example scripts are integers; none is NaN, which undefined
-- turns into where a number is wanted.
abbrev JSNumber := Option ℤ

def ToInt32 (n : JSNumber) : BitVec 32 := .ofInt 32 (n.getD 0)
def ToUint16 (n : JSNumber) : UInt16 := .ofBitVec (.ofInt 16 (n.getD 0))
def ToUint32 (n : JSNumber) : BitVec 32 := .ofInt 32 (n.getD 0)
def ToUint8 (n : JSNumber) : UInt8 := .ofBitVec (.ofInt 8 (n.getD 0))

def byteOperand (b : UInt8) : BitVec 32 := b.toBitVec.setWidth 32
def storedByte (n : BitVec 32) : UInt8 := ToUint8 (some n.toInt)

theorem storedByte_bits (n : BitVec 32) : (storedByte n).toBitVec = n.setWidth 8 :=
  BitVec.signExtend_eq_setWidth_of_le n (by omega)

-- Decimal text, and Number() of a text: the empty one and plain digits are read
-- here, any other spelling is left to the engine.
def decimal (n : ℕ) : List Char := Nat.toDigits 10 n

def toNumber (engine : List Char → JSNumber) (text : List Char) : JSNumber :=
  let n := Nat.ofDigitChars 10 text 0
  if text.all Char.isDigit ∧ n ≤ 2^53 then some n else engine text

theorem decimal_digits (n : ℕ) : ∀ c ∈ decimal n, c.isDigit :=
  fun _ member => Nat.isDigit_of_mem_toDigits (by omega) (by omega) member

theorem toNumber_decimal (engine : List Char → JSNumber) {n : ℕ} (exact : n ≤ 2^53) :
    toNumber engine (decimal n) = some (n : ℤ) := by
  have value : Nat.ofDigitChars 10 (decimal n) 0 = n := Nat.ofDigitChars_ten_toDigits
  have digits : (decimal n).all Char.isDigit = true := List.all_eq_true.mpr (decimal_digits n)
  simp only [toNumber,value,digits,exact,and_self,if_true]

def FD_SETSIZE : ℕ := 1024

structure fd_set where
  bytes : List UInt8
  whole : bytes.length = FD_SETSIZE/8

def fd_set.new : fd_set := ⟨List.replicate (FD_SETSIZE/8) 0,List.length_replicate⟩

def fd_set.size (s : fd_set) : ℕ := s.bytes.length*8

-- 1 << (fd & 0x7)
def mask (fd : JSNumber) : BitVec 32 := 1#32 <<< (ToInt32 fd &&& 7).toNat

-- new Uint8Array(set, fd >> 3, 1); a RangeError outside the buffer.
def setByte (fd : JSNumber) (s : fd_set) : Option ℕ :=
  let offset := ((ToInt32 fd).sshiftRight 3).toInt
  if 0 ≤ offset ∧ offset+1 ≤ s.bytes.length then some offset.toNat else none

def fd_set.assign (s : fd_set) (i : ℕ) (f : UInt8 → UInt8) : fd_set := ⟨s.bytes.modify i f,by simp [s.whole]⟩

def setBit (fd : JSNumber) (b : UInt8) : UInt8 := storedByte (byteOperand b ||| mask fd)
def clearBit (fd : JSNumber) (b : UInt8) : UInt8 := storedByte (byteOperand b &&& ~~~mask fd)

def FD_SET (fd : JSNumber) (s : fd_set) : Option fd_set := (setByte fd s).map (fun i => s.assign i (setBit fd))
def FD_CLR (fd : JSNumber) (s : fd_set) : Option fd_set := (setByte fd s).map (fun i => s.assign i (clearBit fd))
def FD_ISSET (fd : JSNumber) (s : fd_set) : Option Bool :=
  (setByte fd s).map (fun i => s.bytes[i]?.any (fun b => byteOperand b &&& mask fd ≠ 0))

inductive Operand where | undefined | theSet
  deriving DecidableEq

-- FD_ZERO(fd, set) fills its second argument only; new Uint8Array(undefined)
-- is an empty array of its own.
def FD_ZERO (_fd set : Operand) (s : fd_set) : fd_set :=
  match set with
  | .undefined => s
  | .theSet => ⟨s.bytes.map (fun _ => 0),by simp [s.whole]⟩

def fd_set.array (s : fd_set) : List ℕ :=
  (List.range s.bytes.length).flatMap (fun i =>
    ((List.range 8).filter (fun j => s.bytes[i]?.any (fun b => byteOperand b &&& 1#32 <<< j ≠ 0))).map (fun j => i*8+j))

-- The last element of array, undefined when there is none.
def fd_set.maxfd (s : fd_set) : Option ℕ := s.array[s.array.length-1]?

inductive SetCall where
  | zero (fd other : Operand)
  | set (fd : ℕ)
  | clr (fd : ℕ)

def SetCall.run : SetCall → fd_set → Option fd_set
  | .zero fd other,s => some (FD_ZERO fd other s)
  | .set fd,s => FD_SET (some fd) s
  | .clr fd,s => FD_CLR (some fd) s

def performs (s : fd_set) (calls : List SetCall) : Option fd_set := calls.foldlM (fun s call => call.run s) s

def SetCall.describe (members : Finset ℕ) : SetCall → Finset ℕ
  | .zero _ _ => ∅
  | .set fd => insert fd members
  | .clr fd => members.erase fd

def described (calls : List SetCall) : Finset ℕ := calls.foldl SetCall.describe ∅

theorem ToInt32_natural (small : fd < 2^31) : (ToInt32 (some (fd : ℕ))).toInt = fd := by
  simp only [ToInt32,Option.getD_some,BitVec.toInt_ofInt]
  exact Int.bmod_eq_of_le (by omega) (by omega)

theorem setByte_natural (inside : fd < FD_SETSIZE) (s : fd_set) : setByte (some (fd : ℕ)) s = some (fd/8) := by
  have number := ToInt32_natural (show fd < 2^31 by unfold FD_SETSIZE at inside; omega)
  have whole := s.whole
  unfold FD_SETSIZE at inside whole
  simp only [setByte,BitVec.toInt_sshiftRight,number]
  have shifted : ((fd : ℤ) >>> (3 : ℕ)) = ((fd/8 : ℕ) : ℤ) := by
    rw [Int.shiftRight_eq_div_pow]
    omega
  rw [shifted,if_pos (by omega)]
  rfl

theorem mask_natural (fd : ℕ) : mask (some (fd : ℤ)) = BitVec.twoPow 32 (fd%8) := by
  have low : (ToInt32 (some (fd : ℤ)) &&& 7).toNat = fd%8 := by
    have seven : (7 : BitVec 32).toNat = 2^3-1 := rfl
    simp only [ToInt32,Option.getD_some,BitVec.toNat_and,seven,Nat.and_two_pow_sub_one_eq_mod,BitVec.toNat_ofInt]
    omega
  rw [mask,low,BitVec.twoPow_eq]

theorem bit_tested (b : UInt8) (j : ℕ) (inside : j < 8) :
    decide (byteOperand b &&& BitVec.twoPow 32 j ≠ 0) = b.toBitVec.getLsbD j := by
  have wide : (byteOperand b).getLsbD j = b.toBitVec.getLsbD j := by
    simp [byteOperand]
    omega
  have nonzero : ¬BitVec.twoPow 32 j = 0#32 := by
    rw [BitVec.toNat_eq,BitVec.toNat_twoPow_of_lt (by omega)]
    simp
  rw [BitVec.and_twoPow,wide]
  cases b.toBitVec.getLsbD j <;> simp [nonzero]

theorem setBit_writes (fd : ℕ) : Bitmaps.Writes (setBit (some (fd : ℤ))) (fd%8) true := by
  refine ⟨?_,?_⟩
  · intro b
    simp [setBit,storedByte_bits,mask_natural]
    omega
  · intro b i inside other
    simp [setBit,storedByte_bits,mask_natural,byteOperand,inside]
    omega

theorem clearBit_writes (fd : ℕ) : Bitmaps.Writes (clearBit (some (fd : ℤ))) (fd%8) false := by
  refine ⟨?_,?_⟩
  · intro b
    simp [clearBit,storedByte_bits,mask_natural]
    omega
  · intro b i inside other
    simp [clearBit,storedByte_bits,mask_natural,byteOperand,inside]
    omega

theorem bit_within (inside : fd < FD_SETSIZE) (s : fd_set) : fd < 8*s.bytes.length := by
  have whole := s.whole
  unfold FD_SETSIZE at inside whole
  omega

theorem FD_ISSET_member (inside : fd < FD_SETSIZE) (s : fd_set) :
    FD_ISSET (some (fd : ℕ)) s = some (Bitmaps.member s.bytes fd) := by
  have tested := fun b => bit_tested b (fd%8) (Nat.mod_lt _ (Nat.succ_pos 7))
  simp [FD_ISSET,setByte_natural inside,mask_natural,Bitmaps.member,← tested]

theorem FD_SET_members (inside : fd < FD_SETSIZE) (s : fd_set) : ∃ next, FD_SET (some (fd : ℕ)) s = some next ∧
    ∀ k, Bitmaps.member next.bytes k = if k = fd then true else Bitmaps.member s.bytes k := by
  rw [FD_SET,setByte_natural inside]
  exact ⟨_,rfl,Bitmaps.member_update (setBit_writes fd) (bit_within inside s)⟩

theorem FD_CLR_members (inside : fd < FD_SETSIZE) (s : fd_set) : ∃ next, FD_CLR (some (fd : ℕ)) s = some next ∧
    ∀ k, Bitmaps.member next.bytes k = if k = fd then false else Bitmaps.member s.bytes k := by
  rw [FD_CLR,setByte_natural inside]
  exact ⟨_,rfl,Bitmaps.member_update (clearBit_writes fd) (bit_within inside s)⟩

theorem array_members (s : fd_set) : s.array = Bitmaps.members s.bytes := by
  unfold fd_set.array Bitmaps.members
  refine List.flatMap_congr ?_
  intro i _
  have same : ∀ j ∈ List.range 8, s.bytes[i]?.any (fun b => byteOperand b &&& 1#32 <<< j ≠ 0) = Bitmaps.member s.bytes (i*8+j) := by
    intro j inside
    have small := List.mem_range.mp inside
    have byte : (i*8+j)/8 = i := by omega
    have bit : (i*8+j)%8 = j := by omega
    rw [Bitmaps.member,byte,bit]
    congr 1
    funext b
    rw [← BitVec.twoPow_eq]
    exact bit_tested b j small
  rw [List.filter_congr same]

structure Represents (s : fd_set) (members : Finset ℕ) : Prop where
  tested : ∀ fd : ℕ, fd < s.size → FD_ISSET (some fd) s = some (decide (fd ∈ members))
  increasing : s.array.Pairwise (· < ·)
  listed : ∀ fd, fd ∈ s.array ↔ fd ∈ members
  greatest : ∀ fd, s.maxfd = some fd ↔ fd ∈ members ∧ ∀ other ∈ members, other ≤ fd

theorem size_fixed (s : fd_set) : s.size = FD_SETSIZE := by
  rw [fd_set.size,s.whole]
  rfl

theorem represents_iff {s : fd_set} {members : Finset ℕ} :
    Represents s members ↔ ∀ k, Bitmaps.member s.bytes k = true ↔ k ∈ members := by
  constructor
  · intro represents k
    rw [← represents.listed,array_members,Bitmaps.mem_members]
  · intro same
    have listed : ∀ fd, fd ∈ s.array ↔ fd ∈ members := by
      intro fd
      rw [array_members,Bitmaps.mem_members,same]
    have increasing : s.array.Pairwise (· < ·) := array_members s ▸ Bitmaps.members_sorted s.bytes
    refine ⟨?_,increasing,listed,?_⟩
    · intro fd inside
      rw [FD_ISSET_member (size_fixed s ▸ inside)]
      simp [← same fd]
    · intro fd
      rw [fd_set.maxfd,← List.getLast?_eq_getElem?,Bitmaps.sorted_last increasing]
      simp only [listed]

theorem fresh_represents : Represents fd_set.new ∅ := by
  refine represents_iff.mpr ?_
  simp [fd_set.new]

theorem FD_SET_represents {s : fd_set} {members : Finset ℕ} (represents : Represents s members) (inside : fd < FD_SETSIZE) :
    ∃ next, FD_SET (some (fd : ℕ)) s = some next ∧ Represents next (insert fd members) := by
  obtain ⟨next,ran,written⟩ := FD_SET_members inside s
  refine ⟨next,ran,represents_iff.mpr ?_⟩
  intro k
  have same := represents_iff.mp represents k
  rw [written,Finset.mem_insert]
  by_cases own : k = fd <;> simp [own,same]

theorem FD_CLR_represents {s : fd_set} {members : Finset ℕ} (represents : Represents s members) (inside : fd < FD_SETSIZE) :
    ∃ next, FD_CLR (some (fd : ℕ)) s = some next ∧ Represents next (members.erase fd) := by
  obtain ⟨next,ran,written⟩ := FD_CLR_members inside s
  refine ⟨next,ran,represents_iff.mpr ?_⟩
  intro k
  have same := represents_iff.mp represents k
  rw [written,Finset.mem_erase]
  by_cases own : k = fd <;> simp [own,same]

theorem FD_ZERO_represents (fd : Operand) (s : fd_set) : Represents (FD_ZERO fd .theSet s) ∅ := by
  refine represents_iff.mpr ?_
  intro k
  have zeroed : (FD_ZERO fd .theSet s).bytes = List.replicate s.bytes.length 0 := by simp [FD_ZERO]
  simp [zeroed]

theorem represents_unique {s : fd_set} {one two : Finset ℕ} (first : Represents s one) (second : Represents s two) : one = two := by
  ext k
  rw [← first.listed,second.listed]

def SetCall.inside : SetCall → Prop
  | .zero _ _ => True
  | .set fd | .clr fd => fd < FD_SETSIZE

-- A call of FD_ZERO that has the set in the second place, or nothing to remove.
def SetCall.zeroes (members : Finset ℕ) : SetCall → Prop
  | .zero _ other => other = .theSet ∨ members = ∅
  | .set _ | .clr _ => True

def ZeroesTheSet (calls : List SetCall) : Prop := ∀ done call, done++[call] <+: calls → call.zeroes (described done)

theorem performs_snoc (s : fd_set) (calls : List SetCall) (call : SetCall) :
    performs s (calls++[call]) = (performs s calls).bind call.run := by
  simp only [performs,List.foldlM_append,List.foldlM_cons,List.foldlM_nil]
  cases List.foldlM (fun s call => SetCall.run call s) s calls with
  | none => rfl
  | some middle => exact bind_pure (call.run middle)

theorem described_snoc (calls : List SetCall) (call : SetCall) : described (calls++[call]) = call.describe (described calls) := by
  simp [described]

theorem call_represents {s : fd_set} {members : Finset ℕ} (represents : Represents s members) {call : SetCall} (inside : call.inside) :
    (∃ next, call.run s = some next ∧ Represents next (call.describe members)) ↔ call.zeroes members := by
  cases call with
  | set fd => exact ⟨fun _ => trivial,fun _ => FD_SET_represents represents inside⟩
  | clr fd => exact ⟨fun _ => trivial,fun _ => FD_CLR_represents represents inside⟩
  | zero fd other =>
    cases other with
    | theSet => exact ⟨fun _ => .inl rfl,fun _ => ⟨_,rfl,FD_ZERO_represents fd s⟩⟩
    | undefined =>
      constructor
      · rintro ⟨next,ran,after⟩
        cases Option.some.inj ran
        exact .inr (represents_unique represents after)
      · rintro (wrong | empty)
        · cases wrong
        · exact ⟨s,rfl,empty ▸ represents⟩

theorem prefix_represents {calls : List SetCall} (zeroes : ZeroesTheSet calls) (inside : ∀ call ∈ calls, call.inside) :
    ∃ s, performs fd_set.new calls = some s ∧ Represents s (described calls) := by
  induction calls using List.reverseRecOn with
  | nil => exact ⟨_,rfl,fresh_represents⟩
  | append_singleton calls call ih =>
    have earlier : ZeroesTheSet calls := fun done call before => zeroes done call (before.trans (List.prefix_append _ _))
    obtain ⟨s,ran,represents⟩ := ih earlier (fun call member => inside call (List.mem_append_left _ member))
    have last := zeroes calls call (List.prefix_refl _)
    obtain ⟨next,step,after⟩ := (call_represents represents (inside call (by simp))).mpr last
    refine ⟨next,?_,described_snoc calls call ▸ after⟩
    rw [performs_snoc,ran]
    exact step

theorem prefix_zeroes {calls : List SetCall} (inside : ∀ call ∈ calls, call.inside)
    (stands : ∀ done, done <+: calls → ∃ s, performs fd_set.new done = some s ∧ Represents s (described done)) : ZeroesTheSet calls := by
  intro done call before
  obtain ⟨s,ran,represents⟩ := stands done ((List.prefix_append done [call]).trans before)
  obtain ⟨next,step,after⟩ := stands _ before
  rw [performs_snoc,ran] at step
  rw [described_snoc] at after
  exact (call_represents represents (inside call (before.subset (by simp)))).mp ⟨next,step,after⟩

theorem FD_SET_member {s next : fd_set} (inside : fd < FD_SETSIZE) (ran : FD_SET (some (fd : ℕ)) s = some next) :
    FD_ISSET (some (fd : ℕ)) next = some true := by
  obtain ⟨middle,same,written⟩ := FD_SET_members inside s
  cases Option.some.inj (same.symm.trans ran)
  rw [FD_ISSET_member inside,written,if_pos rfl]

theorem FD_SET_frame {s next : fd_set} (inside : fd < FD_SETSIZE) (within : other < FD_SETSIZE) (different : other ≠ fd)
    (ran : FD_SET (some (fd : ℕ)) s = some next) : FD_ISSET (some (other : ℕ)) next = FD_ISSET (some (other : ℕ)) s := by
  obtain ⟨middle,same,written⟩ := FD_SET_members inside s
  cases Option.some.inj (same.symm.trans ran)
  rw [FD_ISSET_member within,FD_ISSET_member within,written,if_neg different]

theorem FD_CLR_frame {s next : fd_set} (inside : fd < FD_SETSIZE) (within : other < FD_SETSIZE) (different : other ≠ fd)
    (ran : FD_CLR (some (fd : ℕ)) s = some next) : FD_ISSET (some (other : ℕ)) next = FD_ISSET (some (other : ℕ)) s := by
  obtain ⟨middle,same,written⟩ := FD_CLR_members inside s
  cases Option.some.inj (same.symm.trans ran)
  rw [FD_ISSET_member within,FD_ISSET_member within,written,if_neg different]

-- After every call so far the set stands for what the calls describe, and no
-- call on a descriptor changed the membership of another.
structure SetLaw (calls : List SetCall) : Prop where
  stands : ∀ done, done <+: calls → ∃ s, performs fd_set.new done = some s ∧ Represents s (described done)
  set_frame : ∀ s next : fd_set, ∀ fd other : ℕ, fd < FD_SETSIZE → other < FD_SETSIZE → other ≠ fd →
    FD_SET (some fd) s = some next → FD_ISSET (some other) next = FD_ISSET (some other) s
  clr_frame : ∀ s next : fd_set, ∀ fd other : ℕ, fd < FD_SETSIZE → other < FD_SETSIZE → other ≠ fd →
    FD_CLR (some fd) s = some next → FD_ISSET (some other) next = FD_ISSET (some other) s

theorem descriptor_sets (calls : List SetCall) (inside : ∀ call ∈ calls, call.inside) : SetLaw calls ↔ ZeroesTheSet calls := by
  constructor
  · intro law
    exact prefix_zeroes inside law.stands
  · intro zeroes
    refine ⟨?_,fun _ _ _ _ => FD_SET_frame,fun _ _ _ _ => FD_CLR_frame⟩
    intro done before
    exact prefix_represents (fun d call early => zeroes d call (early.trans before)) (fun call member => inside call (before.subset member))

theorem descriptor_sets_cleared : SetLaw [.set 3,.clr 3,.zero .theSet .undefined,.set 1023] ↔
    ZeroesTheSet [.set 3,.clr 3,.zero .theSet .undefined,.set 1023] :=
  descriptor_sets [.set 3,.clr 3,.zero .theSet .undefined,.set 1023] (by simp [SetCall.inside,FD_SETSIZE])

-- FD_SET(3, s); FD_ZERO(s): the descriptor is still in the set.
theorem zeroed_set_keeps : ¬SetLaw [.set 3,.zero .theSet .undefined] ∧
    (performs fd_set.new [.set 3,.zero .theSet .undefined]).bind (FD_ISSET (some 3)) = some true ∧
    described [.set 3,.zero .theSet .undefined] = ∅ := by
  have kept : (performs fd_set.new [.set 3,.zero .theSet .undefined]).bind (FD_ISSET (some 3)) = some true := by decide +kernel
  refine ⟨?_,kept,rfl⟩
  intro law
  obtain ⟨s,ran,represents⟩ := law.stands _ (List.prefix_refl _)
  have absent := represents.tested 3 (by rw [size_fixed,FD_SETSIZE]; omega)
  rw [ran] at kept
  exact absurd (kept.symm.trans absent) (by simp [described,SetCall.describe])

end QjsFfi
