import QjsFfi.DescriptorSets
import QjsFfi.Records
import QjsFfi.Numerals

namespace QjsFfi
open Buffers Numerals

@[ext] structure sockaddr_in where
  bytes : List UInt8
  whole : bytes.length = 16

def littleEndian (n : UInt16) : List UInt8 := bytes 2 n.toNat

theorem littleEndian_length (n : UInt16) : (littleEndian n).length = 2 := rfl

def sockaddr_in.store (s : sockaddr_in) (start : ℕ) (new : List UInt8) (inside : start+new.length ≤ 16) : sockaddr_in :=
  ⟨patch s.bytes start new,by rw [patch_length (by rw [s.whole]; exact inside),s.whole]⟩

-- new Uint16Array(this)[0] has the byte order of the machine, the DataView
-- accesses pass littleEndian = false.
def sockaddr_in.set_sin_family (s : sockaddr_in) (af : JSNumber) : sockaddr_in :=
  s.store 0 (littleEndian (ToUint16 af)) (by rw [littleEndian_length]; omega)
def sockaddr_in.sin_family (s : sockaddr_in) : ℕ := value (slice s.bytes 0 2)

def sockaddr_in.set_sin_port (s : sockaddr_in) (port : JSNumber) : sockaddr_in :=
  s.store 2 (bigEndian 2 (ToUint16 port).toNat) (by rw [bigEndian_length]; omega)
def sockaddr_in.sin_port (s : sockaddr_in) : ℕ := bigEndianValue (slice s.bytes 2 2)

inductive AddressValue where
  | string (text : List Char)
  | array (elements : List JSNumber)
  | number (n : JSNumber)

def addressSeparator (c : Char) : Bool := c = '.' || c = ':'

def element (elements : List JSNumber) (i : ℕ) : JSNumber := elements[i]?.getD none

def sockaddr_in.storeElements (s : sockaddr_in) (a : List JSNumber) : sockaddr_in :=
  s.store 4 [ToUint8 (element a 0),ToUint8 (element a 1),ToUint8 (element a 2),ToUint8 (element a 3)] (by simp)

def sockaddr_in.set_sin_addr (engine : List Char → JSNumber) (s : sockaddr_in) (addr : AddressValue) : sockaddr_in :=
  match addr with
  | .string text => s.storeElements ((text.splitOnP addressSeparator).map (toNumber engine))
  | .array a => s.storeElements a
  | .number n => s.store 4 (bigEndian 4 (ToUint32 n).toNat) (by rw [bigEndian_length]; omega)

def dotted (octets : List UInt8) : List Char := ['.'].intercalate (octets.map (fun o => decimal o.toNat))

-- new Uint8Array(this, 4, 4).join('.')
def sockaddr_in.sin_addr (s : sockaddr_in) : List Char := dotted (slice s.bytes 4 4)

def sockaddr_in.zeros : sockaddr_in := ⟨List.replicate 16 0,List.length_replicate⟩

def sockaddr_in.new (engine : List Char → JSNumber) (family port : JSNumber) (addr : AddressValue) : sockaddr_in :=
  ((zeros.set_sin_family family).set_sin_port port).set_sin_addr engine addr

structure Octets where
  a : UInt8
  b : UInt8
  c : UInt8
  d : UInt8

def Octets.list (o : Octets) : List UInt8 := [o.a,o.b,o.c,o.d]
def Octets.number (o : Octets) : ℕ := o.a.toNat*2^24+o.b.toNat*2^16+o.c.toNat*2^8+o.d.toNat

structure InetAddress where
  family : UInt16
  port : UInt16
  octets : Octets

def InetAddress.encode (f : InetAddress) : List UInt8 :=
  littleEndian f.family++bigEndian 2 f.port.toNat++f.octets.list++List.replicate 8 0

inductive AddressForm where | string | array | number

def AddressForm.value (o : Octets) : AddressForm → AddressValue
  | .string => .string (dotted o.list)
  | .array => .array (o.list.map (fun n => some (n.toNat : ℤ)))
  | .number => .number (some (o.number : ℤ))

inductive FieldWrite where
  | family (n : UInt16)
  | port (n : UInt16)
  | addr (form : AddressForm) (o : Octets)

def FieldWrite.run (engine : List Char → JSNumber) (s : sockaddr_in) : FieldWrite → sockaddr_in
  | .family n => s.set_sin_family (some (n.toNat : ℤ))
  | .port n => s.set_sin_port (some (n.toNat : ℤ))
  | .addr form o => s.set_sin_addr engine (form.value o)

def FieldWrite.family? : FieldWrite → Option UInt16 | .family n => some n | _ => none
def FieldWrite.port? : FieldWrite → Option UInt16 | .port n => some n | _ => none
def FieldWrite.octets? : FieldWrite → Option Octets | .addr _ o => some o | _ => none

def lastWritten (writes : List FieldWrite) : InetAddress :=
  ⟨(writes.filterMap FieldWrite.family?).getLast?.getD 0,(writes.filterMap FieldWrite.port?).getLast?.getD 0,
    (writes.filterMap FieldWrite.octets?).getLast?.getD ⟨0,0,0,0⟩⟩

def FieldWrite.covers : FieldWrite → ℕ → Prop
  | .family _,i => i < 2
  | .port _,i => 2 ≤ i ∧ i < 4
  | .addr _ _,i => 4 ≤ i ∧ i < 8

def writesOn (engine : List Char → JSNumber) (s : sockaddr_in) (writes : List FieldWrite) : sockaddr_in :=
  writes.foldl (FieldWrite.run engine) s

theorem ToUint16_natural (n : UInt16) : ToUint16 (some (n.toNat : ℤ)) = n := by
  simp [ToUint16]

theorem ToUint8_natural (n : UInt8) : ToUint8 (some (n.toNat : ℤ)) = n := by
  simp [ToUint8]

theorem octets_number (o : Octets) : bigEndian 4 (ToUint32 (some (o.number : ℤ))).toNat = o.list := by
  have a := o.a.toNat_lt
  have b := o.b.toNat_lt
  have c := o.c.toNat_lt
  have d := o.d.toNat_lt
  have small : o.number < 2^32 := by
    unfold Octets.number
    omega
  have whole : (ToUint32 (some (o.number : ℤ))).toNat = o.number := by
    rw [ToUint32,Option.getD_some,BitVec.ofInt_natCast,BitVec.toNat_ofNat,Nat.mod_eq_of_lt small]
  rw [whole,bigEndian,Octets.number,bytes_four a b c d]
  simp [Octets.list]

theorem dotted_split (o : Octets) : (dotted o.list).splitOnP addressSeparator = o.list.map (fun n => decimal n.toNat) := by
  have plain : ∀ n : ℕ, ∀ c ∈ decimal n, addressSeparator c = false := by
    intro n c member
    have digit := decimal_digits n c member
    simp only [addressSeparator,Bool.or_eq_false_iff,decide_eq_false_iff_not]
    refine ⟨?_,?_⟩ <;> rintro rfl <;> simp at digit
  have part := fun n => List.splitOnP_append_cons_of_forall_mem (plain n) '.' rfl
  simp [dotted,Octets.list,List.intercalate,part,List.splitOnP_eq_singleton (plain _)]

theorem dotted_elements (engine : List Char → JSNumber) (o : Octets) :
    ((dotted o.list).splitOnP addressSeparator).map (toNumber engine) = o.list.map (fun n => some (n.toNat : ℤ)) := by
  rw [dotted_split,List.map_map]
  refine List.map_congr_left ?_
  intro n _
  have small := n.toNat_lt
  exact toNumber_decimal engine (by omega)

theorem storeElements_octets (s : sockaddr_in) (o : Octets) :
    (s.storeElements (o.list.map (fun n => some (n.toNat : ℤ)))).bytes = patch s.bytes 4 o.list := by
  simp [sockaddr_in.storeElements,sockaddr_in.store,element,Octets.list,ToUint8_natural]

theorem set_sin_addr_bytes (engine : List Char → JSNumber) (s : sockaddr_in) (form : AddressForm) (o : Octets) :
    (s.set_sin_addr engine (form.value o)).bytes = patch s.bytes 4 o.list := by
  cases form with
  | string =>
    simp only [AddressForm.value,sockaddr_in.set_sin_addr]
    rw [dotted_elements,storeElements_octets]
  | array => exact storeElements_octets s o
  | number =>
    simp only [AddressForm.value,sockaddr_in.set_sin_addr,sockaddr_in.store]
    rw [octets_number]

def FieldWrite.start : FieldWrite → ℕ | .family _ => 0 | .port _ => 2 | .addr _ _ => 4

def FieldWrite.new : FieldWrite → List UInt8
  | .family n => littleEndian n
  | .port n => bigEndian 2 n.toNat
  | .addr _ o => o.list

theorem run_stores (engine : List Char → JSNumber) (s : sockaddr_in) (w : FieldWrite) :
    (w.run engine s).bytes = patch s.bytes w.start w.new := by
  cases w with
  | family n => simp only [FieldWrite.run,sockaddr_in.set_sin_family,sockaddr_in.store,ToUint16_natural,FieldWrite.start,FieldWrite.new]
  | port n => simp only [FieldWrite.run,sockaddr_in.set_sin_port,sockaddr_in.store,ToUint16_natural,FieldWrite.start,FieldWrite.new]
  | addr form o => exact set_sin_addr_bytes engine s form o

theorem FieldWrite.covers_iff (w : FieldWrite) (i : ℕ) : w.covers i ↔ w.start ≤ i ∧ i < w.start+w.new.length := by
  cases w with
  | family n => simp [FieldWrite.covers,FieldWrite.start,FieldWrite.new,littleEndian_length]
  | port n => simp [FieldWrite.covers,FieldWrite.start,FieldWrite.new,bigEndian_length]
  | addr form o => simp [FieldWrite.covers,FieldWrite.start,FieldWrite.new,Octets.list]

theorem FieldWrite.within (w : FieldWrite) : w.start+w.new.length ≤ 16 := by
  cases w <;> simp [FieldWrite.start,FieldWrite.new,littleEndian_length,bigEndian_length,Octets.list]

theorem run_frame (engine : List Char → JSNumber) (s : sockaddr_in) {w : FieldWrite} (outside : ¬w.covers i) :
    (w.run engine s).bytes[i]? = s.bytes[i]? := by
  have whole := s.whole
  have within := w.within
  rw [w.covers_iff] at outside
  rw [run_stores]
  exact patch_outside (by omega) (by omega)

def InetAddress.write (f : InetAddress) : FieldWrite → InetAddress
  | .family n => {f with family := n}
  | .port n => {f with port := n}
  | .addr _ o => {f with octets := o}

theorem lastWritten_snoc (writes : List FieldWrite) (w : FieldWrite) :
    lastWritten (writes++[w]) = (lastWritten writes).write w := by
  cases w <;> simp [lastWritten,InetAddress.write,FieldWrite.family?,FieldWrite.port?,FieldWrite.octets?]

theorem patch_encode (f : InetAddress) (w : FieldWrite) : patch f.encode w.start w.new = (f.write w).encode := by
  cases w with
  | family n =>
    have middle := patch_middle [] (littleEndian f.family) (littleEndian n)
      (bigEndian 2 f.port.toNat++f.octets.list++List.replicate 8 0) rfl
    simpa [InetAddress.encode,InetAddress.write,FieldWrite.start,FieldWrite.new] using middle
  | port n =>
    have middle := patch_middle (littleEndian f.family) (bigEndian 2 f.port.toNat) (bigEndian 2 n.toNat)
      (f.octets.list++List.replicate 8 0) rfl
    simpa [InetAddress.encode,InetAddress.write,FieldWrite.start,FieldWrite.new,littleEndian_length] using middle
  | addr form o =>
    have middle := patch_middle (littleEndian f.family++bigEndian 2 f.port.toNat) f.octets.list o.list
      (List.replicate 8 0) rfl
    simpa [InetAddress.encode,InetAddress.write,FieldWrite.start,FieldWrite.new,littleEndian_length,bigEndian_length] using middle

theorem writes_encode (engine : List Char → JSNumber) (writes : List FieldWrite) :
    (writesOn engine (sockaddr_in.new engine none none (.number none)) writes).bytes = (lastWritten writes).encode := by
  induction writes using List.reverseRecOn with
  | nil => rfl
  | append_singleton writes w ih =>
    rw [lastWritten_snoc,← patch_encode,← ih,← run_stores engine]
    simp [writesOn]

theorem family_encoded {s : sockaddr_in} {f : InetAddress} (encoded : s.bytes = f.encode) : s.sin_family = f.family.toNat := by
  have read := slice_middle [] (littleEndian f.family) (bigEndian 2 f.port.toNat++f.octets.list++List.replicate 8 0)
  have bytes : slice s.bytes 0 2 = littleEndian f.family := by
    rw [encoded]
    simpa [InetAddress.encode,littleEndian_length] using read
  have small := f.family.toNat_lt
  rw [sockaddr_in.sin_family,bytes,littleEndian,value_bytes,Nat.mod_eq_of_lt (by omega)]

theorem port_encoded {s : sockaddr_in} {f : InetAddress} (encoded : s.bytes = f.encode) : s.sin_port = f.port.toNat := by
  have read := slice_middle (littleEndian f.family) (bigEndian 2 f.port.toNat) (f.octets.list++List.replicate 8 0)
  have bytes : slice s.bytes 2 2 = bigEndian 2 f.port.toNat := by
    rw [encoded]
    simpa [InetAddress.encode,littleEndian_length,bigEndian_length] using read
  have small := f.port.toNat_lt
  rw [sockaddr_in.sin_port,bytes,bigEndianValue_bigEndian (by omega)]

theorem addr_encoded {s : sockaddr_in} {f : InetAddress} (encoded : s.bytes = f.encode) : s.sin_addr = dotted f.octets.list := by
  have read := slice_middle (littleEndian f.family++bigEndian 2 f.port.toNat) f.octets.list (List.replicate 8 0)
  have bytes : slice s.bytes 4 4 = f.octets.list := by
    rw [encoded]
    simpa [InetAddress.encode,littleEndian_length,bigEndian_length,Octets.list] using read
  rw [sockaddr_in.sin_addr,bytes]

structure Holds (engine : List Char → JSNumber) (s : sockaddr_in) (f : InetAddress) : Prop where
  family : s.sin_family = f.family.toNat
  port : s.sin_port = f.port.toNat
  addr : s.sin_addr = dotted f.octets.list
  bytes : s.bytes = littleEndian f.family++bigEndian 2 f.port.toNat++f.octets.list++List.replicate 8 0
  forms : ∀ form other o, s.set_sin_addr engine (AddressForm.value o form) = s.set_sin_addr engine (AddressForm.value o other)
  frame : ∀ w : FieldWrite, ∀ i, ¬w.covers i → (w.run engine s).bytes[i]? = s.bytes[i]?

-- The accessors of sockaddr_in are a codec of Internet addresses.
theorem address_codec (engine : List Char → JSNumber) (writes : List FieldWrite) :
    Holds engine (writesOn engine (sockaddr_in.new engine none none (.number none)) writes) (lastWritten writes) ∧
      ∀ family port : UInt16, ∀ form o, sockaddr_in.new engine (some (family.toNat : ℤ)) (some (port.toNat : ℤ)) (AddressForm.value o form) =
        writesOn engine (sockaddr_in.new engine none none (.number none)) [.family family,.port port,.addr form o] := by
  have encoded := writes_encode engine writes
  refine ⟨⟨family_encoded encoded,port_encoded encoded,addr_encoded encoded,encoded,?_,?_⟩,fun _ _ _ _ => rfl⟩
  · intro form other o
    refine sockaddr_in.ext ?_
    rw [set_sin_addr_bytes,set_sin_addr_bytes]
  · intro w i outside
    exact run_frame engine _ outside

end QjsFfi
