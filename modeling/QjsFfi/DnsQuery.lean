import QjsFfi.DnsMessages
import QjsFfi.SocketAddresses

namespace QjsFfi
open Buffers Numerals DnsMessages

-- A JavaScript string by its code units.
abbrev JSText := List UInt16

def dot : UInt16 := 0x2e

def ToDomain (str : JSText) : List ℕ :=
  (str.splitOn dot).foldl (fun a s => a++s.length :: s.map UInt16.toNat) []

-- The form with alpha = true accumulates a string.
def ToDomainAlpha (str : JSText) : JSText :=
  (str.splitOn dot).foldl (fun a s => a++[UInt16.ofNat s.length]++s) []

-- Copy(dst, src, len) on a Uint8Array; none is the RangeError.
def Copy (dst : List UInt8) (src : List JSNumber) (len : Option ℕ) : Option (List UInt8 × ℕ) :=
  let len := len.getD src.length
  if dst.length < len then none
  else some (patch dst 0 ((List.range len).map (fun i => ToUint8 (element src i))),len)

def queryNumbers (domain : JSText) : List ℕ :=
  [0xff,0xff,0x01,0x00,0x00,0x01,0x00,0x00,0x00,0x00,0x00,0x00]++ToDomain domain++[0x00,0x00,0x01,0x00,0x01]

-- outBuf and outLen as lookup has them before its loop.
def buildQuery (domain : JSText) : Option (List UInt8 × ℕ) := do
  let (outBuf,outLen) ← Copy (List.replicate 1024 0) ((queryNumbers domain).map (fun n : ℕ => some (n : ℤ))) none
  pure (patch outBuf 0 (bigEndian 2 (ToUint16 (some ((outLen : ℤ)-2))).toNat),outLen)

structure ValidDomain (domain : JSText) : Prop where
  sized : ∀ s ∈ domain.splitOn dot, 1 ≤ s.length ∧ s.length ≤ 63
  ascii : ∀ s ∈ domain.splitOn dot, ∀ c ∈ s, c.toNat < 128
  short : domain.length ≤ 253

def addressQuestion (domain : JSText) : Question := ⟨(domain.splitOn dot).map (fun s => s.map UInt16.toUInt8),1,1⟩

theorem copied_numbers (src : List ℕ) :
    (List.range src.length).map (fun i => ToUint8 (element (src.map (fun n : ℕ => some (n : ℤ))) i)) = src.map UInt8.ofNat := by
  refine List.ext_getElem (by simp) ?_
  intro i _ inside
  have within : i < src.length := by simpa using inside
  simp [element,ToUint8,within]
  rfl

theorem ToDomain_flatMap (str : JSText) : ToDomain str = (str.splitOn dot).flatMap (fun s => s.length :: s.map UInt16.toNat) :=
  List.flatMap_eq_foldl.symm

theorem ToDomainAlpha_flatMap (str : JSText) : ToDomainAlpha str = (str.splitOn dot).flatMap (fun s => UInt16.ofNat s.length :: s) := by
  rw [List.flatMap_eq_foldl]
  simp [ToDomainAlpha]

theorem alpha_same {str : JSText} (sized : ∀ s ∈ str.splitOn dot, s.length < 2^16) :
    (ToDomainAlpha str).map UInt16.toNat = ToDomain str := by
  rw [ToDomainAlpha_flatMap,ToDomain_flatMap,List.map_flatMap]
  refine List.flatMap_congr ?_
  intro s member
  have size := sized s member
  simp
  omega

theorem domain_bytes (domain : JSText) :
    (ToDomain domain).map UInt8.ofNat++[0x00] = encodeName (addressQuestion domain).labels := by
  have same : ∀ c : UInt16, UInt8.ofNat c.toNat = c.toUInt8 := fun _ => rfl
  rw [ToDomain_flatMap,List.map_flatMap,encodeName,addressQuestion,List.flatMap_map]
  simp [same,Function.comp_def]

theorem labels_length (domain : JSText) : ((domain.splitOn dot).map (fun s => s.length+1)).sum = domain.length+1 := by
  induction domain with
  | nil => rfl
  | cons c rest ih =>
    rw [List.splitOn_cons_eq_if_modifyHead]
    split
    · simp [ih]
      omega
    · obtain ⟨s,more,split⟩ := List.exists_cons_of_ne_nil (List.splitOn_ne_nil dot rest)
      rw [split] at ih ⊢
      simp at ih ⊢
      omega

theorem question_octets (domain : JSText) : octets (addressQuestion domain).labels = domain.length+2 := by
  have sum := labels_length domain
  simp only [octets,addressQuestion,List.map_map,Function.comp_def,List.length_map]
  omega

def queryRest (domain : JSText) : List UInt8 :=
  bigEndian 2 0x0100++bigEndian 2 1++bigEndian 2 0++bigEndian 2 0++bigEndian 2 0++(addressQuestion domain).encode

theorem queryNumbers_bytes (domain : JSText) : (queryNumbers domain).map UInt8.ofNat = [0xff,0xff]++queryRest domain := by
  have name := domain_bytes domain
  have spelled : (queryNumbers domain).map UInt8.ofNat =
      [0xff,0xff,0x01,0x00,0x00,0x01,0x00,0x00,0x00,0x00,0x00,0x00]++((ToDomain domain).map UInt8.ofNat++[0x00])++[0x00,0x01,0x00,0x01] := by
    simp [queryNumbers]
  have flags : bigEndian 2 0x0100 = [0x01,0x00] := rfl
  have zero : bigEndian 2 0 = [0x00,0x00] := rfl
  have one : bigEndian 2 1 = [0x00,0x01] := rfl
  rw [spelled,name,queryRest,Question.encode,flags,zero,one]
  simp [addressQuestion,one]

theorem queryRest_length (domain : JSText) : (queryRest domain).length = domain.length+16 := by
  simp only [queryRest,Question.encode,List.length_append,bigEndian_length,encodeName_length,question_octets]
  omega

theorem queryNumbers_length (domain : JSText) : (queryNumbers domain).length = domain.length+18 := by
  have bytes := congrArg List.length (queryNumbers_bytes domain)
  rw [List.length_map,List.length_append,queryRest_length] at bytes
  rw [bytes]
  exact Nat.add_comm 2 _

theorem Copy_numbers {domain : JSText} (short : domain.length ≤ 253) :
    Copy (List.replicate 1024 0) ((queryNumbers domain).map (fun n : ℕ => some (n : ℤ))) none =
      some ([0xff,0xff]++queryRest domain++List.replicate (1024-(domain.length+18)) 0,domain.length+18) := by
  have long := queryNumbers_length domain
  have bytes := queryNumbers_bytes domain
  have filled : ([0xff,0xff]++queryRest domain).length = domain.length+18 := by rw [← bytes,List.length_map,long]
  have enough : ¬(List.replicate 1024 (0 : UInt8)).length < (queryNumbers domain).length := by
    rw [long,List.length_replicate]
    omega
  simp only [Copy,Option.getD_none,List.length_map,if_neg enough,copied_numbers,bytes]
  simp only [patch,List.take_zero,List.nil_append,Nat.zero_add,filled,List.drop_replicate,long]

theorem buildQuery_bytes {domain : JSText} (short : domain.length ≤ 253) :
    ∃ outBuf, buildQuery domain = some (outBuf,domain.length+18) ∧
      outBuf.take (domain.length+18) = encodeQuery (domain.length+16) 0x0100 (addressQuestion domain) := by
  have identifier : (ToUint16 (some ((((domain.length+18 : ℕ) : ℤ))-2))).toNat = domain.length+16 := by
    have lowered : (((domain.length+18 : ℕ) : ℤ))-2 = ((domain.length+16 : ℕ) : ℤ) := by omega
    simp only [ToUint16,Option.getD_some,lowered,BitVec.ofInt_natCast,UInt16.toNat_ofBitVec,BitVec.toNat_ofNat]
    omega
  have patched := patch_middle [] [0xff,0xff] (bigEndian 2 (domain.length+16))
    (queryRest domain++List.replicate (1024-(domain.length+18)) 0) rfl
  simp only [List.nil_append,List.length_nil,← List.append_assoc] at patched
  refine ⟨bigEndian 2 (domain.length+16)++queryRest domain++List.replicate (1024-(domain.length+18)) 0,?_,?_⟩
  · rw [buildQuery,Copy_numbers short]
    simp only [Option.bind_eq_bind,Option.bind_some,identifier,patched]
    rfl
  · have filled : (bigEndian 2 (domain.length+16)++queryRest domain).length = domain.length+18 := by
      rw [List.length_append,bigEndian_length,queryRest_length]
      omega
    rw [← filled,List.take_left,queryRest,encodeQuery]
    simp

theorem ValidDomain.plain (valid : ValidDomain domain) : Plain (addressQuestion domain).labels := by
  intro l member
  obtain ⟨s,inside,rfl⟩ := List.mem_map.mp member
  have size := valid.sized s inside
  rw [List.length_map]
  omega

theorem ValidDomain.labels_injective (valid : ValidDomain domain) (same : ValidDomain other)
    (labels : (addressQuestion domain).labels = (addressQuestion other).labels) : domain.splitOn dot = other.splitOn dot := by
  have back : ∀ d, ValidDomain d → (d.splitOn dot) = (addressQuestion d).labels.map (fun l => l.map UInt8.toUInt16) := by
    intro d small
    have kept : ∀ s ∈ d.splitOn dot, (s.map UInt16.toUInt8).map UInt8.toUInt16 = s := by
      intro s member
      rw [List.map_map]
      refine (List.map_congr_left ?_).trans (List.map_id s)
      intro c inside
      have ascii := small.ascii s member c inside
      refine UInt16.toNat.inj ?_
      simp
      omega
    rw [addressQuestion,List.map_map]
    exact ((List.map_congr_left kept).trans (List.map_id _)).symm
  rw [back domain valid,labels,← back other same]

theorem query_decoded (valid : ValidDomain domain) :
    ∃ outBuf outLen, buildQuery domain = some (outBuf,outLen) ∧
      Decodes (outBuf.take outLen) ⟨outLen-2,0x0100,[addressQuestion domain],[],[],[]⟩ := by
  obtain ⟨outBuf,built,bytes⟩ := buildQuery_bytes valid.short
  have short : octets (addressQuestion domain).labels ≤ 255 := by
    have size := valid.short
    rw [question_octets]
    omega
  have identified : domain.length+16 < 256^2 := by
    have size := valid.short
    omega
  have decodes := query_decodes valid.plain short (by simp [addressQuestion]) (by simp [addressQuestion]) identified
    (show 0x0100 < 256^2 by omega)
  exact ⟨outBuf,_,built,bytes ▸ decodes⟩

theorem different_queries (valid : ValidDomain domain) (same : ValidDomain other)
    (one : buildQuery domain = some (a,n)) (two : buildQuery other = some (b,k)) (different : other.splitOn dot ≠ domain.splitOn dot) :
    b.take k ≠ a.take n := by
  intro equal
  obtain ⟨_,_,first,decoded⟩ := query_decoded valid
  obtain ⟨_,_,second,otherDecoded⟩ := query_decoded same
  cases Option.some.inj (first.symm.trans one)
  cases Option.some.inj (second.symm.trans two)
  rw [equal] at otherDecoded
  have messages := decodes_unique otherDecoded decoded
  have questions := congrArg Message.questions messages
  have labels := congrArg Question.labels (List.cons.inj questions).1
  exact different (same.labels_injective valid labels)

-- The datagram of a query is the message that asks for the address of the
-- domain, and no other message.
theorem query_encoding (valid : ValidDomain domain) :
    ∃ outBuf outLen, buildQuery domain = some (outBuf,outLen) ∧
      (∀ x, Decodes (outBuf.take outLen) x ↔
        x = ⟨outLen-2,0x0100,[⟨(domain.splitOn dot).map (fun s => s.map UInt16.toUInt8),1,1⟩],[],[],[]⟩) ∧
      (∀ other b k, ValidDomain other → buildQuery other = some (b,k) → other.splitOn dot ≠ domain.splitOn dot →
        b.take k ≠ outBuf.take outLen) ∧
      (ToDomainAlpha domain).map UInt16.toNat = ToDomain domain := by
  obtain ⟨outBuf,outLen,built,decoded⟩ := query_decoded valid
  refine ⟨outBuf,outLen,built,?_,?_,?_⟩
  · intro x
    constructor
    · intro decodes
      exact decodes_unique decodes decoded
    · rintro rfl
      exact decoded
  · intro other b k same ran different
    exact different_queries valid same built ran different
  · refine alpha_same ?_
    intro s member
    have size := valid.sized s member
    omega

theorem query_encoding_ab : ∃ outBuf outLen, buildQuery [0x61,0x2e,0x62] = some (outBuf,outLen) ∧
    ∀ x, Decodes (outBuf.take outLen) x ↔ x = ⟨outLen-2,0x0100,[⟨[[0x61],[0x62]],1,1⟩],[],[],[]⟩ := by
  have parts : ([0x61,0x2e,0x62] : JSText).splitOn dot = [[0x61],[0x62]] := rfl
  have valid : ValidDomain [0x61,0x2e,0x62] := by
    refine ⟨?_,?_,?_⟩ <;> simp [parts]
  obtain ⟨outBuf,outLen,built,decoded,_⟩ := query_encoding valid
  exact ⟨outBuf,outLen,built,decoded⟩

end QjsFfi
