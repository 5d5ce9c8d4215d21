import QjsFfi.Records
import QjsFfi.Numerals

namespace DnsMessages
open Buffers Numerals

def number (m : List UInt8) (p n : ℕ) : Option ℕ := (view m p n).map bigEndianValue

-- A domain name at p that ends before q: labels up to the root, with pointers
-- to an earlier place of the message.
inductive NameAt (m : List UInt8) : ℕ → List (List UInt8) → ℕ → Prop where
  | root : m[p]? = some 0 → NameAt m p [] (p+1)
  | label : m[p]? = some n → 0 < n.toNat → n.toNat < 64 → view m (p+1) n.toNat = some l →
      NameAt m (p+1+n.toNat) rest q → NameAt m p (l :: rest) q
  | pointer : m[p]? = some high → 192 ≤ high.toNat → m[p+1]? = some low →
      (high.toNat-192)*256+low.toNat < p → NameAt m ((high.toNat-192)*256+low.toNat) labels q → NameAt m p labels (p+2)

def octets (labels : List (List UInt8)) : ℕ := (labels.map (fun l => l.length+1)).sum+1

structure Question where
  labels : List (List UInt8)
  type : ℕ
  cls : ℕ

structure Record where
  owner : List (List UInt8)
  type : ℕ
  cls : ℕ
  ttl : ℕ
  data : List UInt8

structure QuestionAt (m : List UInt8) (p : ℕ) (x : Question) (q : ℕ) : Prop where
  named : ∃ n, NameAt m p x.labels n ∧ number m n 2 = some x.type ∧ number m (n+2) 2 = some x.cls ∧ q = n+4
  short : octets x.labels ≤ 255

structure RecordAt (m : List UInt8) (p : ℕ) (x : Record) (q : ℕ) : Prop where
  named : ∃ n, NameAt m p x.owner n ∧ number m n 2 = some x.type ∧ number m (n+2) 2 = some x.cls ∧
    number m (n+4) 4 = some x.ttl ∧ number m (n+8) 2 = some x.data.length ∧ view m (n+10) x.data.length = some x.data ∧
    q = n+10+x.data.length
  short : octets x.owner ≤ 255

inductive Items (item : ℕ → α → ℕ → Prop) : ℕ → List α → ℕ → Prop where
  | nil : Items item p [] p
  | cons : item p x q → Items item q rest r → Items item p (x :: rest) r

structure Message where
  id : ℕ
  flags : ℕ
  questions : List Question
  answers : List Record
  authority : List Record
  additional : List Record

structure Decodes (m : List UInt8) (x : Message) : Prop where
  id : number m 0 2 = some x.id
  flags : number m 2 2 = some x.flags
  qdcount : number m 4 2 = some x.questions.length
  ancount : number m 6 2 = some x.answers.length
  nscount : number m 8 2 = some x.authority.length
  arcount : number m 10 2 = some x.additional.length
  sections : ∃ a b c, Items (QuestionAt m) 12 x.questions a ∧ Items (RecordAt m) a x.answers b ∧
    Items (RecordAt m) b x.authority c ∧ Items (RecordAt m) c x.additional m.length

theorem name_unique (one : NameAt m p x q) (two : NameAt m p y r) : x = y ∧ q = r := by
  induction one generalizing y r with
  | root zero =>
    cases two with
    | root _ => exact ⟨rfl,rfl⟩
    | label size positive => cases Option.some.inj (zero.symm.trans size); simp at positive
    | pointer first high => cases Option.some.inj (zero.symm.trans first); simp at high
  | label size positive small text _ ih =>
    cases two with
    | root zero => cases Option.some.inj (size.symm.trans zero); simp at positive
    | label same _ _ other rest =>
      obtain rfl := Option.some.inj (size.symm.trans same)
      obtain rfl := Option.some.inj (text.symm.trans other)
      obtain ⟨rfl,rfl⟩ := ih rest
      exact ⟨rfl,rfl⟩
    | pointer first high =>
      obtain rfl := Option.some.inj (size.symm.trans first)
      omega
  | pointer first high second _ _ ih =>
    cases two with
    | root zero => cases Option.some.inj (first.symm.trans zero); simp at high
    | label size _ small =>
      obtain rfl := Option.some.inj (first.symm.trans size)
      omega
    | pointer same _ other _ target =>
      obtain rfl := Option.some.inj (first.symm.trans same)
      obtain rfl := Option.some.inj (second.symm.trans other)
      exact ⟨(ih target).1,rfl⟩

def Unambiguous (item : ℕ → α → ℕ → Prop) : Prop := ∀ p x q y r, item p x q → item p y r → x = y ∧ q = r

theorem question_unique (m : List UInt8) : Unambiguous (QuestionAt m) := by
  intro p x q y r one two
  obtain ⟨n,name,type,cls,rfl⟩ := one.named
  obtain ⟨k,other,otherType,otherCls,rfl⟩ := two.named
  obtain ⟨labels,rfl⟩ := name_unique name other
  have sameType := Option.some.inj (type.symm.trans otherType)
  have sameCls := Option.some.inj (cls.symm.trans otherCls)
  cases x
  cases y
  simp_all

theorem record_unique (m : List UInt8) : Unambiguous (RecordAt m) := by
  intro p x q y r one two
  obtain ⟨n,name,type,cls,ttl,size,data,rfl⟩ := one.named
  obtain ⟨k,other,otherType,otherCls,otherTtl,otherSize,otherData,rfl⟩ := two.named
  obtain ⟨owner,rfl⟩ := name_unique name other
  have sameSize := Option.some.inj (size.symm.trans otherSize)
  rw [sameSize,otherData] at data
  have sameType := Option.some.inj (type.symm.trans otherType)
  have sameCls := Option.some.inj (cls.symm.trans otherCls)
  have sameTtl := Option.some.inj (ttl.symm.trans otherTtl)
  cases x
  cases y
  simp_all

theorem items_unique {item : ℕ → α → ℕ → Prop} (unique : Unambiguous item) (one : Items item p xs q)
    (two : Items item p ys r) (same : xs.length = ys.length) : xs = ys ∧ q = r := by
  induction one generalizing ys r with
  | nil =>
    cases two with
    | nil => exact ⟨rfl,rfl⟩
    | cons _ _ => simp at same
  | cons first _ ih =>
    cases two with
    | nil => simp at same
    | cons other rest =>
      obtain ⟨rfl,rfl⟩ := unique _ _ _ _ _ first other
      obtain ⟨rfl,rfl⟩ := ih rest (by simpa using same)
      exact ⟨rfl,rfl⟩

theorem decodes_unique (one : Decodes m x) (two : Decodes m y) : x = y := by
  obtain ⟨a,b,c,questions,answers,authority,additional⟩ := one.sections
  obtain ⟨d,e,f,otherQuestions,otherAnswers,otherAuthority,otherAdditional⟩ := two.sections
  have counts := fun i j (first : number m i 2 = some j) k (second : number m i 2 = some k) => Option.some.inj (first.symm.trans second)
  obtain ⟨sameQuestions,rfl⟩ := items_unique (question_unique m) questions otherQuestions
    (counts _ _ one.qdcount _ two.qdcount)
  obtain ⟨sameAnswers,rfl⟩ := items_unique (record_unique m) answers otherAnswers
    (counts _ _ one.ancount _ two.ancount)
  obtain ⟨sameAuthority,rfl⟩ := items_unique (record_unique m) authority otherAuthority
    (counts _ _ one.nscount _ two.nscount)
  obtain ⟨sameAdditional,_⟩ := items_unique (record_unique m) additional otherAdditional
    (counts _ _ one.arcount _ two.arcount)
  have sameId := counts _ _ one.id _ two.id
  have sameFlags := counts _ _ one.flags _ two.flags
  cases x
  cases y
  simp_all

def encodeName (labels : List (List UInt8)) : List UInt8 := labels.flatMap (fun l => UInt8.ofNat l.length :: l)++[0]

def Question.encode (x : Question) : List UInt8 := encodeName x.labels++bigEndian 2 x.type++bigEndian 2 x.cls

def Plain (labels : List (List UInt8)) : Prop := ∀ l ∈ labels, 0 < l.length ∧ l.length < 64

theorem encodeName_length (labels : List (List UInt8)) : (encodeName labels).length = octets labels := by
  simp [encodeName,octets,List.length_flatMap]

theorem name_encoded (plain : Plain labels) (front back : List UInt8) :
    NameAt (front++encodeName labels++back) front.length labels (front.length+(encodeName labels).length) := by
  induction labels generalizing front with
  | nil => exact .root (by simp [encodeName])
  | cons l rest ih =>
    obtain ⟨positive,small⟩ := plain l List.mem_cons_self
    have size : (UInt8.ofNat l.length).toNat = l.length := by
      simp
      omega
    have tail := ih (fun x member => plain x (List.mem_cons_of_mem _ member)) (front++UInt8.ofNat l.length :: l)
    have spelled : front++encodeName (l :: rest)++back = (front++UInt8.ofNat l.length :: l)++encodeName rest++back := by
      simp [encodeName]
    have text := view_middle (front++[UInt8.ofNat l.length]) l (encodeName rest++back)
    have long : (encodeName (l :: rest)).length = l.length+1+(encodeName rest).length := by
      simp [encodeName]
      omega
    rw [spelled,long]
    refine .label (n := UInt8.ofNat l.length) (by simp) (by rw [size]; exact positive) (by rw [size]; exact small) ?_ ?_
    · rw [size]
      simpa using text
    · rw [size]
      have start : (front++UInt8.ofNat l.length :: l).length = front.length+1+l.length := by
        simp
        omega
      rw [start] at tail
      convert tail using 1
      omega

theorem number_encoded (front back : List UInt8) (small : v < 256^n) :
    number (front++bigEndian n v++back) front.length n = some v := by
  have read := view_middle front (bigEndian n v) back
  rw [bigEndian_length] at read
  rw [number,read,Option.map_some,bigEndianValue_bigEndian small]

theorem question_encoded {x : Question} (plain : Plain x.labels) (short : octets x.labels ≤ 255) (type : x.type < 256^2)
    (cls : x.cls < 256^2) (front back : List UInt8) :
    QuestionAt (front++x.encode++back) front.length x (front.length+x.encode.length) := by
  have name := name_encoded plain front (bigEndian 2 x.type++bigEndian 2 x.cls++back)
  have first := number_encoded (front++encodeName x.labels) (bigEndian 2 x.cls++back) type
  have second := number_encoded (front++encodeName x.labels++bigEndian 2 x.type) back cls
  simp only [List.append_assoc,List.length_append,bigEndian_length] at name first second
  have spelled : front++x.encode++back = front++(encodeName x.labels++(bigEndian 2 x.type++(bigEndian 2 x.cls++back))) := by
    simp [Question.encode]
  rw [spelled]
  refine ⟨⟨_,name,first,?_,?_⟩,short⟩
  · rwa [Nat.add_assoc]
  · simp [Question.encode]
    omega

def encodeQuery (id flags : ℕ) (x : Question) : List UInt8 :=
  bigEndian 2 id++bigEndian 2 flags++bigEndian 2 1++bigEndian 2 0++bigEndian 2 0++bigEndian 2 0++x.encode

theorem words_encoded {words : List ℕ} (small : ∀ w ∈ words, w < 256^2) (back : List UInt8) (found : words[i]? = some w) :
    number (words.flatMap (bigEndian 2)++back) (2*i) 2 = some w := by
  obtain ⟨inside,rfl⟩ := List.getElem?_eq_some_iff.mp found
  have split : words.take i++words[i] :: words.drop (i+1) = words := by
    rw [List.getElem_cons_drop,List.take_append_drop]
  have front : ((words.take i).flatMap (bigEndian 2)).length = 2*i := by
    simp [List.length_flatMap,Nat.min_eq_left (Nat.le_of_lt inside)]
    omega
  have spelled : (words.take i).flatMap (bigEndian 2)++(bigEndian 2 words[i]++(words.drop (i+1)).flatMap (bigEndian 2)) =
      words.flatMap (bigEndian 2) := by
    rw [← List.flatMap_cons,← List.flatMap_append,split]
  have read := number_encoded ((words.take i).flatMap (bigEndian 2)) ((words.drop (i+1)).flatMap (bigEndian 2)++back)
    (small words[i] (List.getElem_mem inside))
  rw [front,List.append_assoc,← List.append_assoc (bigEndian 2 words[i]),← List.append_assoc,spelled] at read
  exact read

theorem query_decodes {x : Question} {id flags : ℕ} (plain : Plain x.labels) (short : octets x.labels ≤ 255) (type : x.type < 256^2)
    (cls : x.cls < 256^2) (identified : id < 256^2) (flagged : flags < 256^2) :
    Decodes (encodeQuery id flags x) ⟨id,flags,[x],[],[],[]⟩ := by
  have spelled : encodeQuery id flags x = [id,flags,1,0,0,0].flatMap (bigEndian 2)++x.encode := by
    simp [encodeQuery]
  have small : ∀ w ∈ [id,flags,1,0,0,0], w < 256^2 := by
    simpa using ⟨identified,flagged⟩
  have header := fun i {w} => words_encoded (i := i) (w := w) small x.encode
  have question := question_encoded plain short type cls ([id,flags,1,0,0,0].flatMap (bigEndian 2)) []
  rw [List.append_nil] at question
  rw [spelled]
  refine ⟨header 0 rfl,header 1 rfl,header 2 rfl,header 3 rfl,header 4 rfl,header 5 rfl,?_⟩
  refine ⟨_,_,_,.cons question .nil,.nil,.nil,?_⟩
  rw [List.length_append]
  exact .nil

theorem record_data (record : RecordAt m p x q) : q ≤ m.length ∧ x.data.length ≤ q ∧ slice m (q-x.data.length) x.data.length = x.data := by
  obtain ⟨n,_,_,_,_,_,data,rfl⟩ := record.named
  rw [view] at data
  split at data
  · rename_i inside
    have start : n+10+x.data.length-x.data.length = n+10 := by omega
    refine ⟨inside,by omega,?_⟩
    rw [start]
    exact Option.some.inj data
  · cases data

theorem items_last {item : ℕ → α → ℕ → Prop} (items : Items item p xs q) (last : xs.getLast? = some x) : ∃ r, item r x q := by
  induction items with
  | nil => cases last
  | cons first rest ih =>
    cases rest with
    | nil =>
      cases Option.some.inj last
      exact ⟨_,first⟩
    | cons next more => exact ih (by simpa using last)

theorem last_answer (decodes : Decodes m x) (last : x.answers.getLast? = some r) (first : x.authority = [])
    (second : x.additional = []) : m.drop (m.length-r.data.length) = r.data := by
  obtain ⟨a,b,c,_,answers,authority,additional⟩ := decodes.sections
  rw [first] at authority
  rw [second] at additional
  cases authority
  cases additional
  obtain ⟨p,record⟩ := items_last answers last
  obtain ⟨_,fits,data⟩ := record_data record
  rwa [slice,List.take_of_length_le (by simp; omega)] at data

end DnsMessages
