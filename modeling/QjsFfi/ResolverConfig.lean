import QjsFfi.Patterns
import QjsFfi.Sockets

namespace QjsFfi
open Patterns

-- \s of a regular expression, and the characters that . leaves out.
def isSpace (c : Char) : Bool :=
  c.toNat ∈ [0x9,0xa,0xb,0xc,0xd,0x20,0xa0,0x1680,0x2028,0x2029,0x202f,0x205f,0x3000,0xfeff] || (0x2000 ≤ c.toNat && c.toNat ≤ 0x200a)

def isTerminator (c : Char) : Bool := c.toNat ∈ [0xa,0xd,0x2028,0x2029]

def nameserver : List Char := ['n','a','m','e','s','e','r','v','e','r']

-- /^\s*nameserver/ and /^\s*nameserver\s*([^\s]+).*/, whose group is its item 12
def namesServer : List (Item Char) := .many isSpace 0 :: word nameserver
def serverText : List (Item Char) :=
  .many isSpace 0 :: (word nameserver++[.many isSpace 0,.many (fun c => !isSpace c) 1,.many (fun c => !isTerminator c) 0])

def servers (resolvConf : List Char) : List (List Char) :=
  ((resolvConf.splitOn '\n').filter (fun l => (Patterns.run namesServer l).isSome)).map (Patterns.replace serverText 12)

inductive ConfigLine where
  | nameserver (indent gap server tail : List Char)
  | other (text : List Char)

def ConfigLine.text : ConfigLine → List Char
  | .nameserver indent gap server tail => indent++(QjsFfi.nameserver++(gap++(server++tail)))
  | .other text => text

def ConfigLine.server : ConfigLine → Option (List Char)
  | .nameserver _ _ server _ => some server
  | .other _ => none

structure ServerLine (indent gap server tail : List Char) : Prop where
  before : ∀ c ∈ indent, isSpace c = true
  between : ∀ c ∈ gap, isSpace c = true
  present : server ≠ []
  solid : ∀ c ∈ server, isSpace c = false
  apart : ∀ c, tail.head? = some c → isSpace c = true
  after : ∀ c ∈ tail, isTerminator c = false
  line : '\n' ∉ indent ∧ '\n' ∉ gap

def ConfigLine.Valid : ConfigLine → Prop
  | .nameserver indent gap server tail => ServerLine indent gap server tail
  | .other text => '\n' ∉ text ∧ ∀ indent rest, (∀ c ∈ indent, isSpace c = true) → text ≠ indent++(QjsFfi.nameserver++rest)

def render (lines : List ConfigLine) : List Char := ['\n'].intercalate (lines.map ConfigLine.text)

section ServerLine
variable {indent gap server tail : List Char} (line : ServerLine indent gap server tail)
include line

theorem server_matched : Patterns.run serverText (indent++(nameserver++(gap++(server++tail)))) =
    some (indent :: (nameserver.map (fun c => [c])++[gap,server,tail])) := by
  have rest : Patterns.run [.many (fun c => !isTerminator c) 0] tail = some [tail] := by
    have whole : Patterns.run [.many (fun c => !isTerminator c) 0] (tail++[]) = some [tail] :=
      run_stretch 0 (fun c member => congrArg not (line.after c member)) (by simp) (Nat.zero_le _) rfl
    rwa [List.append_nil] at whole
  have named := run_stretch 1 (fun c member => congrArg not (line.solid c member)) (fun c first => congrArg not (line.apart c first))
    (List.length_pos_iff.mpr line.present) rest
  have spaced := run_stretch 0 line.between (fun c first => ?_) (Nat.zero_le _) named
  have worded := run_word [.many isSpace 0,.many (fun c => !isSpace c) 1,.many (fun c => !isTerminator c) 0]
    nameserver (gap++(server++tail))
  rw [spaced,Option.map_some] at worded
  refine run_stretch 0 line.before ?_ (Nat.zero_le _) worded
  · rintro c ⟨⟩
    rfl
  · refine line.solid c ?_
    obtain ⟨d,server,rfl⟩ := List.exists_cons_of_ne_nil line.present
    cases first
    exact List.mem_cons_self

theorem server_named : (Patterns.run namesServer (indent++(nameserver++(gap++(server++tail))))).isSome = true := by
  have worded := run_word [] nameserver (gap++(server++tail))
  rw [List.append_nil] at worded
  have found := run_stretch 0 line.before (fun c first => ?_) (Nat.zero_le _) worded
  · exact congrArg Option.isSome found
  · cases first
    rfl

theorem server_replaced : Patterns.replace serverText 12 (indent++(nameserver++(gap++(server++tail)))) = server := by
  have whole : (indent :: (nameserver.map (fun c => [c])++[gap,server,tail])).flatten = indent++(nameserver++(gap++(server++tail))) := by
    simp [nameserver]
  simp only [Patterns.replace,server_matched line,whole,List.drop_length,List.append_nil]
  rfl

theorem server_line : '\n' ∉ indent++(nameserver++(gap++(server++tail))) := by
  intro member
  simp only [List.mem_append] at member
  rcases member with first | word | second | name | last
  · exact line.line.1 first
  · exact absurd word (by decide)
  · exact line.line.2 second
  · cases line.solid _ name
  · cases line.after _ last

end ServerLine

theorem other_unnamed (valid : (ConfigLine.other text).Valid) : (Patterns.run namesServer text).isSome = false := by
  cases found : Patterns.run namesServer text with
  | none => rfl
  | some parts =>
    have blocked : ∀ c cs, isSpace c = true → Patterns.run (word nameserver) (c :: cs) = none := by
      intro c cs space
      have other : c ≠ 'n' := by
        rintro rfl
        cases space
      rw [word,nameserver,List.map_cons,run_one,if_neg (by simpa using other)]
    obtain ⟨_,later,onward,_⟩ := run_only 0 blocked found
    rw [← List.append_nil (word nameserver)] at onward
    obtain ⟨rest,same⟩ := run_word_prefix onward
    refine absurd ?_ (valid.2 (text.takeWhile isSpace) rest (fun c member => List.all_eq_true.mp List.all_takeWhile c member))
    rw [same]
    exact List.takeWhile_append_dropWhile.symm

theorem servers_render {lines : List ConfigLine} (valid : ∀ line ∈ lines, line.Valid) :
    servers (render lines) = lines.filterMap ConfigLine.server := by
  cases lines with
  | nil => decide
  | cons first others =>
    have plain : ∀ text ∈ (first :: others).map ConfigLine.text, '\n' ∉ text := by
      intro text member
      obtain ⟨line,listed,rfl⟩ := List.mem_map.mp member
      cases line with
      | nameserver indent gap server tail => exact server_line (valid _ listed)
      | other text => exact (valid _ listed).1
    rw [servers,render,List.splitOn_intercalate '\n' plain (by simp)]
    generalize first :: others = lines at valid
    induction lines with
    | nil => rfl
    | cons line rest ih =>
      have later := ih (fun other member => valid other (List.mem_cons_of_mem _ member))
      have own := valid line List.mem_cons_self
      cases line with
      | nameserver indent gap server tail =>
        have kept : (Patterns.run namesServer (ConfigLine.nameserver indent gap server tail).text).isSome = true := server_named own
        have replaced : Patterns.replace serverText 12 (ConfigLine.nameserver indent gap server tail).text = server := server_replaced own
        simp only [List.map_cons,List.filter_cons,kept,if_true,later,replaced]
        rfl
      | other text =>
        have left : (Patterns.run namesServer (ConfigLine.other text).text).isSome = false := other_unnamed own
        simp only [List.map_cons,List.filter_cons,left,Bool.false_eq_true,if_false,later]
        rfl

theorem dotted_solid (o : Octets) : ∀ c ∈ dotted o.list, isSpace c = false := by
  intro c member
  have part : c = '.' ∨ c.isDigit = true := by
    simp only [dotted,Octets.list,List.map_cons,List.map_nil,List.intercalate,List.intersperse,List.flatten_cons,List.flatten_nil,
      List.mem_append,List.mem_singleton,List.append_nil] at member
    have digit := fun n => decimal_digits n c
    grind
  rcases part with rfl | digit
  · rfl
  · have range : 48 ≤ c.toNat ∧ c.toNat ≤ 57 := by
      simp only [Char.isDigit,Bool.and_eq_true,decide_eq_true_eq] at digit
      exact digit
    simp only [isSpace,Bool.or_eq_false_iff,decide_eq_false_iff_not,List.mem_cons,List.not_mem_nil,or_false,Bool.and_eq_false_iff]
    omega

-- The address lookup sends to, made of servers[0], which is undefined when there is none.
def lookupRemote (engine : List Char → JSNumber) (servers : List (List Char)) : sockaddr_in :=
  let remote := sockaddr_in.new engine none none (.number none)
  let remote := remote.set_sin_family (some AF_INET)
  let remote := remote.set_sin_port (some 53)
  remote.set_sin_addr engine (match servers.head? with | some addr => .string addr | none => .number none)

def sockaddr_in.toString (s : sockaddr_in) : List Char := s.sin_addr++([':']++decimal s.sin_port)

-- new sockaddr_in(AF_INET, Math.floor(Math.random() * 65535 - 1024) + 1024, '0.0.0.0')
def lookupLocal (engine : List Char → JSNumber) (port : ℤ) : sockaddr_in :=
  sockaddr_in.new engine (some AF_INET) (some port) (.string (dotted [0,0,0,0]))

-- sock.bind(local): an object that is no Array is stored as the number of its text.
def lookupBind (engine : List Char → JSNumber) (port : ℤ) (opened bound : SysResult) : Option Returned :=
  (Socket.new engine IPPROTO_UDP opened).bind engine (some (.number (toNumber engine (lookupLocal engine port).toString))) none bound

def Octets.none : Octets := ⟨0,0,0,0⟩

theorem remote_encoded (engine : List Char → JSNumber) (o : Octets) (rest : List (List Char)) :
    (lookupRemote engine (dotted o.list :: rest)).bytes = InetAddress.encode ⟨2,53,o⟩ :=
  writes_encode engine [.family 2,.port 53,.addr .string o]

theorem remote_missing (engine : List Char → JSNumber) : (lookupRemote engine []).bytes = InetAddress.encode ⟨2,53,Octets.none⟩ :=
  writes_encode engine [.family 2,.port 53,.addr .number Octets.none]

-- Number makes nothing of a text with a colon, so the address is 0.0.0.0 and the port that
-- was drawn goes nowhere.
theorem bind_unnamed {engine : List Char → JSNumber} (colon : ∀ text, ':' ∈ text → engine text = none) (port : ℤ) (opened bound : SysResult) :
    ∃ r, lookupBind engine port opened bound = some r ∧
      r.calls = [.setsockopt (ToInt32 (some opened.viaCall)) SOL_SOCKET SO_REUSEADDR 1 4,
        .bind (ToInt32 (some opened.viaCall)) (InetAddress.encode ⟨2,0,Octets.none⟩) 16] := by
  have nothing : toNumber engine (lookupLocal engine port).toString = none := by
    have member : ':' ∈ (lookupLocal engine port).toString := by simp [sockaddr_in.toString]
    have mixed : (lookupLocal engine port).toString.all Char.isDigit = false := by
      rw [List.all_eq_false]
      exact ⟨':',member,by decide⟩
    simp [toNumber,mixed,colon _ member]
  have address : (sockaddr_in.new engine (some AF_INET) none (.number none)).set_sin_addr engine (.number none) =
      ⟨InetAddress.encode ⟨2,0,Octets.none⟩,rfl⟩ := rfl
  refine ⟨_,rfl,?_⟩
  simp only [nothing,addressed,address]
  split <;> rfl

-- Every lookup goes from 0.0.0.0 and port 0 to port 53 of the first server that
-- resolv.conf names, and to 0.0.0.0 when it names none.
theorem lookup_addresses {engine : List Char → JSNumber} (colon : ∀ text, ':' ∈ text → engine text = none)
    {lines : List ConfigLine} (valid : ∀ line ∈ lines, line.Valid) :
    servers (render lines) = lines.filterMap ConfigLine.server ∧
    (∀ o : Octets, (lines.filterMap ConfigLine.server).head? = some (dotted o.list) →
      (lookupRemote engine (servers (render lines))).bytes = InetAddress.encode ⟨2,53,o⟩) ∧
    ((lines.filterMap ConfigLine.server) = [] →
      (lookupRemote engine (servers (render lines))).bytes = InetAddress.encode ⟨2,53,Octets.none⟩) ∧
    ∀ (port : ℤ) (opened bound : SysResult), ∃ r, lookupBind engine port opened bound = some r ∧
      r.calls = [.setsockopt (ToInt32 (some opened.viaCall)) SOL_SOCKET SO_REUSEADDR 1 4,
        .bind (ToInt32 (some opened.viaCall)) (InetAddress.encode ⟨2,0,Octets.none⟩) 16] := by
  refine ⟨servers_render valid,?_,?_,bind_unnamed colon⟩
  · intro o first
    rw [servers_render valid]
    cases found : lines.filterMap ConfigLine.server with
    | nil =>
      rw [found] at first
      cases first
    | cons server rest =>
      rw [found] at first
      cases first
      exact remote_encoded engine o rest
  · intro missing
    rw [servers_render valid,missing]
    exact remote_missing engine

theorem lookup_addresses_three : ∃ lines : List ConfigLine,
    render lines = "# dns\n nameserver\t10.0.0.1 # lan\nnameserver 8.8.8.8".toList ∧
      (lookupRemote (fun _ => none) (servers (render lines))).bytes = InetAddress.encode ⟨2,53,⟨10,0,0,1⟩⟩ := by
  let lines : List ConfigLine := [.other ['#',' ','d','n','s'],.nameserver [' '] ['\t'] (dotted (Octets.list ⟨10,0,0,1⟩)) [' ','#',' ','l','a','n'],
    .nameserver [] [' '] (dotted (Octets.list ⟨8,8,8,8⟩)) []]
  have valid : ∀ line ∈ lines, line.Valid := by
    intro line member
    simp only [lines,List.mem_cons,List.not_mem_nil,or_false] at member
    rcases member with rfl | rfl | rfl
    · refine ⟨by decide,?_⟩
      intro indent rest spaces same
      cases indent with
      | nil => cases same
      | cons c indent =>
        obtain ⟨rfl,_⟩ := List.cons.inj same
        cases spaces '#' List.mem_cons_self
    · exact ⟨by simp [isSpace],by simp [isSpace],List.cons_ne_nil _ _,dotted_solid _,by simp [isSpace],by simp [isTerminator],by simp⟩
    · exact ⟨by simp,by simp [isSpace],List.cons_ne_nil _ _,dotted_solid _,by simp,by simp,by simp⟩
  exact ⟨lines,by decide +kernel,(lookup_addresses (fun _ _ => rfl) valid).2.1 ⟨10,0,0,1⟩ rfl⟩

end QjsFfi
