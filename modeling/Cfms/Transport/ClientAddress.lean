import Mathlib.Algebra.Group.Nat.Defs
import Mathlib.Data.List.Basic

/-!
# The address of a client

`resolve_client_ip` of `include/transport/client_address.py` believes the `X-Forwarded-For` header
of a trusted peer.  It parses every item of the header, walks the chain from the right and takes the
first address that is not trusted.  A header with an item that is no address is ignored as a whole,
and so is `X-Real-IP` when there is a header.

What a client sends comes first in the header, and the proxies append to it.

Texts are lists of characters.  The first half of the module is the part of Python's `ipaddress`
that the function uses.
-/

namespace Cfms.Transport

open List

/-! ### Addresses -/

/-- An `IPv4Address` or an `IPv6Address`, the latter with a scope. -/
inductive IpAddress
  | v4 (ip : BitVec 32)
  | v6 (ip : BitVec 128) (scopeId : Option (List Char))
  deriving DecidableEq

variable (c : Char)

/-- What Python takes for white space. -/
def isPythonSpace : Bool :=
  let n := c.toNat
  (9 ≤ n && n ≤ 13) || (28 ≤ n && n ≤ 32) || n == 0x85 || n == 0xA0 || n == 0x1680 ||
    (0x2000 ≤ n && n ≤ 0x200A) || n == 0x2028 || n == 0x2029 || n == 0x202F || n == 0x205F ||
      n == 0x3000

def strip (text : List Char) : List Char :=
  ((text.dropWhile isPythonSpace).reverse.dropWhile isPythonSpace).reverse

/-- The value of a digit, decimal or hexadecimal. -/
def digitValue : ℕ :=
  if c.isDigit then c.toNat - '0'.toNat
  else if 'a' ≤ c ∧ c ≤ 'f' then c.toNat - 'a'.toNat + 10
  else c.toNat - 'A'.toNat + 10

def numeral (base : ℕ) (text : List Char) : ℕ :=
  text.foldl (fun n c => n * base + digitValue c) 0

def parseOctet (text : List Char) : Option (BitVec 8) :=
  if text.isEmpty || !text.all Char.isDigit || 3 < text.length then none
  else if text ≠ ['0'] ∧ text.head? = some '0' then none
  else if 255 < numeral 10 text then none
  else some (BitVec.ofNat 8 (numeral 10 text))

/-- `IPv4Address(text)`. -/
def parseIPv4 (text : List Char) : Option (BitVec 32) :=
  if text.contains '/' then none
  else
    match (text.splitOn '.').mapM parseOctet with
    | some [a, b, c, d] => some (a ++ b ++ c ++ d)
    | _ => none

def isHexDigit : Bool :=
  c.isDigit || ('a' ≤ c && c ≤ 'f') || ('A' ≤ c && c ≤ 'F')

/-- `_parse_hextet`; `int("", 16)` raises. -/
def parseHextet (text : List Char) : Option (BitVec 16) :=
  if text.isEmpty || !text.all isHexDigit || 4 < text.length then none
  else some (BitVec.ofNat 16 (numeral 16 text))

/-- The parts with an IPv4 suffix in hexadecimal. -/
def expandSuffix (parts : List (List Char)) : Option (List (List Char)) :=
  match parts.getLast? with
  | none => none
  | some last =>
    if last.contains '.' then
      (parseIPv4 last).map fun ip => parts.dropLast ++
        [Nat.toDigits 16 (ip.toNat / 65536), Nat.toDigits 16 (ip.toNat % 65536)]
    else some parts

def skipIndices (parts : List (List Char)) : List ℕ :=
  (List.range (parts.length - 1)).filter fun i => 0 < i && (parts.getD i ['0']).isEmpty

/-- The numbers of parts before and after `::`, and of the zeros it stands for. -/
def layoutOf (parts : List (List Char)) : Option (ℕ × ℕ × ℕ) :=
  let first := (parts.headD []).isEmpty
  let last := (parts.getLastD []).isEmpty
  match skipIndices parts with
  | [] => if parts.length ≠ 8 || first || last then none else some (8, 0, 0)
  | [skip] =>
    let before := if first then skip - 1 else skip
    let after := if last then parts.length - skip - 2 else parts.length - skip - 1
    if (first && before ≠ 0) || (last && after ≠ 0) then none
    else if 8 < before + after + 1 then none
    else some (before, after, 8 - (before + after))
  | _ => none

def joinHextets (hextets : List (BitVec 16)) : BitVec 128 :=
  hextets.foldl (fun ip hextet => ip <<< 16 ||| hextet.setWidth 128) 0

/-- `_ip_int_from_string` of an IPv6 address. -/
def parseIPv6Number (text : List Char) : Option (BitVec 128) :=
  let split := text.splitOn ':'
  if split.length < 3 then none
  else
    (expandSuffix split).bind fun parts =>
      if 9 < parts.length then none
      else
        (layoutOf parts).bind fun (before, after, skipped) =>
          ((parts.take before).mapM parseHextet).bind fun high =>
            ((parts.drop (parts.length - after)).mapM parseHextet).map fun low =>
              joinHextets (high ++ List.replicate skipped 0 ++ low)

/-- `IPv6Address(text)`: the text up to `%` is the number, and the rest the scope. -/
def parseIPv6 (text : List Char) : Option IpAddress :=
  if text.contains '/' then none
  else
    let number := text.takeWhile (· ≠ '%')
    match text.dropWhile (· ≠ '%') with
    | [] => (parseIPv6Number number).map fun ip => .v6 ip none
    | _ :: scopeId =>
      if scopeId.isEmpty || scopeId.contains '%' then none
      else (parseIPv6Number number).map fun ip => .v6 ip (some scopeId)

def ipAddress (text : List Char) : Option IpAddress :=
  match parseIPv4 text with
  | some ip => some (.v4 ip)
  | none => parseIPv6 text

/-- `ipv4_mapped`, where there is one. -/
def IpAddress.unmapped : IpAddress → IpAddress
  | .v4 ip => .v4 ip
  | .v6 ip scopeId =>
    if ip >>> 32 = 0xFFFF then .v4 (ip.setWidth 32) else .v6 ip scopeId

def parseIp (text : List Char) : Option IpAddress :=
  (ipAddress (strip text)).map IpAddress.unmapped

/-- A network address, its host bits zero, with its mask. -/
inductive IpNetwork
  | v4 (networkAddress netmask : BitVec 32)
  | v6 (networkAddress netmask : BitVec 128)
  deriving DecidableEq

/-- `address in network`. -/
def IpNetwork.contains : IpNetwork → IpAddress → Bool
  | .v4 networkAddress netmask, .v4 ip => ip &&& netmask == networkAddress
  | .v6 networkAddress netmask, .v6 ip _ => ip &&& netmask == networkAddress
  | _, _ => false

/-! ### The text of an address -/

def hextetsOf (ip : BitVec 128) : List (List Char) :=
  (List.range 8).map fun i => Nat.toDigits 16 (ip.toNat / 65536 ^ (7 - i) % 65536)

/-- The loop of `_compress_hextets`: start and length of the longest run of zeros, the first one of
its length, with the run that ends here. -/
def longestZeros : List (List Char) → ℕ → ℕ × ℕ → ℕ × ℕ → ℕ × ℕ
  | [], _, _, best => best
  | hextet :: rest, index, (start, length), best =>
    if hextet = ['0'] then
      let run := (if length = 0 then index else start, length + 1)
      longestZeros rest (index + 1) run (if best.2 < run.2 then run else best)
    else longestZeros rest (index + 1) (0, 0) best

def compressHextets (hextets : List (List Char)) : List (List Char) :=
  let (start, length) := longestZeros hextets 0 (0, 0) (0, 0)
  if 1 < length then
    let ending := if start + length = hextets.length then [[]] else []
    let leading := if start = 0 then [[]] else []
    leading ++ hextets.take start ++ [[]] ++ hextets.drop (start + length) ++ ending
  else hextets

/-- `str(address)`, of an address that is not mapped. -/
def IpAddress.text : IpAddress → List Char
  | .v4 ip => List.intercalate ['.'] ((List.range 4).map fun i =>
      Nat.toDigits 10 (ip.toNat / 256 ^ (3 - i) % 256))
  | .v6 ip scopeId =>
    let number := List.intercalate [':'] (compressHextets (hextetsOf ip))
    match scopeId with
    | none => number
    | some scope => number ++ ['%'] ++ scope

example : (parseIp " 2001:DB8:0:0::7%eth0 ".toList).map IpAddress.text =
    some "2001:db8::7%eth0".toList := by decide +kernel

/-! ### Resolution -/

def isTrusted (trustedNetworks : List IpNetwork) (address : IpAddress) : Bool :=
  trustedNetworks.any (·.contains address)

/-- `resolve_client_ip`; `none` when the peer's own address does not parse. -/
def resolveClientIp (peerHost : List Char) (forwardedFor realIp : Option (List Char))
    (trustedNetworks : List IpNetwork) : Option (List Char) :=
  (parseIp peerHost).map fun peer =>
    if !isTrusted trustedNetworks peer then peer.text
    else
      match forwardedFor.filter (· ≠ []) with
      | some header =>
        match (header.splitOn ',').mapM parseIp with
        | none => peer.text
        | some chain =>
          match (chain ++ [peer]).reverse.find? (fun address =>
            !isTrusted trustedNetworks address) with
          | some address => address.text
          | none => (chain.headD peer).text
      | none =>
        match realIp.filter (· ≠ []) with
        | some header =>
          match parseIp header with
          | some address => address.text
          | none => peer.text
        | none => peer.text

/-! ### Appended headers -/

/-- The items that trusted proxies append, joined, after what the client sent. -/
def appendedHeader (client : Option (List Char)) (items : List (List Char)) : List Char :=
  match client with
  | none => List.intercalate [','] items
  | some text => text ++ ',' :: List.intercalate [','] items

def clientItems (client : Option (List Char)) : List (List Char) :=
  match client with
  | none => []
  | some text => text.splitOn ','

section

variable {client : Option (List Char)} {item : List Char} {hops : List (List Char)}

theorem splitOn_appendedHeader (hitem : ',' ∉ item) (hhops : ∀ hop ∈ hops, ',' ∉ hop) :
    (appendedHeader client (item :: hops)).splitOn ',' = clientItems client ++ item :: hops := by
  have hitems : (intercalate [','] (item :: hops)).splitOn ',' = item :: hops := by
    refine splitOn_intercalate ',' ?_ (cons_ne_nil _ _)
    intro part hpart
    rcases mem_cons.mp hpart with rfl | hlater
    · exact hitem
    · exact hhops part hlater
  cases client with
  | none => exact hitems
  | some text =>
    show (text ++ ',' :: intercalate [','] (item :: hops)).splitOn ',' = _
    rw [splitOn_append_cons_self, hitems]
    rfl

theorem parseIp_nil : parseIp [] = none := by decide

theorem appendedHeader_ne_nil (hitem : item ≠ []) : appendedHeader client (item :: hops) ≠ [] := by
  cases client with
  | none =>
    cases hops with
    | nil => simpa [appendedHeader] using hitem
    | cons hop rest => simp [appendedHeader]
  | some text => simp [appendedHeader]

variable {texts : List (List Char)}

theorem exists_chain (h : ∀ text ∈ texts, (parseIp text).isSome = true) :
    ∃ chain, texts.mapM parseIp = some chain := by
  induction texts with
  | nil => exact ⟨[], rfl⟩
  | cons text rest ih =>
    obtain ⟨address, haddr⟩ := Option.isSome_iff_exists.mp (h text mem_cons_self)
    obtain ⟨chain, hchain⟩ := ih fun later hlater => h later (mem_cons_of_mem text hlater)
    refine ⟨address :: chain, ?_⟩
    rw [mapM_cons, haddr, hchain]
    rfl

theorem mapM_parseIp_eq_none (h : ∃ text ∈ texts, parseIp text = none) :
    texts.mapM parseIp = none := by
  induction texts with
  | nil =>
    obtain ⟨text, hmem, -⟩ := h
    cases hmem
  | cons text rest ih =>
    rw [mapM_cons]
    obtain ⟨bad, hmem, hnone⟩ := h
    rcases mem_cons.mp hmem with rfl | hlater
    · rw [hnone]
      rfl
    · rw [ih ⟨bad, hlater, hnone⟩]
      cases parseIp text <;> rfl

variable {trustedNetworks : List IpNetwork}

theorem exists_trusted_chain (h : ∀ hop ∈ hops, ∃ address, parseIp hop = some address ∧
      isTrusted trustedNetworks address = true) :
    ∃ chain, hops.mapM parseIp = some chain ∧
      ∀ address ∈ chain, isTrusted trustedNetworks address = true := by
  induction hops with
  | nil => exact ⟨[], rfl, nofun⟩
  | cons hop rest ih =>
    obtain ⟨address, haddr, htrusted⟩ := h hop mem_cons_self
    obtain ⟨chain, hchain, hall⟩ := ih fun later hlater => h later (mem_cons_of_mem hop hlater)
    refine ⟨address :: chain, ?_, forall_mem_cons.mpr ⟨htrusted, hall⟩⟩
    rw [mapM_cons, haddr, hchain]
    rfl

theorem find?_untrusted {address peer : IpAddress}
    {front behind : List IpAddress} (haddr : isTrusted trustedNetworks address = false)
    (hbehind : ∀ hop ∈ behind, isTrusted trustedNetworks hop = true)
    (hpeer : isTrusted trustedNetworks peer = true) :
    ((front ++ address :: behind) ++ [peer]).reverse.find?
      (fun address => !isTrusted trustedNetworks address) = some address := by
  have hskip : ∀ hop ∈ peer :: behind.reverse, ¬ (!isTrusted trustedNetworks hop) = true := by
    intro hop hhop
    rcases mem_cons.mp hhop with rfl | hlater
    · simp [hpeer]
    · simp [hbehind hop (mem_reverse.mp hlater)]
  have hreverse : ((front ++ address :: behind) ++ [peer]).reverse =
      (peer :: behind.reverse) ++ address :: front.reverse := by
    simp
  rw [hreverse, find?_append, find?_eq_none.mpr hskip, Option.none_or,
    find?_cons_of_pos (by simp [haddr])]

/-- **The client has no influence while it sends addresses.**  What the client sent before the items
of trusted proxies is ignored if all of it are addresses; otherwise the whole header is. -/
theorem resolveClientIp_appended (trustedNetworks : List IpNetwork) (peerHost : List Char)
    (peer : IpAddress) (hpeer : parseIp peerHost = some peer)
    (htrusted : isTrusted trustedNetworks peer = true) (client : Option (List Char))
    (item : List Char) (address : IpAddress) (hops : List (List Char))
    (hitem : parseIp item = some address) (huntrusted : isTrusted trustedNetworks address = false)
    (hhops : ∀ hop ∈ hops, ∃ trusted, parseIp hop = some trusted ∧
      isTrusted trustedNetworks trusted = true)
    (hcomma : ∀ part ∈ item :: hops, ',' ∉ part) (realIp : Option (List Char)) :
    ((∀ text ∈ clientItems client, (parseIp text).isSome = true) →
        resolveClientIp peerHost (some (appendedHeader client (item :: hops))) realIp
          trustedNetworks = some address.text) ∧
      ((∃ text ∈ clientItems client, parseIp text = none) →
        resolveClientIp peerHost (some (appendedHeader client (item :: hops))) realIp
          trustedNetworks = some peer.text) := by
  have hne : item ≠ [] := by
    rintro rfl
    cases hitem
  have hsplit : (appendedHeader client (item :: hops)).splitOn ',' =
      clientItems client ++ item :: hops :=
    splitOn_appendedHeader (hcomma item mem_cons_self)
      fun hop hhop => hcomma hop (mem_cons_of_mem item hhop)
  have hheader : (some (appendedHeader client (item :: hops))).filter (· ≠ []) =
      some (appendedHeader client (item :: hops)) := by
    simp [appendedHeader_ne_nil hne]
  simp only [resolveClientIp, hpeer, Option.map_some, htrusted, Bool.not_true,
    Bool.false_eq_true, if_false, hheader, hsplit]
  constructor
  · intro haddresses
    obtain ⟨front, hfront⟩ := exists_chain haddresses
    obtain ⟨behind, hbehind, hall⟩ := exists_trusted_chain hhops
    have hchain : (clientItems client ++ item :: hops).mapM parseIp =
        some (front ++ address :: behind) := by
      rw [mapM_append, hfront, mapM_cons, hitem, hbehind]
      rfl
    rw [hchain]
    simp only [find?_untrusted huntrusted hall htrusted]
  · rintro ⟨text, hmem, hnone⟩
    rw [mapM_parseIp_eq_none ⟨text, mem_append_left _ hmem, hnone⟩]

end

/-- Proxies in `10.0.0.0/8`. -/
def localProxies : List IpNetwork := [.v4 0x0A000000 0xFF000000]

theorem resolveClientIp_appended_addresses : resolveClientIp "10.0.0.2".toList
        (some (appendedHeader (some "192.0.2.123".toList)
          [" 198.51.100.7".toList, " ::ffff:10.0.0.1".toList]))
        (some "203.0.113.99".toList) localProxies = some "198.51.100.7".toList ∧
      resolveClientIp "10.0.0.2".toList (some (appendedHeader (some "unknown".toList)
          [" 198.51.100.7".toList, " ::ffff:10.0.0.1".toList]))
        (some "203.0.113.99".toList) localProxies = some "10.0.0.2".toList := by
  have happended (client : Option (List Char)) := resolveClientIp_appended localProxies
    "10.0.0.2".toList (.v4 0x0A000002) (by decide +kernel) (by decide +kernel) client
    " 198.51.100.7".toList (.v4 0xC6336407) [" ::ffff:10.0.0.1".toList] (by decide +kernel)
    (by decide +kernel) (fun hop hhop => ⟨.v4 0x0A000001, by
      rw [mem_singleton.mp hhop]
      decide +kernel, by decide +kernel⟩) (by decide +kernel) (some "203.0.113.99".toList)
  exact ⟨(happended _).1 (by decide +kernel), (happended _).2 (by decide +kernel)⟩

/-- With one item that is no address, the client makes the proxy's own address the effective one. -/
theorem resolveClientIp_unparsable :
    ¬ ∀ (trustedNetworks : List IpNetwork) (peerHost : List Char) (peer : IpAddress),
      parseIp peerHost = some peer → isTrusted trustedNetworks peer = true →
        ∀ (client : Option (List Char)) (item : List Char) (address : IpAddress),
          parseIp item = some address → isTrusted trustedNetworks address = false →
            ',' ∉ item → ∀ realIp,
              resolveClientIp peerHost (some (appendedHeader client [item])) realIp
                trustedNetworks = some address.text := by
  intro hall
  have hresolved := hall localProxies "10.0.0.2".toList (.v4 0x0A000002) (by decide +kernel)
    (by decide +kernel) (some "unknown".toList) " 198.51.100.7".toList (.v4 0xC6336407)
    (by decide +kernel) (by decide +kernel) (by decide +kernel) none
  revert hresolved
  decide +kernel

end Cfms.Transport
