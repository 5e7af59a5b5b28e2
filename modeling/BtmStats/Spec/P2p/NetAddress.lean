import BtmStats.Spec.Pex.AddrBook

/-!
# `BtmStats.Spec.P2p.NetAddress`: the kinds of network addresses

The model of the predicates of `p2p/netaddress.go`, over the part of package `net` that they
use. They look at the bytes of an IP, and only `Valid` tells nil from an empty slice. Dialling,
parsing and `ReachabilityTo` are left out.

What `IPNet.String` prints for a number and a mask is the parameter `NetText`: the results use
only that equal texts mean equal networks, whether the number is printed with or without its
host part.
-/

set_option autoImplicit false

namespace BtmStats.Spec.P2p

open Spec.Pex

/-! ### Package `net` -/

/-- `net.IP` -/
abbrev IP := List UInt8

/-- `net.IPMask` -/
abbrev IPMask := List UInt8

/-- The prefix of an IPv4 address in 16 bytes. -/
def v4InV6Prefix : List UInt8 := [0, 0, 0, 0, 0, 0, 0, 0, 0, 0, 0xff, 0xff]

/-- `net.IPv4`: the form of 16 bytes. `net.ParseIP` gives it for dotted numbers. -/
def ipv4 (a b c d : UInt8) : IP := v4InV6Prefix ++ [a, b, c, d]

/-- The address of 16 bytes with the given first ones and zeros, as `net.ParseIP` reads it. -/
def ipv6 (front : List UInt8) : IP := front ++ List.replicate (16 - front.length) 0

/-- `IP.To4` -/
def IP.to4 (ip : IP) : Option IP :=
  if ip.length = 4 then some ip
  else if ip.length = 16 ∧ ip.take 12 = v4InV6Prefix then some (ip.drop 12)
  else none

/-- `IP.Equal`: an IPv4 address and its form of 16 bytes are equal. -/
def IP.equal (ip x : IP) : Bool :=
  if ip.length = x.length then decide (ip = x)
  else if ip.length = 4 ∧ x.length = 16 then
    decide (x.take 12 = v4InV6Prefix) && decide (ip = x.drop 12)
  else if ip.length = 16 ∧ x.length = 4 then
    decide (ip.take 12 = v4InV6Prefix) && decide (ip.drop 12 = x)
  else false

/-- `IP.IsUnspecified` -/
def IP.isUnspecified (ip : IP) : Bool := IP.equal ip (ipv4 0 0 0 0) || IP.equal ip (ipv6 [])

/-- `IP.IsLoopback` -/
def IP.isLoopback (ip : IP) : Bool :=
  match IP.to4 ip with
  | some ip4 => decide (ip4[0]? = some 127)
  | none => IP.equal ip (List.replicate 15 0 ++ [1])

/-- The loop of `net.CIDRMask`: `l` bytes of a mask with `n` ones. -/
def cidrMaskBytes : Nat → Nat → IPMask
  | 0, _ => []
  | l + 1, n =>
    if 8 ≤ n then 0xff :: cidrMaskBytes l (n - 8)
    else ~~~ (UInt8.ofNat (0xff >>> n)) :: cidrMaskBytes l 0

/-- `net.CIDRMask` -/
def cidrMask (ones bits : Nat) : IPMask :=
  if (bits = 32 ∨ bits = 128) ∧ ones ≤ bits then cidrMaskBytes (bits / 8) ones else []

/-- `net.IPNet` -/
structure IPNet where
  ip : IP
  mask : IPMask

/-- `networkNumberAndMask`; both are nil for an address or a mask that does not fit. -/
def IPNet.networkNumberAndMask (n : IPNet) : IP × IPMask :=
  match IP.to4 n.ip with
  | some ip4 =>
    if n.mask.length = 4 then (ip4, n.mask)
    else if n.mask.length = 16 then (ip4, n.mask.drop 12)
    else ([], [])
  | none => if n.ip.length = 16 ∧ n.mask.length = 16 then (n.ip, n.mask) else ([], [])

/-- The bytes of an address under a mask. -/
def maskBytes (ip : IP) (m : IPMask) : List UInt8 := ip.zipWith (· &&& ·) m

/-- `IPNet.Contains` -/
def IPNet.contains (n : IPNet) (ip : IP) : Bool :=
  let nm := n.networkNumberAndMask
  let ip := (IP.to4 ip).getD ip
  decide (ip.length = nm.1.length) && decide (maskBytes ip nm.2 = maskBytes nm.1 nm.2)

/-- The text in CIDR notation of a number and a mask. -/
structure NetText where
  cidr : IP → IPMask → Str

/-- What `IPNet.String` returns for an address or a mask that does not fit: `<nil>`. -/
def nilText : Str := [60, 110, 105, 108, 62]

/-- `IPNet.String` -/
def IPNet.string (text : NetText) (n : IPNet) : Str :=
  let nm := n.networkNumberAndMask
  if nm.1 = [] ∨ nm.2 = [] then nilText else text.cidr nm.1 nm.2

/-! ### The reserved networks -/

/-- The networks of `p2p/netaddress.go`. -/
def rfc1918_10 : IPNet := ⟨ipv4 10 0 0 0, cidrMask 8 32⟩

def rfc1918_192 : IPNet := ⟨ipv4 192 168 0 0, cidrMask 16 32⟩

def rfc1918_172 : IPNet := ⟨ipv4 172 16 0 0, cidrMask 12 32⟩

def rfc3849 : IPNet := ⟨ipv6 [0x20, 0x01, 0x0d, 0xb8], cidrMask 32 128⟩

def rfc3927 : IPNet := ⟨ipv4 169 254 0 0, cidrMask 16 32⟩

def rfc3964 : IPNet := ⟨ipv6 [0x20, 0x02], cidrMask 16 128⟩

def rfc4193 : IPNet := ⟨ipv6 [0xfc], cidrMask 7 128⟩

def rfc4380 : IPNet := ⟨ipv6 [0x20, 0x01], cidrMask 32 128⟩

def rfc4843 : IPNet := ⟨ipv6 [0x20, 0x01, 0x00, 0x10], cidrMask 28 128⟩

def rfc4862 : IPNet := ⟨ipv6 [0xfe, 0x80], cidrMask 64 128⟩

def rfc6052 : IPNet := ⟨ipv6 [0x00, 0x64, 0xff, 0x9b], cidrMask 96 128⟩

def rfc6145 : IPNet := ⟨ipv6 [0, 0, 0, 0, 0, 0, 0, 0, 0xff, 0xff], cidrMask 96 128⟩

def zero4 : IPNet := ⟨ipv4 0 0 0 0, cidrMask 8 32⟩

end BtmStats.Spec.P2p

namespace BtmStats.Spec.Pex.NetAddress

open Spec

/-! ### The predicates -/

/-- The tests for the networks. -/
def rfc1918 (na : NetAddress) : Bool :=
  P2p.rfc1918_10.contains na.bytes || P2p.rfc1918_192.contains na.bytes ||
    P2p.rfc1918_172.contains na.bytes

def rfc3849 (na : NetAddress) : Bool := P2p.rfc3849.contains na.bytes

def rfc3927 (na : NetAddress) : Bool := P2p.rfc3927.contains na.bytes

def rfc3964 (na : NetAddress) : Bool := P2p.rfc3964.contains na.bytes

def rfc4193 (na : NetAddress) : Bool := P2p.rfc4193.contains na.bytes

def rfc4380 (na : NetAddress) : Bool := P2p.rfc4380.contains na.bytes

def rfc4843 (na : NetAddress) : Bool := P2p.rfc4843.contains na.bytes

def rfc4862 (na : NetAddress) : Bool := P2p.rfc4862.contains na.bytes

def rfc6052 (na : NetAddress) : Bool := P2p.rfc6052.contains na.bytes

def rfc6145 (na : NetAddress) : Bool := P2p.rfc6145.contains na.bytes

/-- `Local` -/
def isLocal (na : NetAddress) : Bool := P2p.IP.isLoopback na.bytes || P2p.zero4.contains na.bytes

/-- `Valid`: nil, unspecified and broadcast addresses are not. The length is not checked. -/
def valid (na : NetAddress) : Bool :=
  na.ip.isSome &&
    !(P2p.IP.isUnspecified na.bytes || na.rfc3849 ||
      P2p.IP.equal na.bytes (P2p.ipv4 255 255 255 255))

/-- `Routable` -/
def routable (na : NetAddress) : Bool :=
  na.valid && !(na.rfc1918 || na.rfc3927 || na.rfc4862 || na.rfc4193 || na.rfc4843 || na.isLocal)

end BtmStats.Spec.Pex.NetAddress

/-! ### Groups

The model of `groupKey` of `p2p/pex/addrbook.go`, and the parameters of the address book that
come from it and from the predicates of a network address. A slice of an address is taken where
a predicate holds that only addresses of 16 bytes have, so its bounds need no check.
-/

namespace BtmStats.Spec.Pex

open Lib Spec.P2p

/-- `ip[low:high]` -/
def slice (ip : IP) (low high : Nat) : IP := (ip.take high).drop low

/-- The text of the network of an address with a mask of the given size. -/
def networkText (text : NetText) (ip : IP) (ones bits : Nat) : Str :=
  IPNet.string text ⟨ip, cidrMask ones bits⟩

/-- `groupKey`: the network that an address is counted in. -/
def groupKey (text : NetText) (routabilityStrict : Bool) (na : NetAddress) : Str :=
  if routabilityStrict && na.isLocal then [108, 111, 99, 97, 108] -- local
  else if routabilityStrict && !na.routable then
    [117, 110, 114, 111, 117, 116, 97, 98, 108, 101] -- unroutable
  else if (IP.to4 na.bytes).isSome then networkText text na.bytes 16 32
  else if na.rfc6145 || na.rfc6052 then networkText text (slice na.bytes 12 16) 16 32
  -- The slice has five bytes.
  else if na.rfc3964 then networkText text (slice na.bytes 2 7) 16 32
  else if na.rfc4380 then networkText text ((slice na.bytes 12 16).map (· ^^^ 0xff)) 16 32
  else
    let heNet : IPNet := ⟨ipv6 [0x20, 0x01, 0x04, 0x70], cidrMask 32 128⟩
    let bits := if heNet.contains na.bytes then 36 else 32
    networkText text na.bytes bits 128

/-- The parameters of the book with the real `Routable` and `groupKey`. -/
def netEnv (text : NetText) (str : NetAddress → Str)
    (doubleSha256 : List UInt8 → FixedBytes 32) : Env :=
  ⟨str, NetAddress.routable, groupKey text, doubleSha256⟩

end BtmStats.Spec.Pex
