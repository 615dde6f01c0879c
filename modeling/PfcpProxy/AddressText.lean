import PfcpProxy.Lib.Text
import PfcpProxy.Message

/-!
# Textual socket addresses

`SocketAddr::from_str`, the parser of the standard library that the control file monitor and
`run_proxy` read addresses with, and the characters of a text that it accepts.
-/

namespace PfcpProxy

open Text Text.Reader

/-- An octet of an IPv4 address. A leading zero is refused. -/
def readOctet : Reader (BitVec 8) := do
  let n ← number 10 (some 3) false UInt8.size
  pure (BitVec.ofNat 8 n)

def readIpv4Addr : Reader (BitVec 32) := do
  let a ← separated '.' 0 readOctet
  let b ← separated '.' 1 readOctet
  let c ← separated '.' 2 readOctet
  let d ← separated '.' 3 readOctet
  pure (a ++ b ++ c ++ d)

/-- The groups at the front of the text, at most `slots` of them, and whether they end with an
embedded IPv4 address, which takes two slots. -/
def readGroups : ℕ → ℕ → Reader (List (BitVec 16) × Bool)
  | 0, _ => pure ([], false)
  | slots + 1, i =>
    let ipv4 : Reader (List (BitVec 16) × Bool) := do
      let ip ← separated ':' i readIpv4Addr
      pure ([ip.extractLsb' 16 16, ip.extractLsb' 0 16], true)
    let group : Reader (List (BitVec 16) × Bool) := do
      let g ← separated ':' i (number 16 (some 4) true UInt16.size)
      let rest ← readGroups slots (i + 1)
      pure (BitVec.ofNat 16 g :: rest.1, rest.2)
    if 0 < slots then ipv4.orElse (group.orElse (pure ([], false)))
    else group.orElse (pure ([], false))

/-- The address with these groups, the first one in the high bits. -/
def ofGroups (groups : List (BitVec 16)) : BitVec 128 :=
  groups.foldl (fun ip g => ip <<< 16 ||| g.setWidth 128) 0

def readIpv6Addr : Reader (BitVec 128) := do
  let head ← readGroups 8 0
  if head.1.length = 8 then pure (ofGroups head.1)
  -- An IPv4 part is not allowed before `::`.
  else if head.2 = true then fail
  else do
    givenChar ':'
    givenChar ':'
    let tail ← readGroups (8 - (head.1.length + 1)) 0
    pure (ofGroups (head.1 ++ List.replicate (8 - head.1.length - tail.1.length) 0 ++ tail.1))

def readPort : Reader (BitVec 16) := do
  givenChar ':'
  let n ← number 10 none true UInt16.size
  pure (BitVec.ofNat 16 n)

def readScopeId : Reader (BitVec 32) := do
  givenChar '%'
  let n ← number 10 none true UInt32.size
  pure (BitVec.ofNat 32 n)

def readSocketAddrV4 : Reader SocketAddr := do
  let ip ← readIpv4Addr
  let port ← readPort
  pure (.v4 ip port)

def readSocketAddrV6 : Reader SocketAddr := do
  givenChar '['
  let ip ← readIpv6Addr
  let scopeId ← readScopeId.orElse (pure 0)
  givenChar ']'
  let port ← readPort
  pure (.v6 ip port 0 scopeId)

def readSocketAddr : Reader SocketAddr := readSocketAddrV4.orElse readSocketAddrV6

/-- `SocketAddr::from_str`. -/
def parseSocketAddr (s : List Char) : Option SocketAddr := readSocketAddr.readAll s

/-! ### The characters of an address -/

def IsAddressChar (c : Char) : Prop := (toDigit 16 c).isSome ∨ c ∈ [':', '.', '[', ']', '%']

instance : DecidablePred IsAddressChar := fun c =>
  inferInstanceAs (Decidable ((toDigit 16 c).isSome ∨ c ∈ [':', '.', '[', ']', '%']))

lemma isAddressChar_of_digit {c : Char} (h : (toDigit 10 c).isSome) : IsAddressChar c := by
  left
  unfold toDigit at *
  dsimp only at *
  split_ifs at * <;> first | rfl | omega

lemma takes_readIpv4Addr : Takes IsAddressChar readIpv4Addr := by
  have hoctet : Takes IsAddressChar readOctet :=
    (takes_number (fun _ => isAddressChar_of_digit) _ _ _).bind fun _ => takes_pure _
  have hdot : IsAddressChar '.' := by decide
  exact (hoctet.separated hdot 0).bind fun _ => (hoctet.separated hdot 1).bind fun _ =>
    (hoctet.separated hdot 2).bind fun _ => (hoctet.separated hdot 3).bind fun _ => takes_pure _

lemma takes_readGroups (slots i : ℕ) : Takes IsAddressChar (readGroups slots i) := by
  induction slots generalizing i with
  | zero => exact takes_pure _
  | succ slots ih =>
    have hcolon : IsAddressChar ':' := by decide
    have hnumber : Takes IsAddressChar (number 16 (some 4) true UInt16.size) :=
      takes_number (fun _ => Or.inl) _ _ _
    have hgroup := ((hnumber.separated hcolon i).bind fun g => (ih (i + 1)).bind fun rest =>
        takes_pure (BitVec.ofNat 16 g :: rest.1, rest.2)).orElse (takes_pure ([], false))
    unfold readGroups
    dsimp only
    split
    · exact ((takes_readIpv4Addr.separated hcolon i).bind fun ip => takes_pure _).orElse hgroup
    · exact hgroup

lemma takes_readIpv6Addr : Takes IsAddressChar readIpv6Addr := by
  have hcolon : IsAddressChar ':' := by decide
  refine (takes_readGroups 8 0).bind fun head => ?_
  split
  · exact takes_pure _
  split
  · exact takes_fail
  · exact (takes_givenChar hcolon).bind fun _ => (takes_givenChar hcolon).bind fun _ =>
      (takes_readGroups _ 0).bind fun _ => takes_pure _

lemma takes_readSocketAddr : Takes IsAddressChar readSocketAddr := by
  have hnumber : ∀ bound, Takes IsAddressChar (number 10 none true bound) :=
    takes_number (fun _ => isAddressChar_of_digit) none true
  have hport : Takes IsAddressChar readPort :=
    (takes_givenChar (by decide)).bind fun _ => (hnumber _).bind fun _ => takes_pure _
  have hscope : Takes IsAddressChar (readScopeId.orElse (pure 0)) :=
    ((takes_givenChar (by decide)).bind fun _ =>
      (hnumber _).bind fun _ => takes_pure _).orElse (takes_pure _)
  have hv4 : Takes IsAddressChar readSocketAddrV4 :=
    takes_readIpv4Addr.bind fun _ => hport.bind fun _ => takes_pure _
  have hv6 : Takes IsAddressChar readSocketAddrV6 :=
    (takes_givenChar (by decide)).bind fun _ => takes_readIpv6Addr.bind fun _ =>
      hscope.bind fun _ => (takes_givenChar (by decide)).bind fun _ =>
        hport.bind fun _ => takes_pure _
  exact hv4.orElse hv6

lemma isAddressChar_of_parse {s : List Char} {a : SocketAddr} (h : parseSocketAddr s = some a) :
    ∀ c ∈ s, IsAddressChar c := takes_readSocketAddr.readAll h

example : parseSocketAddr "[2001:db8::7]:8805".toList =
    some (.v6 0x20010db8000000000000000000000007 8805 0 0) := by decide +kernel

end PfcpProxy
